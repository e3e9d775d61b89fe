import DpdkTools.Device.ArpResolver
import DpdkTools.Device.McastReport
import DpdkTools.Device.UdpSegments

/-! Who owns the mbufs of the three calls that send on their own: `device::ether_address`,
`device::mcast_group` and `updtx_channel::send` (`dpdkx/device.cpp`, `mcast.cpp`,
`udptx_channel.cpp`).

An mbuf that a call allocates either goes to a ring, which frees it after transmission, or has to
be freed by the call. -/
namespace DpdkTools
open Chain
set_option autoImplicit false

/-- The mbufs a call took from the pools, gave to a ring, and gave back. -/
structure MbufLedger where
  allocated : List MbufPtr
  accepted : List MbufPtr
  freed : List MbufPtr
  deriving Repr, DecidableEq

namespace MbufLedger

def empty : MbufLedger := ⟨[], [], []⟩

/-- Every mbuf went one of the two ways, and none was given back twice. -/
structure Settled (l : MbufLedger) : Prop where
  oneWay : ∀ p ∈ l.allocated, Xor (p ∈ l.accepted) (p ∈ l.freed)
  freedOnce : l.freed.Nodup

theorem empty_settled : empty.Settled := ⟨by simp [empty], List.nodup_nil⟩

theorem settled_accepted (l : List MbufPtr) : (⟨l, l, []⟩ : MbufLedger).Settled where
  oneWay _ hp := Or.inl ⟨hp, List.not_mem_nil⟩
  freedOnce := List.nodup_nil

theorem settled_freed (l : List MbufPtr) (h : l.Nodup) : (⟨l, [], l⟩ : MbufLedger).Settled where
  oneWay _ hp := Or.inr ⟨hp, List.not_mem_nil⟩
  freedOnce := h

/-- A lost mbuf. -/
theorem not_settled (b : MbufPtr) : ¬ (⟨[b], [], []⟩ : MbufLedger).Settled := by
  intro h
  rcases h.oneWay b (List.mem_singleton_self b) with hb | hb
  · exact List.not_mem_nil hb.1
  · exact List.not_mem_nil hb.1

end MbufLedger

/-! ## One mbuf from the service pool -/

/-- The last lines of `ether_address` and `mcast_group`: the request is put on the service ring, and
nothing is done with the mbuf when the ring is full. -/
def enqueService (b : MbufPtr) (room : Bool) : MbufLedger :=
  if room then ⟨[b], [b], []⟩ else ⟨[b], [], []⟩

theorem enqueService_settled_iff (b : MbufPtr) (room : Bool) :
    (enqueService b room).Settled ↔ room = true := by
  cases room with
  | true => exact iff_of_true (MbufLedger.settled_accepted [b]) rfl
  | false => exact iff_of_false (MbufLedger.not_settled b) (by decide)

/-- The mbufs of `device::ether_address`. -/
def etherAddressMbufs (config : DeviceConfig) (arp : ArpTable) (ip4addr : Be32)
    (buffer : Option MbufPtr) (room : Bool) : MbufLedger :=
  if isOwnRange ip4addr then .empty
  else
    match arp ip4addr with
    | some _ => .empty
    | none =>
      if config.arpTable then
        match buffer with
        | none => .empty
        | some b => enqueService b room
      else .empty

/-- The mbufs of `device::mcast_group`. -/
def mcastGroupMbufs (ip4addr : Be32) (buffer : Option MbufPtr) (room : Bool) : MbufLedger :=
  if rteIsIpv4Mcast ip4addr then .empty
  else
    match buffer with
    | none => .empty
    | some b => enqueService b room

/-- What `ether_address` puts on the ring is the request in the mbuf that the ring accepts. -/
theorem etherAddressMbufs_sent (config : DeviceConfig) (arp : ArpTable) (ip4addr : Be32)
    (heap : MbufHeap) (buffer : Option MbufPtr) (room : Bool) :
    (etherAddress config arp ip4addr (buffer.map heap) room).sent =
      (etherAddressMbufs config arp ip4addr buffer room).accepted.head?.map
        fun b => arpRequest config (heap b) ip4addr := by
  unfold etherAddress etherAddressMbufs
  by_cases hown : isOwnRange ip4addr = true
  · simp [hown, MbufLedger.empty]
  · cases arp ip4addr with
    | some rec =>
      by_cases hts : rec.timestamp = 0 <;> simp [hown, hts, MbufLedger.empty]
    | none =>
      cases config.arpTable with
      | false => simp [hown, MbufLedger.empty]
      | true => cases buffer <;> cases room <;> simp [hown, enqueService, MbufLedger.empty]

/-- And what `mcast_group` puts there is the report. -/
theorem mcastGroupMbufs_sent (env : ReportEnv) (ip4addr : Be32) (type : IgmpType) (heap : MbufHeap)
    (buffer : Option MbufPtr) (room : Bool) :
    (env.mcastGroup (buffer.map heap) room ip4addr type).1 =
      (mcastGroupMbufs ip4addr buffer room).accepted.head?.map
        fun b => env.mcastReport (heap b) ip4addr type := by
  unfold ReportEnv.mcastGroup mcastGroupMbufs
  by_cases hg : rteIsIpv4Mcast ip4addr = true
  · simp [hg, MbufLedger.empty]
  · cases buffer <;> cases room <;> simp [hg, enqueService, MbufLedger.empty]

/-! ## The chain of a datagram -/

/-- The mbufs of `updtx_channel::send`; the ring that takes the head has the whole chain. -/
def UpdtxChannel.sendMbufs (r : SendOutcome) : MbufLedger where
  allocated := r.allocated
  accepted :=
    match r.accepted with
    | none => []
    | some head => walk r.heap.next r.allocated.length (some head)
  freed := r.freed

/-- Whatever the pools and the ring answer, a datagram is sent or freed as a whole. -/
theorem UpdtxChannel.send_settled (c : UpdtxChannel) (payload : ℕ → UInt8) (payloadSize : ℕ)
    (cksums : ChainChecksums) (dst : UdpDestination) (allocs : Allocations) (room : Bool)
    (heap : SegmentHeap) :
    (sendMbufs (c.send payload payloadSize cksums dst allocs room heap)).Settled := by
  by_cases hsup : c.Supplied payloadSize allocs
  · obtain ⟨filled, head, body, hlinked, hnodup, -, -, hsend⟩ :=
      c.send_supplied payload payloadSize cksums dst allocs room heap hsup
    have hwalk : walk (SegmentHeap.next (c.finishHead payloadSize cksums dst filled head))
        (head :: body).length (some head) = head :: body := by
      rw [c.finishHead_next]
      exact hlinked.walk_eq
    rw [hsend]
    cases room with
    | true =>
      have hledger : sendMbufs (enqueOrFree true (c.finishHead payloadSize cksums dst filled head)
          (head :: body) head) = ⟨head :: body, head :: body, []⟩ := by
        simp only [sendMbufs, enqueOrFree, if_true, hwalk]
      rw [hledger]
      exact MbufLedger.settled_accepted _
    | false =>
      have hledger : sendMbufs (enqueOrFree false (c.finishHead payloadSize cksums dst filled head)
          (head :: body) head) = ⟨head :: body, [], head :: body⟩ := by
        simp only [sendMbufs, enqueOrFree, Bool.false_eq_true, if_false, rtePktmbufFree, hwalk]
      rw [hledger]
      exact MbufLedger.settled_freed _ hnodup
  · obtain ⟨hnodup, -, haccepted, hfreed⟩ :=
      c.send_unsupplied payload payloadSize cksums dst allocs room heap hsup
    have hledger : sendMbufs (c.send payload payloadSize cksums dst allocs room heap) =
        ⟨(c.send payload payloadSize cksums dst allocs room heap).allocated, [],
          (c.send payload payloadSize cksums dst allocs room heap).allocated⟩ := by
      simp only [sendMbufs, haccepted, hfreed]
    rw [hledger]
    exact MbufLedger.settled_freed _ hnodup

/-! ## The three calls -/

/-- A call with the state it starts from and what the pools and the ring answer. -/
inductive ServiceCall where
  | etherAddress (config : DeviceConfig) (arp : ArpTable) (ip4addr : Be32)
      (buffer : Option MbufPtr) (room : Bool)
  | mcastGroup (ip4addr : Be32) (buffer : Option MbufPtr) (room : Bool)
  | send (c : UpdtxChannel) (payload : ℕ → UInt8) (payloadSize : ℕ) (cksums : ChainChecksums)
      (dst : UdpDestination) (allocs : Allocations) (room : Bool) (heap : SegmentHeap)

namespace ServiceCall

def mbufs : ServiceCall → MbufLedger
  | .etherAddress config arp ip4addr buffer room =>
    etherAddressMbufs config arp ip4addr buffer room
  | .mcastGroup ip4addr buffer room => mcastGroupMbufs ip4addr buffer room
  | .send c payload payloadSize cksums dst allocs room heap =>
    UpdtxChannel.sendMbufs (c.send payload payloadSize cksums dst allocs room heap)

/-- The service ring has room whenever a request gets as far as the ring. -/
def RingHasRoom : ServiceCall → Prop
  | .etherAddress config arp ip4addr buffer room =>
    isOwnRange ip4addr = true ∨ arp ip4addr ≠ none ∨ config.arpTable = false ∨ buffer = none ∨
      room = true
  | .mcastGroup ip4addr buffer room => rteIsIpv4Mcast ip4addr = true ∨ buffer = none ∨ room = true
  | .send .. => True

theorem settled_iff (call : ServiceCall) : call.mbufs.Settled ↔ call.RingHasRoom := by
  cases call with
  | etherAddress config arp ip4addr buffer room =>
    simp only [mbufs, RingHasRoom, etherAddressMbufs]
    by_cases hown : isOwnRange ip4addr = true
    · simp [hown, MbufLedger.empty_settled]
    · cases harp : arp ip4addr with
      | some rec => simp [hown, MbufLedger.empty_settled]
      | none =>
        cases htable : config.arpTable with
        | false => simp [hown, MbufLedger.empty_settled]
        | true =>
          cases buffer with
          | none => simp [hown, MbufLedger.empty_settled]
          | some b => simp [hown, enqueService_settled_iff]
  | mcastGroup ip4addr buffer room =>
    simp only [mbufs, RingHasRoom, mcastGroupMbufs]
    by_cases hg : rteIsIpv4Mcast ip4addr = true
    · simp [hg, MbufLedger.empty_settled]
    · cases buffer with
      | none => simp [hg, MbufLedger.empty_settled]
      | some b => simp [hg, enqueService_settled_iff]
  | send c payload payloadSize cksums dst allocs room heap =>
    exact iff_of_true
      (UpdtxChannel.send_settled c payload payloadSize cksums dst allocs room heap) trivial

/-- A request for an unknown address that finds the ring full, and its mbuf. -/
theorem request_lost :
    (ServiceCall.etherAddress ⟨false, true, List.replicate 6 2, 0x0100000A, false⟩ (fun _ => none)
      0x0200000A (some 7) false).mbufs = ⟨[7], [], []⟩ ∧
    ¬ (ServiceCall.etherAddress ⟨false, true, List.replicate 6 2, 0x0100000A, false⟩ (fun _ => none)
      0x0200000A (some 7) false).mbufs.Settled := by
  have hlost : (ServiceCall.etherAddress ⟨false, true, List.replicate 6 2, 0x0100000A, false⟩
      (fun _ => none) 0x0200000A (some 7) false).mbufs = ⟨[7], [], []⟩ := by decide
  refine ⟨hlost, ?_⟩
  rw [hlost]
  exact MbufLedger.not_settled 7

end ServiceCall
end DpdkTools
