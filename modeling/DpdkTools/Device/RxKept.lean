import DpdkTools.Device.RxJob
import DpdkTools.Device.EchoReply

/-! What `process_rx_packets` leaves in front of the array: the mbufs that no service ring took, in
the order they arrived. The caller frees exactly these.

Whether an mbuf is offered to the ring depends on its own packet alone, so for distinct mbufs the
whole loop is a filter over the burst as it was given. -/
namespace DpdkTools
set_option autoImplicit false

/-! ## Packets offered to the ring -/

def offersEcho (env : RxEnv) (m : Mbuf) : Bool :=
  m.ethProto = etherTypeIpv4 && m.l2Len + m.ipv4HdrLen ≤ m.dataLen &&
    m.nextProtoId = ipprotoIcmp && isEchoRequest env m

def offersArp (env : RxEnv) (m : Mbuf) : Bool :=
  m.ethProto = etherTypeArp && m.l2Len + sizeofArpHdr ≤ m.dataLen && arpHardware m = rteBe16 1 &&
    arpProtocol m = etherTypeIpv4 && arpOpcode m = rteBe16 1 && env.config.ip4Addr = arpTip m

def offered (env : RxEnv) (m : Mbuf) : Bool := offersEcho env m || offersArp env m

/-- The mbuf is offered to a service ring, and the ring takes it. -/
def accepted (env : RxEnv) (heap : MbufHeap) (b : MbufPtr) : Bool :=
  offered env (heap b) && env.enque b

theorem etherTypeArp_ne_ipv4 : etherTypeArp ≠ etherTypeIpv4 := by decide

theorem offered_ipv4 (env : RxEnv) (m : Mbuf) (h : m.ethProto = etherTypeIpv4) :
    offered env m = (decide (m.l2Len + m.ipv4HdrLen ≤ m.dataLen) &&
      (decide (m.nextProtoId = ipprotoIcmp) && isEchoRequest env m)) := by
  have harp : etherTypeIpv4 ≠ etherTypeArp := etherTypeArp_ne_ipv4.symm
  simp [offered, offersEcho, offersArp, h, harp, Bool.and_assoc]

theorem offered_not_ipv4 (env : RxEnv) (m : Mbuf) (h : m.ethProto ≠ etherTypeIpv4) :
    offered env m = offersArp env m := by
  simp [offered, offersEcho, h]

theorem processRxPacket_offered (env : RxEnv) (arp : ArpTable) (b : MbufPtr) (m : Mbuf) :
    (processRxPacket env arp b m).2.2 = offered env m := by
  unfold processRxPacket
  split_ifs with hip hlen hicmp harp hlen hhw hreq htip hrep
  · rw [offered_ipv4 env m hip, decide_eq_false (Nat.not_le.mpr hlen), Bool.false_and]
  · rw [offered_ipv4 env m hip, decide_eq_true (Nat.not_lt.mp hlen), hicmp, Bool.and_self]
  · have hno : (decide (m.nextProtoId = ipprotoIcmp) && isEchoRequest env m) = false := by
      simpa only [Bool.not_eq_true] using hicmp
    rw [offered_ipv4 env m hip, hno, Bool.and_false]
  all_goals rw [offered_not_ipv4 env m hip]
  · simp [offersArp, Nat.not_le.mpr hlen]
  · simp_all [offersArp]
  · simp [offersArp, htip]
  · simp [offersArp, hreq]
  · simp [offersArp, hreq]
  · simp_all [offersArp]
  · simp [offersArp, harp]

/-! ## The loop as a filter -/

/-- Settling one mbuf changes no other packet. -/
theorem accepted_update (env : RxEnv) (heap : MbufHeap) (b x : MbufPtr) (m : Mbuf) (h : x ≠ b) :
    accepted env (Function.update heap b m) x = accepted env heap x := by
  rw [accepted, Function.update_of_ne h, accepted]

theorem splitRxPackets_filter (env : RxEnv) (bs : List MbufPtr) (heap : MbufHeap) (arp : ArpTable)
    (hnodup : bs.Nodup) :
    (splitRxPackets env heap arp bs).buffers = bs.filter (fun b => !accepted env heap b) ∧
      (splitRxPackets env heap arp bs).used = (bs.filter (fun b => !accepted env heap b)).length ∧
      (splitRxPackets env heap arp bs).ringed = bs.filter (accepted env heap) := by
  induction bs generalizing heap arp with
  | nil => exact ⟨rfl, rfl, rfl⟩
  | cons b bs ih =>
    obtain ⟨hb, hbs⟩ := List.nodup_cons.mp hnodup
    obtain ⟨hbuffers, hused, hringed⟩ := ih
      (Function.update heap b (processRxPacket env arp b (heap b)).1)
      (processRxPacket env arp b (heap b)).2.1 hbs
    have hother : ∀ x ∈ bs, accepted env
        (Function.update heap b (processRxPacket env arp b (heap b)).1) x = accepted env heap x := by
      intro x hx
      apply accepted_update
      rintro rfl
      exact hb hx
    have hkeep : bs.filter (fun x => !accepted env
        (Function.update heap b (processRxPacket env arp b (heap b)).1) x) =
        bs.filter (fun x => !accepted env heap x) :=
      List.filter_congr (fun x hx => by rw [hother x hx])
    have htake : bs.filter (accepted env
        (Function.update heap b (processRxPacket env arp b (heap b)).1)) =
        bs.filter (accepted env heap) :=
      List.filter_congr hother
    rw [hkeep] at hbuffers hused
    rw [htake] at hringed
    have hacc : ((processRxPacket env arp b (heap b)).2.2 && env.enque b) = accepted env heap b := by
      rw [processRxPacket_offered, accepted]
    rw [splitRxPackets, hacc, List.filter_cons, List.filter_cons]
    cases hcase : accepted env heap b with
    | true => exact ⟨hbuffers, hused, by simp [hringed]⟩
    | false => exact ⟨by simp [hbuffers], by simp [hused], hringed⟩

theorem processRxPackets_filter (env : RxEnv) (heap : MbufHeap) (arp : ArpTable)
    (burst : List MbufPtr) (hnodup : burst.Nodup) :
    (processRxPackets env heap arp burst).used =
        (burst.filter (fun b => !accepted env heap b)).length ∧
      (processRxPackets env heap arp burst).buffers.take (processRxPackets env heap arp burst).used =
        burst.filter (fun b => !accepted env heap b) ∧
      (processRxPackets env heap arp burst).ringed = burst.filter (accepted env heap) := by
  obtain ⟨htake, hringed, hused, _⟩ := processRxPackets_spec env heap arp burst
  obtain ⟨hfront, hcount, htaken⟩ := splitRxPackets_filter env burst heap arp hnodup
  exact ⟨hused.trans hcount, htake.trans hfront, hringed.trans htaken⟩

/-- The `used` mbufs in front are those no ring took, in the order they came; a mbuf that a ring
took is none of them. -/
theorem processRxPackets_keeps_rest (env : RxEnv) (heap : MbufHeap) (arp : ArpTable)
    (burst : List MbufPtr) (hnodup : burst.Nodup) :
    let t := processRxPackets env heap arp burst
    t.used = (burst.filter (fun b => !accepted env heap b)).length ∧
      t.buffers.take t.used = burst.filter (fun b => !accepted env heap b) ∧
      t.ringed = burst.filter (accepted env heap) ∧
      ∀ b ∈ t.ringed, b ∉ t.buffers.take t.used := by
  intro t
  obtain ⟨hused, hkept, hring⟩ := processRxPackets_filter env heap arp burst hnodup
  refine ⟨hused, hkept, hring, ?_⟩
  intro b hb hfree
  rw [hring] at hb
  rw [hkept] at hfree
  have hacc := (List.mem_filter.mp hb).2
  have hrej := (List.mem_filter.mp hfree).2
  rw [hacc] at hrej
  exact absurd hrej (by decide)

/-- A packet of no known protocol, and two pings of which the ring takes the first. -/
theorem processRxPackets_two_pings :
    let env := { pingEnv with enque := fun b => b == 1 }
    let heap : MbufHeap := fun b => if b = 0 then ⟨fun _ => 0, 60, 14, 0, 0, 0⟩ else plainEcho
    let t := processRxPackets env heap (fun _ => none) [0, 1, 2]
    t.used = 2 ∧ t.buffers.take t.used = [0, 2] ∧ t.ringed = [1] ∧
      ∀ b ∈ t.ringed, b ∉ t.buffers.take t.used :=
  processRxPackets_keeps_rest { pingEnv with enque := fun b => b == 1 }
    (fun b => if b = 0 then ⟨fun _ => 0, 60, 14, 0, 0, 0⟩ else plainEcho) (fun _ => none) [0, 1, 2]
    (by decide)

/-! ## What the caller frees -/

def freeRest (bs : List MbufPtr) : List RxAction := if bs = [] then [] else [.freeBulk bs]

/-- A receive call ends with freeing the packets for no channel that no ring took. -/
theorem finish_frees_rest (s : RxLoop) (c : RxCall) (arp : ArpTable) (burstSize n : ℕ)
    (o : RxOutcome) (h : s.finish c arp burstSize n = some o) (hnodup : o.given.Nodup) :
    ∃ log, o.actions =
      log ++ freeRest (o.given.filter (fun b => !accepted c.env o.heap b)) := by
  obtain ⟨t, _, hheap, hpackets, hactions, _⟩ := s.finish_cases c arp burstSize n o h
  obtain ⟨hused, hkept, _⟩ := processRxPackets_filter c.env o.heap arp o.given hnodup
  rw [← hheap] at hpackets
  rw [← hpackets] at hused hkept
  refine ⟨t.log, ?_⟩
  rw [hactions, hkept, freeRest, hused]
  cases o.given.filter (fun b => !accepted c.env o.heap b) with
  | nil => simp
  | cons b bs => simp

end DpdkTools
