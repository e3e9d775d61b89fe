import Mathlib.Data.List.Infix
import DpdkTools.Net.Mbuf
import DpdkTools.Sockperf.Elapsed
import DpdkTools.Sockperf.Header

/-! The receiving side of the performance test: `sockperf_channel` (`sockperf_cli/utils.cpp`) and
the table of `statistics` it fills (`sockperf_cli/stats.cpp`).

A channel gets bursts of mbufs from the receive job. Warm-up messages replace
`last_warmup_message_`; of the others the first `packets2send_` take a slot of the table each, and
every later one asks for the jobs to be stopped. All mbufs of a burst are freed at its end.

A message that gets a slot has its timestamp converted by the clock of the device, and on a device
without a frequency that is a division by zero: a call with such a message is `none` here. -/
namespace DpdkTools.Sockperf
set_option autoImplicit false

/-! ## The table -/

/-- `statistics::packet_info`. -/
structure PacketInfo where
  seqn : SeqnT
  received : UInt64
  enqueuedRx : UInt64
  size : UInt16
  deriving Repr, DecidableEq

/-- `memory` is what `allocate_memory` returned: `size` entries with arbitrary content. -/
structure Statistics where
  txqN : UInt8
  nextSlot : UInt64
  size : UInt64
  memory : ℕ → PacketInfo

namespace Statistics

def create (nSlots : UInt64) (txqN : UInt8) (memory : ℕ → PacketInfo) : Statistics :=
  ⟨txqN, 0, nSlots * txqN.toUInt64, memory⟩

def requestedSlots (s : Statistics) : UInt64 := s.nextSlot

/-- The index of the entry that `slot` returns. -/
def slotIx (s : Statistics) : UInt64 :=
  if s.size > s.nextSlot then s.nextSlot else s.size - 1

/-- `slot`, with what the caller assigns to the entry. -/
def slot (s : Statistics) (info : PacketInfo) : Statistics :=
  { s with
    memory := Function.update s.memory s.slotIx.toNat info
    nextSlot := s.nextSlot + 1 }

end Statistics

/-! ## The channel -/

structure MessageInfo where
  seqn : SeqnT
  receivedTs : UInt64
  enqueuedTs : UInt64
  deriving Repr, DecidableEq

structure Channel where
  packets2send : UInt64
  /-- `device().clock_hz()` -/
  clockHz : UInt64
  stats : Statistics
  lastWarmupMessage : Option MessageInfo

/-- The constructor of `sockperf_channel`; `ntx` is the number of transmit jobs of the device. -/
def Channel.create (packets2send ntx clockHz : UInt64) (detailedStats : Bool)
    (memory : ℕ → PacketInfo) : Channel where
  packets2send := packets2send * ntx
  clockHz := clockHz
  stats := .create (if detailedStats && packets2send * ntx != 0 then packets2send * ntx else 2)
    ntx.toUInt8 memory
  lastWarmupMessage := none

/-- `mul_div`, which multiplies in 128 bits (`dpdkx/detail/numerics.hpp`), for a divisor other than
0. -/
def mulDiv (x n d : UInt64) : UInt64 := UInt64.ofNat (x.toNat * n.toNat / d.toNat)

/-- `device::timestamp_fix` for a clock of `clockHz`; `none` is a division by zero. -/
def timestampFix (clockHz timestamp : UInt64) : Option UInt64 :=
  if clockHz = 0 then none else some (mulDiv timestamp nsPerS clockHz)

theorem timestampFix_isSome (clockHz ts : UInt64) :
    (timestampFix clockHz ts).isSome ↔ clockHz ≠ 0 := by
  rw [timestampFix]
  by_cases hz : clockHz = 0
  · rw [if_pos hz]
    exact iff_of_false Bool.false_ne_true (not_not_intro hz)
  · rw [if_neg hz]
    exact iff_of_true rfl hz

/-- One call of `enqueue`: the reading of `ns_timer` at its start, the timestamps the NIC left in
the mbufs, and the mbufs. -/
structure EnqueueCall where
  enqueued : UInt64
  timestamp : MbufPtr → Option UInt64
  heap : MbufHeap
  buffers : List MbufPtr

/-- What the loop does for one mbuf. -/
inductive Effect where
  | ignored
  | warmup
  | stopJobs
  | slot (ix : UInt64)
  deriving Repr, DecidableEq

def msgHeaderSize (m : Mbuf) : ℕ := m.l2Len + m.l3Len + m.l4Len

namespace EnqueueCall

/-- `info.received` -/
def received (e : EnqueueCall) (clockHz : UInt64) (b : MbufPtr) : Option UInt64 :=
  match e.timestamp b with
  | some ts => timestampFix clockHz ts
  | none => some e.enqueued

def packetInfo (e : EnqueueCall) (clockHz : UInt64) (b : MbufPtr) : Option PacketInfo :=
  (e.received clockHz b).map fun received =>
    { seqn := seqn (e.heap b).data (msgHeaderSize (e.heap b))
      received := received
      enqueuedRx := e.enqueued
      size := UInt16.ofNat (e.heap b).dataLen }

def messageInfo (e : EnqueueCall) (b : MbufPtr) : MessageInfo where
  seqn := seqn (e.heap b).data (msgHeaderSize (e.heap b))
  receivedTs := (e.timestamp b).getD e.enqueued
  enqueuedTs := e.enqueued

end EnqueueCall

namespace Channel

/-- The body of the loop of `enqueue` for the mbuf `b`. -/
def receive (c : Channel) (e : EnqueueCall) (b : MbufPtr) : Option (Channel × Effect) :=
  if msgHeaderSize (e.heap b) + headerSize ≤ (e.heap b).dataLen then
    let type := messageType (e.heap b).data (msgHeaderSize (e.heap b))
    if type = .ping ∨ type = .pong then
      if isWarmup (seqn (e.heap b).data (msgHeaderSize (e.heap b))) then
        some ({ c with lastWarmupMessage := some (e.messageInfo b) }, .warmup)
      else if c.stats.requestedSlots = c.packets2send then some (c, .stopJobs)
      else (e.packetInfo c.clockHz b).map fun info =>
        ({ c with stats := c.stats.slot info }, .slot c.stats.slotIx)
    else some (c, .ignored)
  else some (c, .ignored)

def receiveAll (c : Channel) (e : EnqueueCall) : List MbufPtr → Option (Channel × List Effect)
  | [] => some (c, [])
  | b :: bs => do
    let (c', effect) ← c.receive e b
    let (c'', effects) ← c'.receiveAll e bs
    pure (c'', effect :: effects)

end Channel

structure EnqueueOutcome where
  effects : List Effect
  freed : List MbufPtr
  result : ℕ

/-- `sockperf_channel::enqueue`. -/
def Channel.enqueue (c : Channel) (e : EnqueueCall) : Option (Channel × EnqueueOutcome) := do
  let (c', effects) ← c.receiveAll e e.buffers
  pure (c', ⟨effects, e.buffers, 0⟩)

def Channel.enqueues (c : Channel) : List EnqueueCall → Option (Channel × List EnqueueOutcome)
  | [] => some (c, [])
  | e :: es => do
    let (c', o) ← c.enqueue e
    let (c'', os) ← c'.enqueues es
    pure (c'', o :: os)

/-! ## The messages of a run, in the order they arrive -/

abbrev Message := EnqueueCall × MbufPtr

def messages (es : List EnqueueCall) : List Message := es.flatMap fun e => e.buffers.map (e, ·)

/-- A Ping or Pong of at least header size that is no warm-up message. -/
def isData (x : Message) : Bool :=
  decide (msgHeaderSize (x.1.heap x.2) + headerSize ≤ (x.1.heap x.2).dataLen) &&
    (messageType (x.1.heap x.2).data (msgHeaderSize (x.1.heap x.2)) = .ping ||
      messageType (x.1.heap x.2).data (msgHeaderSize (x.1.heap x.2)) = .pong) &&
    !isWarmup (seqn (x.1.heap x.2).data (msgHeaderSize (x.1.heap x.2)))

theorem isData_iff (x : Message) : isData x = true ↔
    msgHeaderSize (x.1.heap x.2) + headerSize ≤ (x.1.heap x.2).dataLen ∧
      (messageType (x.1.heap x.2).data (msgHeaderSize (x.1.heap x.2)) = .ping ∨
        messageType (x.1.heap x.2).data (msgHeaderSize (x.1.heap x.2)) = .pong) ∧
      isWarmup (seqn (x.1.heap x.2).data (msgHeaderSize (x.1.heap x.2))) = false := by
  simp only [isData, Bool.and_eq_true, Bool.or_eq_true, decide_eq_true_eq, Bool.not_eq_true',
    and_assoc]

def Effect.slot? : Effect → Option UInt64
  | .slot ix => some ix
  | _ => none

namespace Channel

def receiveMessages (c : Channel) : List Message → Option (Channel × List Effect)
  | [] => some (c, [])
  | x :: xs => do
    let (c', effect) ← c.receive x.1 x.2
    let (c'', effects) ← c'.receiveMessages xs
    pure (c'', effect :: effects)

theorem receiveMessages_cons (c : Channel) (x : Message) (xs : List Message)
    (out : Channel × List Effect) :
    c.receiveMessages (x :: xs) = some out ↔ ∃ mid rest, c.receive x.1 x.2 = some mid ∧
      mid.1.receiveMessages xs = some rest ∧ out = (rest.1, mid.2 :: rest.2) := by
  rw [receiveMessages]
  constructor
  · intro h
    obtain ⟨mid, hmid, h⟩ := Option.bind_eq_some_iff.mp h
    obtain ⟨rest, hrest, h⟩ := Option.bind_eq_some_iff.mp h
    exact ⟨mid, rest, hmid, hrest, (Option.some.inj h).symm⟩
  · rintro ⟨mid, rest, hmid, hrest, rfl⟩
    rw [hmid, Option.bind_eq_bind, Option.bind_some]
    dsimp only
    rw [hrest]
    rfl

theorem receiveMessages_append (c : Channel) (xs ys : List Message) (out : Channel × List Effect) :
    c.receiveMessages (xs ++ ys) = some out ↔ ∃ mid rest, c.receiveMessages xs = some mid ∧
      mid.1.receiveMessages ys = some rest ∧ out = (rest.1, mid.2 ++ rest.2) := by
  induction xs generalizing c out with
  | nil =>
    constructor
    · intro h
      exact ⟨(c, []), out, rfl, h, rfl⟩
    · rintro ⟨mid, rest, hmid, hrest, rfl⟩
      obtain rfl := Option.some.inj hmid
      exact hrest
  | cons x xs ih =>
    rw [List.cons_append, receiveMessages_cons]
    constructor
    · rintro ⟨first, rest, hfirst, hrest, rfl⟩
      obtain ⟨mid, last, hmid, hlast, rfl⟩ := (ih first.1 rest).mp hrest
      exact ⟨_, last, (receiveMessages_cons c x xs _).mpr ⟨first, mid, hfirst, hmid, rfl⟩, hlast, rfl⟩
    · rintro ⟨mid, last, hmid, hlast, rfl⟩
      obtain ⟨first, rest, hfirst, hrest, rfl⟩ := (receiveMessages_cons c x xs mid).mp hmid
      exact ⟨first, _, hfirst, (ih first.1 _).mpr ⟨rest, last, hrest, hlast, rfl⟩, rfl⟩

theorem receiveAll_eq (c : Channel) (e : EnqueueCall) (bs : List MbufPtr) :
    c.receiveAll e bs = c.receiveMessages (bs.map (e, ·)) := by
  induction bs generalizing c with
  | nil => rfl
  | cons b bs ih =>
    rw [receiveAll, List.map_cons, receiveMessages]
    cases c.receive e b with
    | none => rfl
    | some mid =>
      rw [Option.bind_eq_bind, Option.bind_some, Option.bind_eq_bind, Option.bind_some]
      dsimp only
      rw [ih]

theorem enqueue_some (c : Channel) (e : EnqueueCall) (out : Channel × EnqueueOutcome) :
    c.enqueue e = some out ↔ ∃ mid, c.receiveMessages (e.buffers.map (e, ·)) = some mid ∧
      out = (mid.1, ⟨mid.2, e.buffers, 0⟩) := by
  rw [enqueue, receiveAll_eq]
  constructor
  · intro h
    obtain ⟨mid, hmid, h⟩ := Option.bind_eq_some_iff.mp h
    exact ⟨mid, hmid, (Option.some.inj h).symm⟩
  · rintro ⟨mid, hmid, rfl⟩
    rw [hmid]
    rfl

theorem enqueues_cons (c : Channel) (e : EnqueueCall) (es : List EnqueueCall)
    (out : Channel × List EnqueueOutcome) :
    c.enqueues (e :: es) = some out ↔ ∃ mid rest, c.enqueue e = some mid ∧
      mid.1.enqueues es = some rest ∧ out = (rest.1, mid.2 :: rest.2) := by
  rw [enqueues]
  constructor
  · intro h
    obtain ⟨mid, hmid, h⟩ := Option.bind_eq_some_iff.mp h
    obtain ⟨rest, hrest, h⟩ := Option.bind_eq_some_iff.mp h
    exact ⟨mid, rest, hmid, hrest, (Option.some.inj h).symm⟩
  · rintro ⟨mid, rest, hmid, hrest, rfl⟩
    rw [hmid, Option.bind_eq_bind, Option.bind_some]
    dsimp only
    rw [hrest]
    rfl

/-- Calls take their messages one after the other, and each frees its mbufs. -/
theorem enqueues_spec (c : Channel) (es : List EnqueueCall) (out : Channel × List EnqueueOutcome)
    (h : c.enqueues es = some out) :
    c.receiveMessages (messages es) = some (out.1, out.2.flatMap EnqueueOutcome.effects) ∧
      out.2.map EnqueueOutcome.freed = es.map EnqueueCall.buffers ∧ ∀ o ∈ out.2, o.result = 0 := by
  induction es generalizing c out with
  | nil =>
    obtain rfl := Option.some.inj h
    exact ⟨rfl, rfl, fun _ ho => absurd ho List.not_mem_nil⟩
  | cons e es ih =>
    obtain ⟨first, rest, hfirst, hrest, rfl⟩ := (enqueues_cons c e es out).mp h
    obtain ⟨mid, hmid, rfl⟩ := (enqueue_some c e first).mp hfirst
    obtain ⟨hmessages, hfreed, hresult⟩ := ih _ rest hrest
    refine ⟨?_, congrArg (e.buffers :: ·) hfreed, ?_⟩
    · exact (receiveMessages_append c (e.buffers.map (e, ·)) (messages es) _).mpr
        ⟨mid, _, hmid, hmessages, rfl⟩
    · intro o ho
      obtain rfl | ho := List.mem_cons.mp ho
      · rfl
      · exact hresult o ho

theorem enqueues_isSome (c : Channel) (es : List EnqueueCall) :
    (c.enqueues es).isSome ↔ (c.receiveMessages (messages es)).isSome := by
  constructor
  · intro h
    obtain ⟨out, hout⟩ := Option.isSome_iff_exists.mp h
    exact Option.isSome_iff_exists.mpr ⟨_, (enqueues_spec c es out hout).1⟩
  · intro h
    obtain ⟨out, hout⟩ := Option.isSome_iff_exists.mp h
    induction es generalizing c out with
    | nil => rfl
    | cons e es ih =>
      obtain ⟨mid, rest, hmid, hrest, -⟩ :=
        (receiveMessages_append c (e.buffers.map (e, ·)) (messages es) out).mp hout
      obtain ⟨last, hlast⟩ := Option.isSome_iff_exists.mp
        (ih mid.1 (Option.isSome_iff_exists.mpr ⟨rest, hrest⟩) rest hrest)
      exact Option.isSome_iff_exists.mpr ⟨_, (enqueues_cons c e es _).mpr
        ⟨_, last, (enqueue_some c e _).mpr ⟨mid, hmid, rfl⟩, hlast, rfl⟩⟩

/-! ## One message -/

inductive Receives (c : Channel) (x : Message) : Channel × Effect → Prop
  | ignored : isData x = false → Receives c x (c, .ignored)
  | warmup : isData x = false →
      Receives c x ({ c with lastWarmupMessage := some (x.1.messageInfo x.2) }, .warmup)
  | stopJobs : isData x = true → c.stats.requestedSlots = c.packets2send →
      Receives c x (c, .stopJobs)
  | slot (info : PacketInfo) : isData x = true → c.stats.requestedSlots ≠ c.packets2send →
      x.1.packetInfo c.clockHz x.2 = some info →
      Receives c x ({ c with stats := c.stats.slot info }, .slot c.stats.slotIx)

theorem receive_data (c : Channel) (x : Message) (h : isData x = true) :
    c.receive x.1 x.2 =
      if c.stats.requestedSlots = c.packets2send then some (c, .stopJobs)
      else (x.1.packetInfo c.clockHz x.2).map fun info =>
        ({ c with stats := c.stats.slot info }, .slot c.stats.slotIx) := by
  obtain ⟨hlen, htype, hw⟩ := (isData_iff x).mp h
  rw [receive, if_pos hlen]
  dsimp only
  rw [if_pos htype, hw, if_neg Bool.false_ne_true]

theorem receive_receives (c : Channel) (x : Message) (out : Channel × Effect)
    (h : c.receive x.1 x.2 = some out) : Receives c x out := by
  cases hd : isData x with
  | true =>
    rw [receive_data c x hd] at h
    split_ifs at h with hfull
    · obtain rfl := Option.some.inj h
      exact .stopJobs hd hfull
    · obtain ⟨info, hinfo, rfl⟩ := Option.map_eq_some_iff.mp h
      exact .slot info hd hfull hinfo
  | false =>
    have hnot := (isData_iff x).not.mp (Bool.eq_false_iff.mp hd)
    unfold receive at h
    dsimp only at h
    split_ifs at h with hlen htype hw hfull
    · obtain rfl := Option.some.inj h
      exact .warmup hd
    · exact absurd ⟨hlen, htype, Bool.eq_false_iff.mpr hw⟩ hnot
    · exact absurd ⟨hlen, htype, Bool.eq_false_iff.mpr hw⟩ hnot
    · obtain rfl := Option.some.inj h
      exact .ignored hd
    · obtain rfl := Option.some.inj h
      exact .ignored hd

theorem receive_other_isSome (c : Channel) (x : Message) (h : isData x = false) :
    (c.receive x.1 x.2).isSome := by
  have hnot := (isData_iff x).not.mp (Bool.eq_false_iff.mp h)
  unfold receive
  dsimp only
  split_ifs with hlen htype hw hfull
  · rfl
  · rfl
  · exact absurd ⟨hlen, htype, Bool.eq_false_iff.mpr hw⟩ hnot
  · rfl
  · rfl

theorem packetInfo_isSome (e : EnqueueCall) (clockHz : UInt64) (b : MbufPtr) :
    (e.packetInfo clockHz b).isSome ↔ clockHz ≠ 0 ∨ e.timestamp b = none := by
  rw [EnqueueCall.packetInfo, Option.isSome_map, EnqueueCall.received]
  cases e.timestamp b with
  | none => exact iff_of_true rfl (Or.inr rfl)
  | some ts =>
    rw [or_iff_left (Option.some_ne_none ts)]
    exact timestampFix_isSome clockHz ts

theorem packetInfo_fields (e : EnqueueCall) (clockHz : UInt64) (b : MbufPtr) (info : PacketInfo)
    (h : e.packetInfo clockHz b = some info) :
    info.seqn = seqn (e.heap b).data (msgHeaderSize (e.heap b)) ∧ info.enqueuedRx = e.enqueued ∧
      info.size = UInt16.ofNat (e.heap b).dataLen := by
  rw [EnqueueCall.packetInfo] at h
  obtain ⟨received, -, rfl⟩ := Option.map_eq_some_iff.mp h
  exact ⟨rfl, rfl, rfl⟩

/-- A data message while there is room: the table has one entry more. -/
theorem slot_nextSlot (c : Channel) (info : PacketInfo)
    (h : c.stats.nextSlot.toNat < c.packets2send.toNat) :
    (c.stats.slot info).nextSlot.toNat = c.stats.nextSlot.toNat + 1 := by
  have hp : c.packets2send.toNat < 2 ^ 64 := c.packets2send.toNat_lt
  have hone : (1 : UInt64).toNat = 1 := rfl
  rw [Statistics.slot, UInt64.toNat_add, hone]
  omega

/-! ## Messages with a slot -/

def dataCount (xs : List Message) : ℕ := xs.countP isData

theorem dataCount_cons (x : Message) (xs : List Message) :
    dataCount (x :: xs) = dataCount [x] + dataCount xs := by
  rw [dataCount, dataCount, dataCount, ← List.countP_append, List.singleton_append]

theorem dataCount_singleton (x : Message) : dataCount [x] = if isData x = true then 1 else 0 :=
  List.countP_singleton

/-- The messages that a channel with room for `packets2send_ - next_slot_` more gives a slot. -/
def slotted (c : Channel) (xs : List Message) : List Message :=
  (xs.filter isData).take (c.packets2send.toNat - c.stats.nextSlot.toNat)

theorem slotted_length (c : Channel) (xs : List Message) :
    (c.slotted xs).length = min (dataCount xs) (c.packets2send.toNat - c.stats.nextSlot.toNat) := by
  rw [slotted, List.length_take, dataCount, List.countP_eq_length_filter, Nat.min_comm]

/-- No more slots are taken than packets are wanted. -/
def Within (c : Channel) : Prop := c.stats.nextSlot.toNat ≤ c.packets2send.toNat

section Received
variable {c : Channel} {x : Message} {out : Channel × Effect} (h : Receives c x out) (hle : c.Within)
include h hle

/-- What one message does to the table, in one line for all kinds of message. -/
theorem Receives.counts :
    out.1.packets2send = c.packets2send ∧ out.1.clockHz = c.clockHz ∧
      out.1.stats.size = c.stats.size ∧ out.1.stats.txqN = c.stats.txqN ∧
      out.1.stats.nextSlot.toNat = min (c.stats.nextSlot.toNat + dataCount [x]) c.packets2send.toNat := by
  rw [Within] at hle
  cases h with
  | ignored hd =>
    rw [dataCount_singleton, hd, if_neg Bool.false_ne_true]
    exact ⟨rfl, rfl, rfl, rfl, (Nat.min_eq_left hle).symm⟩
  | warmup hd =>
    rw [dataCount_singleton, hd, if_neg Bool.false_ne_true]
    exact ⟨rfl, rfl, rfl, rfl, (Nat.min_eq_left hle).symm⟩
  | stopJobs hd hfull =>
    have hn : c.stats.nextSlot.toNat = c.packets2send.toNat := congrArg UInt64.toNat hfull
    refine ⟨rfl, rfl, rfl, rfl, ?_⟩
    dsimp only
    omega
  | slot info hd hroom hinfo =>
    have hn : c.stats.nextSlot.toNat ≠ c.packets2send.toNat :=
      fun heq => hroom (UInt64.toNat_inj.mp heq)
    refine ⟨rfl, rfl, rfl, rfl, ?_⟩
    dsimp only
    rw [slot_nextSlot c info (by omega), dataCount_singleton, hd, if_pos rfl]
    omega

theorem Receives.within : out.1.Within := by
  obtain ⟨hp, _, _, _, hn⟩ := h.counts hle
  rw [Within, hn, hp]
  exact Nat.min_le_right _ _

/-- The messages with a slot are those of the first message and those behind it. -/
theorem Receives.slotted_cons (xs : List Message) :
    c.slotted (x :: xs) = c.slotted [x] ++ out.1.slotted xs := by
  rw [Within] at hle
  have hother (hd : isData x = false) : c.slotted (x :: xs) = c.slotted [x] ++ c.slotted xs := by
    have hx : ¬ isData x = true := by rw [hd]; exact Bool.false_ne_true
    rw [slotted, slotted, slotted, List.filter_cons_of_neg hx, List.filter_cons_of_neg hx,
      List.filter_nil, List.take_nil, List.nil_append]
  cases h with
  | ignored hd => exact hother hd
  | warmup hd => exact hother hd
  | stopJobs hd hfull =>
    have hzero : c.packets2send.toNat - c.stats.nextSlot.toNat = 0 := by
      rw [← hfull]
      exact Nat.sub_self _
    simp only [slotted, hzero, List.take_zero, List.append_nil]
  | slot info hd hroom hinfo =>
    have hn : c.stats.nextSlot.toNat ≠ c.packets2send.toNat :=
      fun heq => hroom (UInt64.toNat_inj.mp heq)
    have hone : c.packets2send.toNat - c.stats.nextSlot.toNat =
        c.packets2send.toNat - (c.stats.slot info).nextSlot.toNat + 1 := by
      rw [slot_nextSlot c info (by omega)]
      omega
    rw [slotted, slotted, slotted, List.filter_cons_of_pos hd, List.filter_cons_of_pos hd,
      List.filter_nil, hone, List.take_succ_cons, List.take_succ_cons, List.take_nil]
    rfl

end Received

theorem receive_isSome (c : Channel) (hle : c.Within) (x : Message) :
    (c.receive x.1 x.2).isSome ↔
      c.clockHz ≠ 0 ∨ ∀ y ∈ c.slotted [x], y.1.timestamp y.2 = none := by
  cases hd : isData x with
  | false =>
    apply iff_of_true (receive_other_isSome c x hd)
    right
    intro y hy
    have hmem := List.of_mem_filter (List.mem_of_mem_take hy)
    rw [List.mem_singleton.mp (List.mem_of_mem_filter (List.mem_of_mem_take hy)), hd] at hmem
    exact absurd hmem Bool.false_ne_true
  | true =>
    rw [receive_data c x hd, slotted, List.filter_cons_of_pos hd, List.filter_nil]
    by_cases hfull : c.stats.requestedSlots = c.packets2send
    · have hzero : c.packets2send.toNat - c.stats.nextSlot.toNat = 0 := by
        rw [← hfull]
        exact Nat.sub_self _
      rw [if_pos hfull, hzero, List.take_zero]
      exact iff_of_true rfl (Or.inr fun _ hy => absurd hy List.not_mem_nil)
    · have hn : c.stats.nextSlot.toNat ≠ c.packets2send.toNat :=
        fun heq => hfull (UInt64.toNat_inj.mp heq)
      rw [Within] at hle
      rw [if_neg hfull, Option.isSome_map, packetInfo_isSome,
        List.take_of_length_le (by rw [List.length_singleton]; omega), List.forall_mem_singleton]

/-! ## All messages -/

/-- The run is defined unless one of the messages that get a slot brings a timestamp to a device
without a frequency. -/
theorem receiveMessages_isSome (c : Channel) (hle : c.Within) (xs : List Message) :
    (c.receiveMessages xs).isSome ↔
      c.clockHz ≠ 0 ∨ ∀ x ∈ c.slotted xs, x.1.timestamp x.2 = none := by
  induction xs generalizing c with
  | nil =>
    apply iff_of_true rfl
    right
    intro x hx
    exact absurd (List.mem_of_mem_filter (List.mem_of_mem_take hx)) List.not_mem_nil
  | cons x xs ih =>
    constructor
    · intro h
      obtain ⟨out, hout⟩ := Option.isSome_iff_exists.mp h
      obtain ⟨mid, rest, hmid, hrest, -⟩ := (receiveMessages_cons c x xs out).mp hout
      have hrec := receive_receives c x mid hmid
      have hfirst := (receive_isSome c hle x).mp (Option.isSome_iff_exists.mpr ⟨mid, hmid⟩)
      have hlast := (ih mid.1 (hrec.within hle)).mp (Option.isSome_iff_exists.mpr ⟨rest, hrest⟩)
      rw [(hrec.counts hle).2.1] at hlast
      rw [hrec.slotted_cons hle, List.forall_mem_append, or_and_left]
      exact ⟨hfirst, hlast⟩
    · intro h
      have hfirst : (c.receive x.1 x.2).isSome := by
        apply (receive_isSome c hle x).mpr
        refine h.imp_right fun hnone y hy => hnone y ?_
        have hpart : c.slotted [x] <+: c.slotted (x :: xs) :=
          ((List.prefix_append [x] xs).filter isData).take _
        exact hpart.subset hy
      obtain ⟨mid, hmid⟩ := Option.isSome_iff_exists.mp hfirst
      have hrec := receive_receives c x mid hmid
      rw [hrec.slotted_cons hle, List.forall_mem_append, or_and_left] at h
      rw [← (hrec.counts hle).2.1] at h
      obtain ⟨rest, hrest⟩ := Option.isSome_iff_exists.mp ((ih mid.1 (hrec.within hle)).mpr h.2)
      exact Option.isSome_iff_exists.mpr
        ⟨_, (receiveMessages_cons c x xs _).mpr ⟨mid, rest, hmid, hrest, rfl⟩⟩

theorem receiveMessages_counts (c : Channel) (hle : c.Within) (xs : List Message)
    (out : Channel × List Effect) (h : c.receiveMessages xs = some out) :
    out.1.packets2send = c.packets2send ∧ out.1.clockHz = c.clockHz ∧
      out.1.stats.size = c.stats.size ∧ out.1.stats.txqN = c.stats.txqN ∧
      out.1.stats.nextSlot.toNat = min (c.stats.nextSlot.toNat + dataCount xs) c.packets2send.toNat := by
  induction xs generalizing c out with
  | nil =>
    obtain rfl := Option.some.inj h
    exact ⟨rfl, rfl, rfl, rfl, (Nat.min_eq_left hle).symm⟩
  | cons x xs ih =>
    obtain ⟨mid, rest, hmid, hrest, rfl⟩ := (receiveMessages_cons c x xs out).mp h
    have hrec := receive_receives c x mid hmid
    obtain ⟨hp, hz, hs, hq, hn⟩ := hrec.counts hle
    obtain ⟨hp', hz', hs', hq', hn'⟩ := ih mid.1 (hrec.within hle) rest hrest
    have hcount := dataCount_cons x xs
    refine ⟨hp'.trans hp, hz'.trans hz, hs'.trans hs, hq'.trans hq, ?_⟩
    rw [hn', hn, hp, hcount]
    omega

theorem Receives.stops {c : Channel} {x : Message} {out : Channel × Effect} (h : Receives c x out)
    (hle : c.Within) :
    out.2 = .stopJobs ↔ isData x = true ∧ c.packets2send.toNat ≤ c.stats.nextSlot.toNat := by
  have hfull : c.stats.requestedSlots = c.packets2send ↔
      c.packets2send.toNat ≤ c.stats.nextSlot.toNat := by
    rw [Statistics.requestedSlots, ← UInt64.toNat_inj]
    rw [Within] at hle
    omega
  rw [← hfull]
  cases h with
  | ignored hd => simp [hd]
  | warmup hd => simp [hd]
  | stopJobs hd hf => simp [hd, hf]
  | slot info hd hroom hinfo => simp [hd, hroom]

/-- The jobs are stopped at the messages that find all slots taken, and at no others. -/
theorem receiveMessages_stop (c : Channel) (hle : c.Within) (xs : List Message)
    (out : Channel × List Effect) (h : c.receiveMessages xs = some out) (j : ℕ) :
    out.2[j]? = some .stopJobs ↔ ∃ x, xs[j]? = some x ∧ isData x = true ∧
      c.packets2send.toNat ≤ c.stats.nextSlot.toNat + dataCount (xs.take j) := by
  induction xs generalizing c out j with
  | nil =>
    obtain rfl := Option.some.inj h
    simp
  | cons x xs ih =>
    obtain ⟨mid, rest, hmid, hrest, rfl⟩ := (receiveMessages_cons c x xs out).mp h
    have hrec := receive_receives c x mid hmid
    cases j with
    | zero =>
      have hx := hrec.stops hle
      simpa [dataCount] using hx
    | succ j =>
      obtain ⟨hp, _, _, _, hn⟩ := hrec.counts hle
      have htail := ih mid.1 (hrec.within hle) rest hrest j
      have hcount := dataCount_cons x (xs.take j)
      rw [List.getElem?_cons_succ, htail, List.getElem?_cons_succ, List.take_succ_cons, hcount,
        hp, hn]
      apply exists_congr
      intro y
      have harith : c.packets2send.toNat ≤ min (c.stats.nextSlot.toNat + dataCount [x])
          c.packets2send.toNat + dataCount (xs.take j) ↔ c.packets2send.toNat ≤
          c.stats.nextSlot.toNat + (dataCount [x] + dataCount (xs.take j)) := by omega
      rw [harith]

/-! ## Slots -/

theorem slotIx_of_lt (s : Statistics) (h : s.nextSlot.toNat < s.size.toNat) :
    s.slotIx = s.nextSlot := by
  rw [Statistics.slotIx, if_pos (UInt64.lt_iff_toNat_lt.mpr h)]

theorem slotIx_lt (s : Statistics) (h : 0 < s.size.toNat) : s.slotIx.toNat < s.size.toNat := by
  rw [Statistics.slotIx]
  split_ifs with hroom
  · exact UInt64.lt_iff_toNat_lt.mp hroom
  · rw [UInt64.toNat_sub_of_le s.size 1 (UInt64.le_iff_toNat_le.mpr h)]
    exact Nat.sub_lt h Nat.one_pos

theorem receiveMessages_slot_lt (c : Channel) (hle : c.Within) (hpos : 0 < c.stats.size.toNat)
    (xs : List Message) (out : Channel × List Effect) (h : c.receiveMessages xs = some out)
    (ix : UInt64) (hix : .slot ix ∈ out.2) : ix.toNat < c.stats.size.toNat := by
  induction xs generalizing c out with
  | nil =>
    obtain rfl := Option.some.inj h
    exact absurd hix List.not_mem_nil
  | cons x xs ih =>
    obtain ⟨mid, rest, hmid, hrest, rfl⟩ := (receiveMessages_cons c x xs out).mp h
    have hrec := receive_receives c x mid hmid
    obtain ⟨_, _, hs, _, _⟩ := hrec.counts hle
    obtain hhead | htail := List.mem_cons.mp hix
    · cases hrec with
      | ignored => cases hhead
      | warmup => cases hhead
      | stopJobs => cases hhead
      | slot info =>
        obtain rfl := Effect.slot.inj hhead
        exact slotIx_lt c.stats hpos
    · rw [← hs]
      exact ih mid.1 (hrec.within hle) (by rw [hs]; exact hpos) rest hrest htail

theorem slot_memory (s : Statistics) (h : s.nextSlot.toNat < s.size.toNat) (info : PacketInfo) :
    (s.slot info).memory = Function.update s.memory s.nextSlot.toNat info := by
  rw [Statistics.slot, slotIx_of_lt s h]

/-- Where the table has an entry for every packet, entry `k` belongs to message `k` alone: the
slots are taken one after the other, and what is written stays. -/
structure Recorded (c : Channel) (xs : List Message) (out : Channel × List Effect) : Prop where
  slots : (out.2.filterMap Effect.slot?).map UInt64.toNat =
    List.range' c.stats.nextSlot.toNat (c.slotted xs).length
  kept : ∀ k < c.stats.nextSlot.toNat, out.1.stats.memory k = c.stats.memory k
  written : ∀ (i : ℕ) (x : Message), (c.slotted xs)[i]? = some x →
    x.1.packetInfo c.clockHz x.2 = some (out.1.stats.memory (c.stats.nextSlot.toNat + i))

theorem receiveMessages_recorded (c : Channel) (hle : c.Within)
    (hsize : c.packets2send.toNat ≤ c.stats.size.toNat) (xs : List Message)
    (out : Channel × List Effect) (h : c.receiveMessages xs = some out) : Recorded c xs out := by
  induction xs generalizing c out with
  | nil =>
    obtain rfl := Option.some.inj h
    exact ⟨by simp [slotted], fun _ _ => rfl, by simp [slotted]⟩
  | cons x xs ih =>
    obtain ⟨mid, rest, hmid, hrest, rfl⟩ := (receiveMessages_cons c x xs out).mp h
    have hrec := receive_receives c x mid hmid
    obtain ⟨hp, hz, hs, _, _⟩ := hrec.counts hle
    have htail := ih mid.1 (hrec.within hle) (by rw [hp, hs]; exact hsize) rest hrest
    have hsplit := hrec.slotted_cons hle xs
    have hsame (hstats : mid.1.stats = c.stats) (hnone : mid.2.slot? = none)
        (hempty : c.slotted [x] = []) : Recorded c (x :: xs) (rest.1, mid.2 :: rest.2) := by
      obtain ⟨hslots, hkept, hwritten⟩ := htail
      rw [hstats] at hslots hkept hwritten
      rw [hz] at hwritten
      rw [hempty, List.nil_append] at hsplit
      refine ⟨?_, hkept, ?_⟩
      · rw [List.filterMap_cons_none hnone, hslots, hsplit]
      · rw [hsplit]
        exact hwritten
    have hother (hd : isData x = false) : c.slotted [x] = [] := by
      rw [slotted, List.filter_cons_of_neg (by rw [hd]; exact Bool.false_ne_true), List.filter_nil,
        List.take_nil]
    cases hrec with
    | ignored hd => exact hsame rfl rfl (hother hd)
    | warmup hd => exact hsame rfl rfl (hother hd)
    | stopJobs hd hfull =>
      apply hsame rfl rfl
      have hzero : c.packets2send.toNat - c.stats.nextSlot.toNat = 0 := by
        rw [← hfull]
        exact Nat.sub_self _
      rw [slotted, hzero, List.take_zero]
    | slot info hd hroom hinfo =>
      have hlt : c.stats.nextSlot.toNat < c.packets2send.toNat := by
        have hne : c.stats.nextSlot.toNat ≠ c.packets2send.toNat :=
          fun heq => hroom (UInt64.toNat_inj.mp heq)
        exact lt_of_le_of_ne hle hne
      have hone : c.slotted [x] = [x] := by
        rw [slotted, List.filter_cons_of_pos hd, List.filter_nil,
          List.take_of_length_le (by rw [List.length_singleton]; omega)]
      have hmem := slot_memory c.stats (by omega) info
      obtain ⟨hslots, hkept, hwritten⟩ := htail
      dsimp only at hslots hkept hwritten hsplit ⊢
      rw [slot_nextSlot c info hlt] at hslots hkept hwritten
      rw [hone, List.singleton_append] at hsplit
      refine ⟨?_, ?_, ?_⟩
      · rw [hsplit, List.length_cons, List.range'_succ, ← hslots, slotIx_of_lt c.stats (by omega)]
        rfl
      · intro k hk
        dsimp only
        rw [hkept k (by omega), hmem, Function.update_of_ne (by omega)]
      · intro i y hy
        rw [hsplit] at hy
        dsimp only
        cases i with
        | zero =>
          obtain rfl := Option.some.inj hy
          rw [Nat.add_zero, hkept _ (Nat.lt_succ_self _), hmem, Function.update_self, hinfo]
        | succ i =>
          rw [hwritten i y hy]
          congr 2
          omega

end Channel

/-! ## Channels as the program makes them -/

section Create
variable (packets2send ntx clockHz : UInt64) (detailed : Bool) (memory : ℕ → PacketInfo)

theorem create_packets2send (hp : packets2send.toNat * ntx.toNat ^ 2 < 2 ^ 64) :
    (Channel.create packets2send ntx clockHz detailed memory).packets2send.toNat =
      packets2send.toNat * ntx.toNat := by
  have hle : packets2send.toNat * ntx.toNat ≤ packets2send.toNat * ntx.toNat ^ 2 :=
    Nat.mul_le_mul_left _ (Nat.le_self_pow (by omega) _)
  change (packets2send * ntx).toNat = _
  rw [UInt64.toNat_mul, Nat.mod_eq_of_lt (by omega)]

theorem create_size (hn : ntx.toNat ≤ 255) (hpos : 0 < ntx.toNat)
    (hp : packets2send.toNat * ntx.toNat ^ 2 < 2 ^ 64) :
    (Channel.create packets2send ntx clockHz detailed memory).stats.size.toNat =
      if detailed = true ∧ packets2send.toNat * ntx.toNat ≠ 0 then
        packets2send.toNat * ntx.toNat * ntx.toNat
      else 2 * ntx.toNat := by
  have hsend : (packets2send * ntx).toNat = packets2send.toNat * ntx.toNat :=
    create_packets2send packets2send ntx clockHz detailed memory hp
  have hsquare : packets2send.toNat * ntx.toNat * ntx.toNat < 2 ^ 64 := by
    rw [Nat.mul_assoc, ← Nat.pow_two]
    exact hp
  have hq : ntx.toUInt8.toUInt64.toNat = ntx.toNat := by
    rw [UInt8.toNat_toUInt64, UInt64.toNat_toUInt8, Nat.mod_eq_of_lt (by omega)]
  have hzero : packets2send * ntx = 0 ↔ packets2send.toNat * ntx.toNat = 0 := by
    rw [← UInt64.toNat_inj, hsend]
    rfl
  change ((if detailed && packets2send * ntx != 0 then packets2send * ntx else 2) *
    ntx.toUInt8.toUInt64).toNat = _
  rw [UInt64.toNat_mul, hq]
  by_cases h : detailed = true ∧ packets2send.toNat * ntx.toNat ≠ 0
  · have hcond : (detailed && packets2send * ntx != 0) = true := by
      rw [Bool.and_eq_true, bne_iff_ne, ne_eq, hzero]
      exact h
    rw [if_pos h, if_pos hcond, hsend, Nat.mod_eq_of_lt hsquare]
  · have hcond : ¬ (detailed && packets2send * ntx != 0) = true := by
      rw [Bool.and_eq_true, bne_iff_ne, ne_eq, hzero]
      exact h
    have htwo : (2 : UInt64).toNat = 2 := rfl
    rw [if_neg h, if_neg hcond, htwo, Nat.mod_eq_of_lt (by omega)]

/-- What the channel promises of a run of `enqueue` calls. -/
structure Accounted (c : Channel) (detailed : Bool) (es : List EnqueueCall)
    (out : Channel × List EnqueueOutcome) : Prop where
  requested : out.1.stats.requestedSlots.toNat =
    min (Channel.dataCount (messages es)) c.packets2send.toNat
  stops : ∀ j : ℕ, (out.2.flatMap EnqueueOutcome.effects)[j]? = some .stopJobs ↔
    ∃ x, (messages es)[j]? = some x ∧ isData x = true ∧
      c.packets2send.toNat ≤ Channel.dataCount ((messages es).take j)
  slot_lt : ∀ ix : UInt64, .slot ix ∈ out.2.flatMap EnqueueOutcome.effects → ix < c.stats.size
  alone : detailed = true → c.packets2send ≠ 0 →
    ((out.2.flatMap EnqueueOutcome.effects).filterMap Effect.slot?).map UInt64.toNat =
        List.range (min (Channel.dataCount (messages es)) c.packets2send.toNat) ∧
      ∀ (k : ℕ) (x : Message), k < c.packets2send.toNat →
        ((messages es).filter isData)[k]? = some x →
        x.1.packetInfo c.clockHz x.2 = some (out.1.stats.memory k)
  freed : out.2.map EnqueueOutcome.freed = es.map EnqueueCall.buffers
  result : ∀ o ∈ out.2, o.result = 0

theorem accounted (hpos : 1 ≤ ntx.toNat) (hn : ntx.toNat ≤ 255)
    (hp : packets2send.toNat * ntx.toNat ^ 2 < 2 ^ 64) (es : List EnqueueCall)
    (out : Channel × List EnqueueOutcome)
    (hout : (Channel.create packets2send ntx clockHz detailed memory).enqueues es = some out) :
    Accounted (.create packets2send ntx clockHz detailed memory) detailed es out := by
  have hsend := create_packets2send packets2send ntx clockHz detailed memory hp
  have hsize := create_size packets2send ntx clockHz detailed memory hn hpos hp
  have hstart : (Channel.create packets2send ntx clockHz detailed memory).stats.nextSlot = 0 := rfl
  generalize hc : Channel.create packets2send ntx clockHz detailed memory = c at *
  have hnext : c.stats.nextSlot.toNat = 0 := by rw [hstart]; rfl
  have hle : c.Within := by rw [Channel.Within, hnext]; exact Nat.zero_le _
  have hsize0 : 0 < c.stats.size.toNat := by
    rw [hsize]
    split_ifs with hd
    · exact Nat.mul_pos (Nat.pos_of_ne_zero hd.2) hpos
    · omega
  obtain ⟨hrun, hfreed, hresult⟩ := c.enqueues_spec es out hout
  refine ⟨?_, ?_, ?_, ?_, hfreed, hresult⟩
  · have h := (c.receiveMessages_counts hle (messages es) _ hrun).2.2.2.2
    rw [hnext, Nat.zero_add] at h
    exact h
  · intro j
    have h := c.receiveMessages_stop hle (messages es) _ hrun j
    rw [hnext, Nat.zero_add] at h
    exact h
  · intro ix hix
    exact UInt64.lt_iff_toNat_lt.mpr
      (c.receiveMessages_slot_lt hle hsize0 (messages es) _ hrun ix hix)
  · intro hd hne
    have hne' : packets2send.toNat * ntx.toNat ≠ 0 := by
      rw [← hsend]
      exact fun h => hne (UInt64.toNat_inj.mp h)
    have hroom : c.packets2send.toNat ≤ c.stats.size.toNat := by
      rw [hsize, if_pos ⟨hd, hne'⟩, hsend]
      exact Nat.le_mul_of_pos_right _ hpos
    obtain ⟨hslots, -, hwritten⟩ := c.receiveMessages_recorded hle hroom (messages es) _ hrun
    rw [hnext] at hslots hwritten
    rw [c.slotted_length, hnext, Nat.sub_zero] at hslots
    rw [hslots, List.range_eq_range']
    refine ⟨rfl, ?_⟩
    intro k x hk hx
    have htaken : (c.slotted (messages es))[k]? = some x := by
      rw [Channel.slotted, hnext, Nat.sub_zero, List.getElem?_take_of_lt hk, hx]
    have h := hwritten k x htaken
    rw [Nat.zero_add] at h
    exact h

/-- The calls keep all of it exactly when none of the messages that get a slot brings a timestamp to
a device without a frequency. -/
theorem calls_accounted_iff (hpos : 1 ≤ ntx.toNat) (hn : ntx.toNat ≤ 255)
    (hp : packets2send.toNat * ntx.toNat ^ 2 < 2 ^ 64) (es : List EnqueueCall) :
    (∃ out, (Channel.create packets2send ntx clockHz detailed memory).enqueues es = some out ∧
      Accounted (.create packets2send ntx clockHz detailed memory) detailed es out) ↔
    clockHz ≠ 0 ∨ ∀ x ∈ ((messages es).filter isData).take (packets2send * ntx).toNat,
      x.1.timestamp x.2 = none := by
  have hdefined := (Channel.create packets2send ntx clockHz detailed memory).receiveMessages_isSome
    (Nat.zero_le _) (messages es)
  rw [← Channel.enqueues_isSome] at hdefined
  refine Iff.trans ?_ hdefined
  constructor
  · rintro ⟨out, hout, -⟩
    exact Option.isSome_iff_exists.mpr ⟨out, hout⟩
  · intro h
    obtain ⟨out, hout⟩ := Option.isSome_iff_exists.mp h
    exact ⟨out, hout, accounted packets2send ntx clockHz detailed memory hpos hn hp es out hout⟩

end Create

def samplePing (value : SeqnT) : Mbuf where
  data := setMessageType (setSeqn (fun _ => 0) 42 value) 42 .ping
  dataLen := 56
  l2Len := 14
  l3Len := 20
  l4Len := 8

def sampleEnqueue : EnqueueCall where
  enqueued := 100
  timestamp := fun _ => some 5
  heap := fun b => samplePing (UInt64.ofNat b)
  buffers := [2, 3]

/-- Two messages for a channel that wants one, on a device with a clock. -/
theorem calls_accounted_iff_two :
    ∃ out, (Channel.create 1 1 1000 true fun _ => ⟨0, 0, 0, 0⟩).enqueues [sampleEnqueue] =
      some out ∧ Accounted (.create 1 1 1000 true fun _ => ⟨0, 0, 0, 0⟩) true [sampleEnqueue] out :=
  (calls_accounted_iff 1 1 1000 true (fun _ => ⟨0, 0, 0, 0⟩) (by decide) (by decide) (by decide)
    [sampleEnqueue]).mpr (.inl (by decide))

/-- The second message stops the jobs. -/
example : ((Channel.create 1 1 1000 true fun _ => ⟨0, 0, 0, 0⟩).enqueues [sampleEnqueue]).map
    (fun out => out.2.flatMap EnqueueOutcome.effects) = some [.slot 0, .stopJobs] := by decide

end DpdkTools.Sockperf
