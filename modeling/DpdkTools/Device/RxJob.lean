import DpdkTools.Jobs
import DpdkTools.Lib.Slots
import DpdkTools.Device.RxPackets
import DpdkTools.Device.Sinks

/-! The receive job of a device, `device::rx_job::process` (`dpdkx/device.cpp`).

One call takes a burst from the NIC into the lower part of `buffers_`, sets `l2_len` of every
mbuf, and then walks over the burst. Consecutive UDP packets for one channel form a slice
(`channel`, `ready`) that is handed over at three places: before a packet for another channel,
after a packet that is not for a channel, and behind the loop. Only the first place looks at the
recycle count that the channel returns. Packets for no channel are copied behind the burst and
given to `process_rx_packets`.

`none` is a call without a defined result: an index or a slice outside its array, or a tag loop
that never ends. What the call does with mbufs is recorded as a list of actions. -/
namespace DpdkTools
set_option autoImplicit false

inductive Verdict where
  /-- ethertype 0: freed -/
  | broken
  /-- the UDP length test failed: freed -/
  | shortUdp
  /-- a UDP packet whose port has a channel: `continue` -/
  | deliver (ch : ChannelPtr)
  /-- everything else: copied behind the burst -/
  | other
  deriving Repr, DecidableEq

inductive RxAction where
  | free (b : MbufPtr)
  | enqueue (ch : ChannelPtr) (bs : List MbufPtr)
  | freeBulk (bs : List MbufPtr)
  deriving Repr, DecidableEq

/-- What one call meets: the tables and the published pointer, the answers of the channels, and
the environment of `process_rx_packets`. The slices of one call are disjoint, so any answers can
be given as a function of channel and slice. -/
structure RxCall where
  tables : TablePtr → Sinks
  published : TablePtr
  enqueue : ChannelPtr → List MbufPtr → ℕ
  env : RxEnv

structure RxJob where
  view : SinkView
  burstSize : ℕ
  buffers : Slots MbufPtr (2 * maxPktBurst)
  burst_le : burstSize ≤ 2 * maxPktBurst

/-- The constructor of `rx_job`: the burst is bounded by the size of the whole array. -/
def RxJob.create (published : TablePtr) (burtsSize reloadHint : ℕ)
    (buffers : Slots MbufPtr (2 * maxPktBurst)) : RxJob where
  view := ⟨0, 1001, reloadHint, published⟩
  burstSize := min burtsSize (2 * maxPktBurst)
  buffers := buffers
  burst_le := Nat.min_le_right _ _

def classify (c : RxCall) (v : SinkView) (m : Mbuf) : Option (SinkView × Verdict) :=
  if m.ethProto = 0 then some (v, .broken)
  else if m.ethProto = etherTypeIpv4 then
    if m.nextProtoId = ipprotoUdp then
      if m.udpTooShort then some (v, .shortUdp)
      else
        match v.findRxChannel c.tables c.published m.udpEndpoint with
        | none => none
        | some (v', some ch) => some (v', .deliver ch)
        | some (v', none) => some (v', .other)
    else some (v, .other)
  else some (v, .other)

/-! ## The loop -/

structure RxLoop where
  view : SinkView
  heap : MbufHeap
  buffers : Slots MbufPtr (2 * maxPktBurst)
  channel : Option ChannelPtr
  ready : ℕ
  postProcess : ℕ
  log : List RxAction

namespace RxLoop

def readySlice (s : RxLoop) (i : ℕ) : Option (List MbufPtr) :=
  if s.ready ≤ i then s.buffers.slice? (i - s.ready) s.ready else none

/-- Hand the slice over and look at the recycle count (in front of another channel's packet). -/
def flushRecycle (s : RxLoop) (c : RxCall) (i : ℕ) : Option RxLoop :=
  if s.ready ≠ 0 then
    match s.channel, s.readySlice i with
    | some ch, some bs =>
      if c.enqueue ch bs ≠ 0 then
        (s.buffers.slice? (i - s.ready) (c.enqueue ch bs)).map fun rs =>
          { s with log := s.log ++ [.enqueue ch bs, .freeBulk rs] }
      else some { s with log := s.log ++ [.enqueue ch bs] }
    | _, _ => none
  else some s

/-- Hand the slice over and drop the recycle count (after the `switch`, and behind the loop). -/
def flush (s : RxLoop) (i : ℕ) : Option RxLoop :=
  if s.ready ≠ 0 then
    match s.channel, s.readySlice i with
    | some ch, some bs => some { s with log := s.log ++ [.enqueue ch bs], channel := none, ready := 0 }
    | _, _ => none
  else some s

def act (s : RxLoop) (c : RxCall) (i : ℕ) (b : MbufPtr) : Verdict → Option RxLoop
  | .broken => flush { s with log := s.log ++ [.free b] } i
  | .shortUdp => flush { s with log := s.log ++ [.free b] } i
  | .deliver ch =>
    let s' := { s with heap := Function.update s.heap b (Mbuf.setUdpLens (s.heap b)) }
    if s.channel ≠ some ch then
      (s'.flushRecycle c i).map fun t => { t with channel := some ch, ready := 1 }
    else some { s' with ready := s.ready + 1 }
  | .other =>
    (s.buffers.write s.postProcess b).bind fun buffers =>
      flush { s with buffers := buffers, postProcess := s.postProcess + 1 } i

def step (s : RxLoop) (c : RxCall) (i : ℕ) : Option RxLoop :=
  match s.buffers.cells[i]? with
  | none => none
  | some b =>
    match classify c s.view (s.heap b) with
    | none => none
    | some (view, verdict) => act { s with view := view } c i b verdict

def loop (c : RxCall) : ℕ → ℕ → RxLoop → Option RxLoop
  | 0, _, s => some s
  | count + 1, i, s => (s.step c i).bind (loop c count (i + 1))

end RxLoop

/-! ## The whole call -/

/-- The outcome of a call, without the array `buffers_`: a later call reads no cell of it that it
has not written. -/
structure RxOutcome where
  view : SinkView
  actions : List RxAction
  heap : MbufHeap
  /-- The list given to `process_rx_packets`, and what became of it. -/
  given : List MbufPtr
  packets : RxPackets
  state : JobState

/-- `checkpoint_ += d`, a 16-bit counter. -/
def SinkView.advance (v : SinkView) (d : ℕ) : SinkView :=
  { v with checkpoint := (v.checkpoint + d) % 2 ^ 16 }

def RxLoop.finish (s : RxLoop) (c : RxCall) (arp : ArpTable) (burstSize n : ℕ) : Option RxOutcome :=
  match s.flush n with
  | none => none
  | some t =>
    if n ≠ t.postProcess then
      (t.buffers.slice? n (t.postProcess - n)).map fun given =>
        let packets := processRxPackets c.env t.heap arp given
        let view :=
          if n = t.postProcess - n ∧ t.postProcess - n ≠ burstSize then t.view.advance (2 * burstSize)
          else t.view
        { view := view.advance 1
          actions :=
            if packets.used ≠ 0 then t.log ++ [.freeBulk (packets.buffers.take packets.used)] else t.log
          heap := t.heap
          given := given
          packets := packets
          state := .idling }
    else some ⟨t.view.advance 1, t.log, t.heap, [], ⟨t.heap, arp, [], 0, []⟩, .idling⟩

def RxJob.process (j : RxJob) (c : RxCall) (heap : MbufHeap) (arp : ArpTable) (burst : List MbufPtr) :
    Option RxOutcome :=
  let view := (j.view.tryReloadSinks c.published).1
  if burst = [] then
    some ⟨(view.advance (2 * j.burstSize)).advance 1, [], heap, [], ⟨heap, arp, [], 0, []⟩, .idling⟩
  else if h : burst.length ≤ j.burstSize then
    match updateL2sizes heap burst with
    | none => none
    | some heap' =>
      match RxLoop.loop c burst.length 0
          ⟨view, heap', j.buffers.store 0 burst (by have := j.burst_le; omega), none, 0, burst.length, []⟩ with
      | none => none
      | some s => s.finish c arp j.burstSize burst.length
  else none

/-! ## What a call has done -/

/-- A verdict is reached without a look at the table, or by the lookup of a UDP packet that is long
enough. -/
theorem classify_cases (c : RxCall) (v v' : SinkView) (m : Mbuf) (k : Verdict)
    (h : classify c v m = some (v', k)) :
    (v' = v ∧ ∀ ch, k ≠ .deliver ch) ∨
      ∃ ch : Option ChannelPtr, m.ethProto = etherTypeIpv4 ∧ m.nextProtoId = ipprotoUdp ∧
        m.udpTooShort = false ∧
        v.findRxChannel c.tables c.published m.udpEndpoint = some (v', ch) ∧
        k = ch.elim .other .deliver := by
  unfold classify at h
  split_ifs at h with h0 h4 hudp hshort
  · obtain ⟨rfl, rfl⟩ := Prod.mk.inj (Option.some.inj h)
    exact Or.inl ⟨rfl, fun ch => by simp⟩
  · obtain ⟨rfl, rfl⟩ := Prod.mk.inj (Option.some.inj h)
    exact Or.inl ⟨rfl, fun ch => by simp⟩
  · right
    cases hfind : v.findRxChannel c.tables c.published m.udpEndpoint with
    | none => simp [hfind] at h
    | some found =>
      obtain ⟨v₁, ch⟩ := found
      cases ch with
      | none =>
        obtain ⟨rfl, rfl⟩ : v₁ = v' ∧ Verdict.other = k := by simpa [hfind] using h
        exact ⟨none, h4, hudp, Bool.eq_false_iff.mpr hshort, rfl, rfl⟩
      | some ch =>
        obtain ⟨rfl, rfl⟩ : v₁ = v' ∧ Verdict.deliver ch = k := by simpa [hfind] using h
        exact ⟨some ch, h4, hudp, Bool.eq_false_iff.mpr hshort, rfl, rfl⟩
  · obtain ⟨rfl, rfl⟩ := Prod.mk.inj (Option.some.inj h)
    exact Or.inl ⟨rfl, fun ch => by simp⟩
  · obtain ⟨rfl, rfl⟩ := Prod.mk.inj (Option.some.inj h)
    exact Or.inl ⟨rfl, fun ch => by simp⟩

/-- The end of a call: behind the last hand-over nothing was deferred, or `process_rx_packets` got
what was. -/
theorem RxLoop.finish_cases (s : RxLoop) (c : RxCall) (arp : ArpTable) (burstSize n : ℕ)
    (o : RxOutcome) (h : s.finish c arp burstSize n = some o) :
    ∃ t : RxLoop, s.flush n = some t ∧ o.heap = t.heap ∧
      o.packets = processRxPackets c.env t.heap arp o.given ∧
      o.actions = (if o.packets.used ≠ 0 then
        t.log ++ [.freeBulk (o.packets.buffers.take o.packets.used)] else t.log) ∧
      (o.view = t.view.advance 1 ∨ o.view = (t.view.advance (2 * burstSize)).advance 1) := by
  unfold RxLoop.finish at h
  cases hflush : s.flush n with
  | none => simp [hflush] at h
  | some t =>
    refine ⟨t, rfl, ?_⟩
    simp only [hflush] at h
    by_cases hpost : n ≠ t.postProcess
    · rw [if_pos hpost] at h
      obtain ⟨given, _, rfl⟩ := Option.map_eq_some_iff.mp h
      refine ⟨rfl, rfl, rfl, ?_⟩
      dsimp only
      split_ifs
      · exact Or.inr rfl
      · exact Or.inl rfl
    · rw [if_neg hpost] at h
      obtain rfl := Option.some.inj h
      exact ⟨rfl, rfl, rfl, Or.inl rfl⟩

/-- A call that returns found nothing, or measured the burst, walked over it and came to its end. -/
theorem RxJob.process_cases (j : RxJob) (c : RxCall) (heap : MbufHeap) (arp : ArpTable)
    (burst : List MbufPtr) (o : RxOutcome) (h : j.process c heap arp burst = some o) :
    (burst = [] ∧
      o = ⟨((j.view.tryReloadSinks c.published).1.advance (2 * j.burstSize)).advance 1, [], heap, [],
        ⟨heap, arp, [], 0, []⟩, .idling⟩) ∨
    (burst ≠ [] ∧ burst.length ≤ j.burstSize ∧
      ∃ (hroom : 0 + burst.length ≤ 2 * maxPktBurst) (heap' : MbufHeap) (s : RxLoop),
        updateL2sizes heap burst = some heap' ∧
        RxLoop.loop c burst.length 0 ⟨(j.view.tryReloadSinks c.published).1, heap',
          j.buffers.store 0 burst hroom, none, 0, burst.length, []⟩ = some s ∧
        s.finish c arp j.burstSize burst.length = some o) := by
  unfold RxJob.process at h
  dsimp only at h
  by_cases hempty : burst = []
  · rw [if_pos hempty] at h
    exact Or.inl ⟨hempty, (Option.some.inj h).symm⟩
  · rw [if_neg hempty] at h
    by_cases hle : burst.length ≤ j.burstSize
    · rw [dif_pos hle] at h
      cases hl2 : updateL2sizes heap burst with
      | none => simp [hl2] at h
      | some heap' =>
        have hroom : 0 + burst.length ≤ 2 * maxPktBurst := by
          have := j.burst_le
          omega
        simp only [hl2] at h
        cases hloop : RxLoop.loop c burst.length 0 ⟨(j.view.tryReloadSinks c.published).1, heap',
            j.buffers.store 0 burst hroom, none, 0, burst.length, []⟩ with
        | none => simp [hloop] at h
        | some s =>
          simp only [hloop] at h
          exact Or.inr ⟨hempty, hle, hroom, heap', s, rfl, hloop, h⟩
    · rw [dif_neg hle] at h
      exact absurd h (by simp)

end DpdkTools
