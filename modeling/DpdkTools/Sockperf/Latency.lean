import DpdkTools.Lib.Runs
import DpdkTools.Sockperf.Channel

/-! The latency test: `tx_job::warmup` followed by `latency_test_job::process`
(`sockperf_cli/utils.cpp`).

The sender sends packets and looks at the last warm-up message of the channel; in between, echoes
reach the channel in any order, late, or not at all. Both loops number their packets from 1 and
mark them with `sockperf::x::warmup`, so that packet 1 of the test carries the number of packet 1
of the warm-up. The model remembers for each echo which packet it answers. -/
namespace DpdkTools.Sockperf
set_option autoImplicit false

/-- A packet of one of the two loops, by the counter it was prepared from. -/
inductive Origin where
  | warmup (seqn : SeqnT)
  | test (seqn : SeqnT)
  deriving Repr, DecidableEq

/-- The number that the packet, and its echo, carries. -/
def Origin.number : Origin → SeqnT
  | .warmup seqn => Sockperf.warmup seqn
  | .test seqn => Sockperf.warmup seqn

inductive WarmupError where
  | ownerDead
  | timedOut
  deriving Repr, DecidableEq

/-- Where the sender stands. The first two are the loops of `warmup`, with the number of a packet
that still waits for room in the ring; the next two the outer and the inner loop of `process`. -/
inductive Phase where
  | warming (i : ℕ) (seqn : SeqnT) (buffer : Option SeqnT)
  | settling (seqn : SeqnT)
  | sending (seqn : SeqnT)
  | waiting (seqn : SeqnT) (sentAt : UInt64) (i : ℕ)
  | ended
  | failed (error : WarmupError)
  deriving Repr, DecidableEq

/-- `dpdkx::retry`, in milliseconds: how long to wait at a time, and how often. -/
def retry (timeout : ℕ) : ℕ × ℕ :=
  if timeout ≤ 100 then (timeout, 1) else (100, (timeout + 100 - 1) / 100)

structure LatencyConfig where
  packets2send : UInt64
  useDevClock : Bool
  clockHz : UInt64
  /-- A clock that is enabled has a frequency, as the constructor of the device sees to it. -/
  clock_runs : useDevClock = true → clockHz ≠ 0

def LatencyConfig.receivedAt (cfg : LatencyConfig) (msg : MessageInfo) : UInt64 :=
  if cfg.useDevClock then mulDiv msg.receivedTs nsPerS cfg.clockHz else msg.enqueuedTs

/-- The time of arrival on the clock of the device is that of `timestamp_fix`. -/
theorem LatencyConfig.receivedAt_eq (cfg : LatencyConfig) (h : cfg.useDevClock = true)
    (msg : MessageInfo) : timestampFix cfg.clockHz msg.receivedTs = some (cfg.receivedAt msg) := by
  rw [timestampFix, if_neg (cfg.clock_runs h), receivedAt, if_pos h]

/-- An entry of `latencies_us`, in nanoseconds, with the packet whose echo it was computed from. -/
structure Sample where
  seqn : SeqnT
  latency : UInt64
  origin : Option Origin
  deriving Repr, DecidableEq

/-- `sent` has every packet sent, `inFlight` those whose echo may still arrive, and `last` is the
packet whose echo is the last warm-up message of the channel. -/
structure LatencyState where
  phase : Phase
  suspended : Bool
  channel : Channel
  sent : List Origin
  inFlight : List Origin
  last : Option Origin
  samples : List Sample

def LatencyState.start (channel : Channel) : LatencyState where
  phase := .warming 0 0 none
  suspended := false
  channel := { channel with lastWarmupMessage := none }
  sent := []
  inFlight := []
  last := none
  samples := []

inductive LatencyEvent where
  /-- a round of the first loop of `warmup`: the answers of the pool and the ring, whether a job is
  left, and whether the time is up -/
  | spin (allocated enqueued alive timedOut : Bool)
  /-- a round of its second loop -/
  | settle (timedOut : Bool)
  /-- a round of the outer loop of `process`: the answers of the pool and the NIC, and the clock -/
  | send (allocated accepted : Bool) (sentAt : UInt64)
  /-- a round of its inner loop -/
  | poll
  | arrive (o : Origin) (x : Message)
  | lose (o : Origin)
  | suspend

/-- The message is an echo of the packet `o`. -/
def Echoes (x : Message) (o : Origin) : Prop :=
  msgHeaderSize (x.1.heap x.2) + headerSize ≤ (x.1.heap x.2).dataLen ∧
    (messageType (x.1.heap x.2).data (msgHeaderSize (x.1.heap x.2)) = .ping ∨
      messageType (x.1.heap x.2).data (msgHeaderSize (x.1.heap x.2)) = .pong) ∧
    seqn (x.1.heap x.2).data (msgHeaderSize (x.1.heap x.2)) = o.number

instance (x : Message) (o : Origin) : Decidable (Echoes x o) :=
  inferInstanceAs (Decidable (_ ∧ _ ∧ _))

/-- An echo of either loop replaces the last message of the channel. -/
theorem receive_echo (c : Channel) (x : Message) (o : Origin) (h : Echoes x o) :
    c.receive x.1 x.2 =
      some ({ c with lastWarmupMessage := some (x.1.messageInfo x.2) }, .warmup) := by
  obtain ⟨hlen, htype, hnum⟩ := h
  have hw : isWarmup o.number = true := by
    cases o with
    | warmup seqn => exact isWarmup_warmup seqn
    | test seqn => exact isWarmup_warmup seqn
  rw [Channel.receive, if_pos hlen]
  dsimp only
  rw [if_pos htype, hnum, hw, if_pos rfl]

/-! ## The steps -/

namespace LatencyState

/-- Every sixteenth round prepares a packet unless one is left over. -/
def nextBuffer (i : ℕ) (seqn : SeqnT) (buffer : Option SeqnT) (allocated : Bool) :
    SeqnT × Option SeqnT :=
  if i % 16 = 0 ∧ buffer = none ∧ allocated then (seqn + 1, some (seqn + 1)) else (seqn, buffer)

def transmit (s : LatencyState) (os : List Origin) : LatencyState :=
  { s with sent := s.sent ++ os, inFlight := s.inFlight ++ os }

def spin (s : LatencyState) (i : ℕ) (seqn : SeqnT) (buffer : Option SeqnT)
    (allocated enqueued alive timedOut : Bool) : LatencyState :=
  if (s.channel.lastWarmupMessage = none ∨ seqn < 16) ∧ s.suspended = false then
    let (seqn', buffer') := nextBuffer i seqn buffer allocated
    let taken := if i % 16 = 0 ∧ enqueued then buffer' else none
    let left := if i % 16 = 0 ∧ enqueued then none else buffer'
    { s.transmit (taken.toList.map .warmup) with
      phase :=
        if alive = false then .failed .ownerDead
        else if timedOut then .failed .timedOut
        else .warming (i + 1) seqn' left }
  else { s with phase := .settling seqn }

/-- `none` is the access through the empty pointer of a channel without message. -/
def settle (s : LatencyState) (seqn : SeqnT) (timedOut : Bool) : Option LatencyState :=
  if s.suspended then some { s with phase := .sending 1 }
  else
    match s.channel.lastWarmupMessage with
    | none => none
    | some msg =>
      if msg.seqn ≠ warmup seqn ∧ timedOut = false then some s
      else some { s with phase := .sending 1 }

def send (s : LatencyState) (cfg : LatencyConfig) (seqn : SeqnT) (allocated accepted : Bool)
    (sentAt : UInt64) : LatencyState :=
  if seqn < cfg.packets2send + 1 ∧ s.suspended = false then
    if allocated ∧ accepted then
      { s.transmit [.test seqn] with phase := .waiting seqn sentAt (retry 500).2 }
    else s
  else { s with phase := .ended }

def poll (s : LatencyState) (cfg : LatencyConfig) (seqn : SeqnT) (sentAt : UInt64) (i : ℕ) :
    LatencyState :=
  if s.suspended then { s with phase := .sending (seqn + 1) }
  else
    match s.channel.lastWarmupMessage with
    | some msg =>
      if msg.seqn = warmup seqn then
        { s with
          samples := s.samples ++ [⟨seqn, cfg.receivedAt msg - sentAt, s.last⟩]
          phase := .sending (seqn + 1) }
      else if i = 0 then { s with phase := .sending (seqn + 1) }
      else { s with phase := .waiting seqn sentAt (i - 1) }
    | none =>
      if i = 0 then { s with phase := .sending (seqn + 1) }
      else { s with phase := .waiting seqn sentAt (i - 1) }

def arrive (s : LatencyState) (o : Origin) (x : Message) : Option LatencyState :=
  (s.channel.receive x.1 x.2).map fun r =>
    { s with channel := r.1, inFlight := s.inFlight.erase o, last := some o }

/-- The state in which the message of the channel is the echo of `o`. -/
def heard (s : LatencyState) (o : Origin) (x : Message) : LatencyState :=
  { s with
    channel := { s.channel with lastWarmupMessage := some (x.1.messageInfo x.2) }
    inFlight := s.inFlight.erase o
    last := some o }

theorem arrive_echo (s : LatencyState) (o : Origin) (x : Message) (hx : Echoes x o) :
    s.arrive o x = some (s.heard o x) := by
  rw [arrive, receive_echo s.channel x o hx]
  rfl

def step (cfg : LatencyConfig) (s : LatencyState) (e : LatencyEvent) : Option LatencyState :=
  match e, s.phase with
  | .spin allocated enqueued alive timedOut, .warming i seqn buffer =>
    some (s.spin i seqn buffer allocated enqueued alive timedOut)
  | .settle timedOut, .settling seqn => s.settle seqn timedOut
  | .send allocated accepted sentAt, .sending seqn =>
    some (s.send cfg seqn allocated accepted sentAt)
  | .poll, .waiting seqn sentAt i => some (s.poll cfg seqn sentAt i)
  | .arrive o x, _ => if o ∈ s.inFlight ∧ Echoes x o then s.arrive o x else none
  | .lose o, _ => if o ∈ s.inFlight then some { s with inFlight := s.inFlight.erase o } else none
  | .suspend, _ => some { s with suspended := true }
  | _, _ => none

/-! ## What a step can do -/

/-- A step into the inner loop is one inside of it. -/
def StaysWaiting (p p' : Phase) : Prop :=
  ∀ seqn sentAt i, p' = .waiting seqn sentAt i → ∃ i', p = .waiting seqn sentAt i'

inductive Moves (cfg : LatencyConfig) (s : LatencyState) : LatencyEvent → LatencyState → Prop where
  /-- the sender goes on, or the jobs are suspended -/
  | goesOn (e : LatencyEvent) (phase : Phase) (suspended : Bool) (h : StaysWaiting s.phase phase) :
      Moves cfg s e { s with phase := phase, suspended := suspended }
  | warms (e : LatencyEvent) (os : List Origin) (phase : Phase) (h : StaysWaiting s.phase phase) :
      Moves cfg s e { s.transmit os with phase := phase }
  | tests (seqn : SeqnT) (allocated accepted : Bool) (sentAt : UInt64) (i : ℕ)
      (h : s.phase = .sending seqn) :
      Moves cfg s (.send allocated accepted sentAt)
        { s.transmit [.test seqn] with phase := .waiting seqn sentAt i }
  | samples (seqn : SeqnT) (sentAt : UInt64) (i : ℕ) (msg : MessageInfo)
      (h : s.phase = .waiting seqn sentAt i) (hmsg : s.channel.lastWarmupMessage = some msg)
      (heq : msg.seqn = warmup seqn) :
      Moves cfg s .poll
        { s with
          samples := s.samples ++ [⟨seqn, cfg.receivedAt msg - sentAt, s.last⟩]
          phase := .sending (seqn + 1) }
  | arrives (o : Origin) (x : Message) (ho : o ∈ s.inFlight) (hx : Echoes x o) :
      Moves cfg s (.arrive o x) (s.heard o x)
  | loses (o : Origin) : Moves cfg s (.lose o) { s with inFlight := s.inFlight.erase o }

theorem stays_self (p : Phase) : StaysWaiting p p := fun _ _ i h => ⟨i, h⟩

theorem stays_sending (p : Phase) (seqn : SeqnT) : StaysWaiting p (.sending seqn) := by
  intro _ _ _ h
  exact Phase.noConfusion h

theorem spin_moves (cfg : LatencyConfig) (s : LatencyState) (i : ℕ) (seqn : SeqnT)
    (buffer : Option SeqnT) (allocated enqueued alive timedOut : Bool) (e : LatencyEvent) :
    Moves cfg s e (s.spin i seqn buffer allocated enqueued alive timedOut) := by
  by_cases hgo : (s.channel.lastWarmupMessage = none ∨ seqn < 16) ∧ s.suspended = false
  · rw [spin, if_pos hgo]
    apply Moves.warms
    intro _ _ _ h
    split_ifs at h
  · rw [spin, if_neg hgo]
    apply Moves.goesOn e _ s.suspended
    intro _ _ _ h
    exact Phase.noConfusion h

theorem settle_moves (cfg : LatencyConfig) (s s' : LatencyState) (seqn : SeqnT) (timedOut : Bool)
    (e : LatencyEvent) (h : s.settle seqn timedOut = some s') : Moves cfg s e s' := by
  unfold settle at h
  split_ifs at h with hsus
  · obtain rfl := Option.some.inj h
    exact Moves.goesOn e _ s.suspended (stays_sending s.phase 1)
  · cases hm : s.channel.lastWarmupMessage with
    | none => simp [hm] at h
    | some msg =>
      simp only [hm] at h
      split_ifs at h
      · obtain rfl := Option.some.inj h
        exact Moves.goesOn e s.phase s.suspended (stays_self s.phase)
      · obtain rfl := Option.some.inj h
        exact Moves.goesOn e _ s.suspended (stays_sending s.phase 1)

theorem send_moves (cfg : LatencyConfig) (s : LatencyState) (seqn : SeqnT)
    (allocated accepted : Bool) (sentAt : UInt64) (h : s.phase = .sending seqn) :
    Moves cfg s (.send allocated accepted sentAt) (s.send cfg seqn allocated accepted sentAt) := by
  unfold send
  split_ifs
  · exact Moves.tests seqn allocated accepted sentAt _ h
  · exact Moves.goesOn _ s.phase s.suspended (stays_self s.phase)
  · apply Moves.goesOn _ _ s.suspended
    intro _ _ _ h
    exact Phase.noConfusion h

theorem poll_moves (cfg : LatencyConfig) (s : LatencyState) (seqn : SeqnT) (sentAt : UInt64) (i : ℕ)
    (h : s.phase = .waiting seqn sentAt i) : Moves cfg s .poll (s.poll cfg seqn sentAt i) := by
  have hgive : Moves cfg s .poll { s with phase := .sending (seqn + 1) } :=
    Moves.goesOn _ _ s.suspended (stays_sending s.phase _)
  have hagain : Moves cfg s .poll { s with phase := .waiting seqn sentAt (i - 1) } := by
    apply Moves.goesOn _ _ s.suspended
    intro _ _ _ heq
    obtain ⟨rfl, rfl, _⟩ := Phase.waiting.inj heq
    exact ⟨i, h⟩
  have hmiss : Moves cfg s .poll
      (if i = 0 then { s with phase := .sending (seqn + 1) }
      else { s with phase := .waiting seqn sentAt (i - 1) }) := by
    split_ifs
    · exact hgive
    · exact hagain
  by_cases hsus : s.suspended = true
  · rw [poll, if_pos hsus]
    exact hgive
  · rw [poll, if_neg hsus]
    cases hm : s.channel.lastWarmupMessage with
    | none => exact hmiss
    | some msg =>
      by_cases heq : msg.seqn = warmup seqn
      · simp only [heq, if_true]
        exact Moves.samples seqn sentAt i msg h hm heq
      · simp only [heq, if_false]
        exact hmiss

theorem step_moves (cfg : LatencyConfig) (s s' : LatencyState) (e : LatencyEvent)
    (h : step cfg s e = some s') : Moves cfg s e s' := by
  unfold step at h
  split at h
  · obtain rfl := Option.some.inj h
    exact spin_moves cfg s _ _ _ _ _ _ _ _
  · exact settle_moves cfg s s' _ _ _ h
  · next hphase =>
    obtain rfl := Option.some.inj h
    exact send_moves cfg s _ _ _ _ hphase
  · next hphase =>
    obtain rfl := Option.some.inj h
    exact poll_moves cfg s _ _ _ hphase
  · split_ifs at h with harr
    rw [arrive_echo s _ _ harr.2] at h
    obtain rfl := Option.some.inj h
    exact Moves.arrives _ _ harr.1 harr.2
  · split_ifs at h with hlose
    obtain rfl := Option.some.inj h
    exact Moves.loses _
  · obtain rfl := Option.some.inj h
    exact Moves.goesOn _ s.phase true (stays_self s.phase)
  · exact absurd h (by simp)

end LatencyState

/-! ## Whose echo the channel holds -/

/-- What holds in every run: a sample stems from a packet with the right number. -/
structure Numbered (s : LatencyState) : Prop where
  channel_last : s.channel.lastWarmupMessage.map MessageInfo.seqn = s.last.map Origin.number
  flight_sent : ∀ o ∈ s.inFlight, o ∈ s.sent
  last_sent : ∀ o, s.last = some o → o ∈ s.sent
  samples_sent : ∀ x ∈ s.samples, ∃ o ∈ s.sent, x.origin = some o ∧ o.number = warmup x.seqn

namespace Numbered

theorem start (channel : Channel) : Numbered (.start channel) where
  channel_last := rfl
  flight_sent := fun _ h => absurd h List.not_mem_nil
  last_sent := fun _ h => absurd h (by simp [LatencyState.start])
  samples_sent := fun _ h => absurd h List.not_mem_nil

theorem transmit {s : LatencyState} (h : Numbered s) (os : List Origin) (phase : Phase) :
    Numbered { s.transmit os with phase := phase } where
  channel_last := h.channel_last
  flight_sent := by
    intro o ho
    obtain ho | ho := List.mem_append.mp ho
    · exact List.mem_append_left os (h.flight_sent o ho)
    · exact List.mem_append_right s.sent ho
  last_sent := fun o ho => List.mem_append_left os (h.last_sent o ho)
  samples_sent := by
    intro x hx
    obtain ⟨o, ho, horigin⟩ := h.samples_sent x hx
    exact ⟨o, List.mem_append_left os ho, horigin⟩

/-- The message that a poll finds is the echo of the packet in `last`. -/
theorem found {s : LatencyState} (h : Numbered s) (msg : MessageInfo)
    (hmsg : s.channel.lastWarmupMessage = some msg) : ∃ o, s.last = some o ∧ o.number = msg.seqn := by
  have hlast := h.channel_last
  rw [hmsg, Option.map_some] at hlast
  exact Option.map_eq_some_iff.mp hlast.symm

theorem step {cfg : LatencyConfig} {s s' : LatencyState} {e : LatencyEvent} (h : Numbered s)
    (hm : LatencyState.Moves cfg s e s') : Numbered s' := by
  cases hm with
  | goesOn _ phase suspended _ => exact ⟨h.channel_last, h.flight_sent, h.last_sent, h.samples_sent⟩
  | warms _ os phase _ => exact h.transmit os phase
  | tests seqn _ _ sentAt i _ => exact h.transmit [.test seqn] _
  | samples seqn sentAt i msg _ hmsg heq =>
    refine ⟨h.channel_last, h.flight_sent, h.last_sent, ?_⟩
    intro x hx
    obtain hx | hx := List.mem_append.mp hx
    · exact h.samples_sent x hx
    · obtain rfl := List.mem_singleton.mp hx
      obtain ⟨o, ho, hnum⟩ := h.found msg hmsg
      exact ⟨o, h.last_sent o ho, ho, hnum.trans heq⟩
  | arrives o x ho hx =>
    refine ⟨?_, ?_, ?_, h.samples_sent⟩
    · rw [LatencyState.heard, Option.map_some, Option.map_some, ← hx.2.2]
      rfl
    · exact fun o' ho' => h.flight_sent o' (List.mem_of_mem_erase ho')
    · intro o' ho'
      obtain rfl := Option.some.inj ho'
      exact h.flight_sent o ho
  | loses o =>
    exact ⟨h.channel_last, fun o' ho' => h.flight_sent o' (List.mem_of_mem_erase ho'), h.last_sent,
      h.samples_sent⟩

end Numbered

/-! ## Samples of the packet's own echo -/

/-- Every latency is computed from the echo of its own packet. -/
def OwnEchoes (s : LatencyState) : Prop := ∀ x ∈ s.samples, x.origin = some (.test x.seqn)

/-- Before a packet of the test is sent, its number is not that of the last message; and while its
echo is awaited, no echo of another packet with that number arrives. -/
def undisturbed (s : LatencyState) : LatencyEvent → Bool
  | .send _ _ _ =>
    match s.phase with
    | .sending seqn => s.channel.lastWarmupMessage.map MessageInfo.seqn != some (warmup seqn)
    | _ => true
  | .arrive o _ =>
    match s.phase with
    | .waiting seqn _ _ => o.number != warmup seqn || o == .test seqn
    | _ => true
  | _ => true

structure Attributes (s : LatencyState) : Prop where
  numbered : Numbered s
  own : OwnEchoes s
  awaited : ∀ seqn sentAt i, s.phase = .waiting seqn sentAt i →
    ∀ o, s.last = some o → o.number = warmup seqn → o = .test seqn

theorem Attributes.stays {s s' : LatencyState} (h : Attributes s) (hn : Numbered s')
    (hsamples : s'.samples = s.samples) (hlast : s'.last = s.last)
    (hphase : LatencyState.StaysWaiting s.phase s'.phase) : Attributes s' := by
  refine ⟨hn, ?_, ?_⟩
  · rw [OwnEchoes, hsamples]
    exact h.own
  · intro seqn sentAt i hp
    obtain ⟨i', hp'⟩ := hphase seqn sentAt i hp
    rw [hlast]
    exact h.awaited seqn sentAt i' hp'

theorem Attributes.step {cfg : LatencyConfig} {s s' : LatencyState} {e : LatencyEvent}
    (h : Attributes s) (hc : undisturbed s e = true) (hm : LatencyState.Moves cfg s e s') :
    Attributes s' := by
  have hn : Numbered s' := h.numbered.step hm
  cases hm with
  | goesOn _ phase suspended hstay => exact h.stays hn rfl rfl hstay
  | warms _ os phase hstay => exact h.stays hn rfl rfl hstay
  | tests seqn _ _ sentAt i hphase =>
    refine ⟨hn, h.own, ?_⟩
    intro seqn' sentAt' i' hp o ho hnum
    obtain ⟨rfl, _, _⟩ := Phase.waiting.inj hp
    have ho' : s.last = some o := ho
    rw [undisturbed, hphase, bne_iff_ne, h.numbered.channel_last, ho', Option.map_some] at hc
    exact absurd (congrArg some hnum) hc
  | samples seqn sentAt i msg hphase hmsg heq =>
    refine ⟨hn, ?_, ?_⟩
    · intro x hx
      obtain hx | hx := List.mem_append.mp hx
      · exact h.own x hx
      · obtain rfl := List.mem_singleton.mp hx
        obtain ⟨o, ho, hnum⟩ := h.numbered.found msg hmsg
        obtain rfl := h.awaited seqn sentAt i hphase o ho (hnum.trans heq)
        exact ho
    · intro _ _ _ hp
      exact Phase.noConfusion hp
  | arrives o x ho hx =>
    refine ⟨hn, h.own, ?_⟩
    intro seqn sentAt i hp o' ho' hnum
    obtain rfl := Option.some.inj ho'
    have hp' : s.phase = .waiting seqn sentAt i := hp
    rw [undisturbed, hp', Bool.or_eq_true, bne_iff_ne, beq_iff_eq] at hc
    exact hc.resolve_left (not_not.mpr hnum)
  | loses o => exact h.stays hn rfl rfl (LatencyState.stays_self s.phase)

/-- In any run, a latency can be wrong only for a number that another packet carried as well. -/
theorem run_own_of_unique (cfg : LatencyConfig) (channel : Channel) (es : List LatencyEvent)
    (tr : List (Runs.Transition LatencyState LatencyEvent))
    (htr : Runs.trace (LatencyState.step cfg) (.start channel) es = some tr)
    (t : Runs.Transition LatencyState LatencyEvent) (ht : t ∈ tr) (x : Sample)
    (hx : x ∈ t.post.samples)
    (hunique : ∀ o ∈ t.post.sent, o.number = warmup x.seqn → o = .test x.seqn) :
    x.origin = some (.test x.seqn) := by
  have hrun := Runs.trace_invariant Numbered (fun _ _ => True)
    (fun s e s' h _ hs => h.step (LatencyState.step_moves cfg s s' e hs))
    (.start channel) es tr htr (.start channel) (fun _ _ => trivial)
  obtain ⟨o, ho, horigin, hnum⟩ := (hrun.2 t ht).2.samples_sent x hx
  rw [horigin, hunique o ho hnum]

/-- In a run whose packets are undisturbed, every latency is that of its own packet. -/
theorem run_ownEchoes (cfg : LatencyConfig) (channel : Channel) (es : List LatencyEvent)
    (tr : List (Runs.Transition LatencyState LatencyEvent))
    (htr : Runs.trace (LatencyState.step cfg) (.start channel) es = some tr)
    (hc : ∀ t ∈ tr, undisturbed t.pre t.event = true) : ∀ t ∈ tr, OwnEchoes t.post := by
  have hstart : Attributes (.start channel) :=
    ⟨.start channel, fun _ h => absurd h List.not_mem_nil, fun _ _ _ h => Phase.noConfusion h⟩
  have hrun := Runs.trace_invariant Attributes (undisturbed · · = true)
    (fun s e s' h hc hs => h.step hc (LatencyState.step_moves cfg s s' e hs))
    (.start channel) es tr htr hstart hc
  intro t ht
  exact (hrun.2 t ht).2.own

/-! ## Two runs with one packet of the test

Sixteen packets are sent in the warm-up. When the echo of the last of them arrives, packet 1 of the
test finds no message with its number; when only that of the first one arrives, it does. -/

def echoOf (o : Origin) : LatencyEvent :=
  .arrive o
    ({ enqueued := 100
       timestamp := fun _ => none
       heap := fun _ =>
        { data := setMessageType (setSeqn (fun _ => 0) 42 o.number) 42 .pong
          dataLen := 56
          l2Len := 14
          l3Len := 20
          l4Len := 8 }
       buffers := [0] }, 0)

def emptyChannel : Channel := .create 10 1 1 false fun _ => ⟨0, 0, 0, 0⟩

def oneTest : LatencyConfig where
  packets2send := 1
  useDevClock := false
  clockHz := 1
  clock_runs := fun h => absurd h Bool.false_ne_true

def spins (n : ℕ) : List LatencyEvent := List.replicate n (.spin true true true false)

def runOf (es : List LatencyEvent) : Option (List (Runs.Transition LatencyState LatencyEvent)) :=
  Runs.trace (LatencyState.step oneTest) (.start emptyChannel) es

def quietRun : List LatencyEvent :=
  spins 241 ++ [echoOf (.warmup 16), .spin true true true false, .settle false, .send true true 5,
    echoOf (.test 1), .poll]

theorem run_ownEchoes_quiet :
    ∃ tr, runOf quietRun = some tr ∧
      (Runs.final (.start emptyChannel) tr).samples = [⟨1, 95, some (.test 1)⟩] ∧
      ∀ t ∈ tr, OwnEchoes t.post := by
  have hrun : ∃ tr, runOf quietRun = some tr ∧
      ((Runs.final (.start emptyChannel) tr).samples = [⟨1, 95, some (.test 1)⟩] ∧
        ∀ t ∈ tr, undisturbed t.pre t.event = true) := by
    have h : (runOf quietRun).any (fun tr => decide
        ((Runs.final (.start emptyChannel) tr).samples = [⟨1, 95, some (.test 1)⟩] ∧
          ∀ t ∈ tr, undisturbed t.pre t.event = true)) = true := by decide +kernel
    obtain ⟨tr, htr, hdec⟩ := Option.any_eq_true .. |>.mp h
    exact ⟨tr, htr, of_decide_eq_true hdec⟩
  obtain ⟨tr, htr, hsamples, hc⟩ := hrun
  exact ⟨tr, htr, hsamples, run_ownEchoes oneTest emptyChannel quietRun tr htr hc⟩

def staleRun : List LatencyEvent :=
  spins 16 ++ echoOf (.warmup 1) :: spins 226 ++ [.settle true, .send true true 5, .poll]

theorem stale_echo_sampled :
    ∃ tr, runOf staleRun = some tr ∧ ∃ t ∈ tr, ⟨1, 95, some (.warmup 1)⟩ ∈ t.post.samples ∧
      ¬ OwnEchoes t.post := by
  have h : (runOf staleRun).any (fun tr => tr.any fun t =>
      decide (⟨1, 95, some (.warmup 1)⟩ ∈ t.post.samples)) = true := by decide +kernel
  obtain ⟨tr, htr, hany⟩ := Option.any_eq_true .. |>.mp h
  obtain ⟨t, ht, hmem⟩ := List.any_eq_true.mp hany
  have hmem := of_decide_eq_true hmem
  refine ⟨tr, htr, t, ht, hmem, ?_⟩
  intro hown
  exact absurd (hown _ hmem) (by decide)

end DpdkTools.Sockperf
