import DpdkTools.Sockperf.Latency

/-! The order of events in a latency test, over whole runs.

The warm-up prepares packet after packet until it has sixteen and a message has come back; only then
does the test begin. Both send their packets one after the other, without a gap. -/
namespace DpdkTools.Sockperf
open Runs
set_option autoImplicit false

/-- The counter of the packet behind `n` others. -/
def counter (n : ℕ) : SeqnT := UInt64.ofNat (n + 1)

theorem counter_succ (n : ℕ) : counter n + 1 = counter (n + 1) := by
  rw [← UInt64.toNat_inj, counter, counter, UInt64.toNat_add, UInt64.toNat_ofNat', UInt64.toNat_ofNat']
  exact Nat.mod_add_mod (n + 1) (2 ^ 64) 1

theorem counter_toNat_le (n : ℕ) : (counter n).toNat ≤ n + 1 := by
  rw [counter, UInt64.toNat_ofNat']
  exact Nat.mod_le _ _

theorem counter_toNat (n : ℕ) (h : n + 1 < 2 ^ 64) : (counter n).toNat = n + 1 := by
  rw [counter, UInt64.toNat_ofNat', Nat.mod_eq_of_lt h]

def warmups (w : ℕ) : List Origin := (List.range w).map fun n => .warmup (counter n)

def tests (t : ℕ) : List Origin := (List.range t).map fun n => .test (counter n)

theorem warmups_succ (w : ℕ) : warmups (w + 1) = warmups w ++ [.warmup (counter w)] := by
  rw [warmups, List.range_succ, List.map_append]
  rfl

theorem tests_succ (t : ℕ) : tests (t + 1) = tests t ++ [.test (counter t)] := by
  rw [tests, List.range_succ, List.map_append]
  rfl

namespace LatencyState

/-! ## Where the sender stands -/

/-- After `w` packets of the warm-up `seqn` counts them, and the one that waits for room. -/
def Buffered (w : ℕ) (seqn : SeqnT) (buffer : Option SeqnT) : Prop :=
  buffer = none ∧ seqn + 1 = counter w ∨ buffer = some seqn ∧ seqn = counter w

/-- Fifteen packets of the warm-up were sent, so that sixteen were prepared, and one came back. -/
def Warm (s : LatencyState) (w : ℕ) : Prop := s.channel.lastWarmupMessage ≠ none ∧ 15 ≤ w

/-- What `w` packets of the warm-up and `t` packets of the test mean for where the sender stands. -/
def Stands (s : LatencyState) (w t : ℕ) : Phase → Prop
  | .warming _ seqn buffer => t = 0 ∧ Buffered w seqn buffer
  | .settling _ => t = 0 ∧ (s.suspended = true ∨ s.Warm w)
  | .sending seqn => seqn = counter t ∧ (s.suspended = true ∨ s.Warm w)
  | .waiting seqn _ _ => ∃ n, t = n + 1 ∧ seqn = counter n
  | .ended => True
  | .failed _ => True

/-- The packets of the test that are not waited for any more. -/
def finished (t : ℕ) : Phase → ℕ
  | .waiting _ _ _ => t - 1
  | _ => t

structure Scheduled (s : LatencyState) (w t : ℕ) : Prop where
  sent : s.sent = warmups w ++ tests t
  stands : s.Stands w t s.phase
  warm : 0 < t → s.Warm w
  samples : (s.samples.map Sample.seqn).Sublist ((List.range (finished t s.phase)).map counter)

theorem scheduled_start (channel : Channel) : Scheduled (.start channel) 0 0 where
  sent := rfl
  stands := ⟨rfl, Or.inl ⟨rfl, rfl⟩⟩
  warm := fun h => absurd h (Nat.lt_irrefl 0)
  samples := List.nil_sublist _

theorem nextBuffer_buffered (w i : ℕ) (seqn : SeqnT) (buffer : Option SeqnT) (allocated : Bool)
    (h : Buffered w seqn buffer) :
    Buffered w (nextBuffer i seqn buffer allocated).1 (nextBuffer i seqn buffer allocated).2 := by
  unfold nextBuffer
  split_ifs with hnew
  · obtain ⟨-, hseqn⟩ | ⟨hsome, -⟩ := h
    · exact Or.inr ⟨rfl, hseqn⟩
    · rw [hnew.2.1] at hsome
      exact absurd hsome (by simp)
  · exact h

/-- With sixteen packets prepared at most one is not sent. -/
theorem Buffered.fifteen {w : ℕ} {seqn : SeqnT} {buffer : Option SeqnT} (h : Buffered w seqn buffer)
    (hmany : ¬ seqn < 16) : 15 ≤ w := by
  have hsixteen : 16 ≤ seqn.toNat := UInt64.le_iff_toNat_le.mp (UInt64.not_lt.mp hmany)
  obtain ⟨-, hseqn⟩ | ⟨-, hseqn⟩ := h
  · have hprev : seqn.toNat ≤ w := by
      have hle := congrArg UInt64.toNat hseqn
      rw [UInt64.toNat_add, counter, UInt64.toNat_ofNat'] at hle
      have hone : (1 : UInt64).toNat = 1 := rfl
      have hlt : seqn.toNat < 2 ^ 64 := seqn.toNat_lt
      omega
    omega
  · have hle := counter_toNat_le w
    rw [← hseqn] at hle
    omega

/-! ## The steps of the sender -/

section Steps
variable {cfg : LatencyConfig} {s : LatencyState} {w t : ℕ}

theorem Scheduled.spin (h : s.Scheduled w t) (i : ℕ) (seqn : SeqnT) (buffer : Option SeqnT)
    (hphase : s.phase = .warming i seqn buffer) (allocated enqueued alive timedOut : Bool) :
    ∃ w', w ≤ w' ∧ (s.spin i seqn buffer allocated enqueued alive timedOut).Scheduled w' t := by
  obtain ⟨hsent, hstands, hwarm, hsamples⟩ := h
  rw [hphase] at hstands hsamples
  obtain ⟨rfl, hbuffered⟩ := hstands
  by_cases hgo : (s.channel.lastWarmupMessage = none ∨ seqn < 16) ∧ s.suspended = false
  · have hnext := nextBuffer_buffered w i seqn buffer allocated hbuffered
    rw [LatencyState.spin, if_pos hgo]
    generalize nextBuffer i seqn buffer allocated = next at hnext ⊢
    obtain ⟨seqn', buffer'⟩ := next
    dsimp only at hnext ⊢
    by_cases hring : i % 16 = 0 ∧ enqueued = true
    · rw [if_pos hring, if_pos hring]
      obtain ⟨rfl, hseqn⟩ | ⟨rfl, hseqn⟩ := hnext
      · refine ⟨w, Nat.le_refl w, ?_, ?_, fun h => absurd h (Nat.lt_irrefl 0), ?_⟩
        · rw [← hsent]
          exact List.append_nil _
        · dsimp only
          split_ifs
          · trivial
          · trivial
          · exact ⟨rfl, Or.inl ⟨rfl, hseqn⟩⟩
        · dsimp only
          split_ifs <;> exact hsamples
      · -- the packet goes into the ring
        refine ⟨w + 1, Nat.le_succ w, ?_, ?_, fun h => absurd h (Nat.lt_irrefl 0), ?_⟩
        · have hlast : s.sent = warmups w := by rw [hsent, tests, List.range_zero, List.map_nil, List.append_nil]
          rw [warmups_succ, tests, List.range_zero, List.map_nil, List.append_nil, ← hlast, ← hseqn]
          rfl
        · dsimp only
          split_ifs
          · trivial
          · trivial
          · exact ⟨rfl, Or.inl ⟨rfl, by rw [hseqn, counter_succ]⟩⟩
        · dsimp only
          split_ifs <;> exact hsamples
    · rw [if_neg hring, if_neg hring]
      refine ⟨w, Nat.le_refl w, ?_, ?_, fun h => absurd h (Nat.lt_irrefl 0), ?_⟩
      · rw [← hsent]
        exact List.append_nil _
      · dsimp only
        split_ifs
        · trivial
        · trivial
        · exact ⟨rfl, hnext⟩
      · dsimp only
        split_ifs <;> exact hsamples
  · rw [LatencyState.spin, if_neg hgo]
    refine ⟨w, Nat.le_refl w, hsent, ⟨rfl, ?_⟩, fun h => absurd h (Nat.lt_irrefl 0), hsamples⟩
    cases hsuspended : s.suspended with
    | true => exact Or.inl rfl
    | false =>
      have hmany : ¬ (s.channel.lastWarmupMessage = none ∨ seqn < 16) := fun h => hgo ⟨h, hsuspended⟩
      rw [not_or] at hmany
      exact Or.inr ⟨hmany.1, hbuffered.fifteen hmany.2⟩

/-- The second loop of the warm-up looks at a message only when there is one. -/
theorem Scheduled.settle (h : s.Scheduled w t) (seqn : SeqnT) (hphase : s.phase = .settling seqn)
    (timedOut : Bool) : ∃ s', s.settle seqn timedOut = some s' ∧ s'.Scheduled w t := by
  obtain ⟨hsent, hstands, hwarm, hsamples⟩ := h
  have hkept := hstands
  have hsamples' := hsamples
  rw [hphase] at hstands hsamples'
  obtain ⟨rfl, hready⟩ := hstands
  have hnone : ¬ 0 < 0 := Nat.lt_irrefl 0
  unfold LatencyState.settle
  by_cases hsuspended : s.suspended = true
  · rw [if_pos hsuspended]
    exact ⟨_, rfl, hsent, ⟨rfl, hready⟩, fun h => absurd h hnone, hsamples'⟩
  · rw [if_neg hsuspended]
    have hwarm' : s.Warm w := hready.resolve_left hsuspended
    obtain ⟨msg, hmsg⟩ := Option.ne_none_iff_exists'.mp hwarm'.1
    simp only [hmsg]
    split_ifs
    · exact ⟨s, rfl, hsent, hkept, fun h => absurd h hnone, hsamples⟩
    · exact ⟨_, rfl, hsent, ⟨rfl, Or.inr hwarm'⟩, fun h => absurd h hnone, hsamples'⟩

theorem Scheduled.send (h : s.Scheduled w t) (seqn : SeqnT) (hphase : s.phase = .sending seqn)
    (allocated accepted : Bool) (sentAt : UInt64) :
    (s.send cfg seqn allocated accepted sentAt).Scheduled w t ∨
      counter t < cfg.packets2send + 1 ∧
        (s.send cfg seqn allocated accepted sentAt).Scheduled w (t + 1) := by
  obtain ⟨hsent, hstands, hwarm, hsamples⟩ := h
  have hkept := hstands
  have hsamples' := hsamples
  rw [hphase] at hstands hsamples'
  obtain ⟨rfl, hready⟩ := hstands
  unfold LatencyState.send
  split_ifs with hgo htaken
  · refine Or.inr ⟨hgo.1, ?_, ⟨t, rfl, rfl⟩, ?_, hsamples'⟩
    · rw [tests_succ, ← List.append_assoc, ← hsent]
      rfl
    · intro _
      exact hready.resolve_left (by rw [hgo.2]; exact Bool.false_ne_true)
  · exact Or.inl ⟨hsent, hkept, hwarm, hsamples⟩
  · exact Or.inl ⟨hsent, trivial, hwarm, hsamples'⟩

theorem Scheduled.poll (h : s.Scheduled w t) (seqn : SeqnT) (sentAt : UInt64) (i : ℕ)
    (hphase : s.phase = .waiting seqn sentAt i) : (s.poll cfg seqn sentAt i).Scheduled w t := by
  obtain ⟨hsent, hstands, hwarm, hsamples⟩ := h
  rw [hphase] at hstands hsamples
  obtain ⟨n, rfl, rfl⟩ := hstands
  have hready := Or.inr (a := s.suspended = true) (hwarm (Nat.succ_pos n))
  have hfinished : (s.samples.map Sample.seqn).Sublist ((List.range (n + 1)).map counter) := by
    refine hsamples.trans ?_
    rw [List.range_succ, List.map_append]
    exact List.sublist_append_left _ _
  have hgive : Scheduled { s with phase := .sending (counter n + 1) } w (n + 1) :=
    ⟨hsent, ⟨counter_succ n, hready⟩, hwarm, hfinished⟩
  have hmiss : Scheduled (if i = 0 then { s with phase := .sending (counter n + 1) }
      else { s with phase := .waiting (counter n) sentAt (i - 1) }) w (n + 1) := by
    split_ifs
    · exact hgive
    · exact ⟨hsent, ⟨n, rfl, rfl⟩, hwarm, hsamples⟩
  by_cases hsuspended : s.suspended = true
  · rw [LatencyState.poll, if_pos hsuspended]
    exact hgive
  · rw [LatencyState.poll, if_neg hsuspended]
    cases s.channel.lastWarmupMessage with
    | none => exact hmiss
    | some msg =>
      dsimp only
      by_cases heq : msg.seqn = warmup (counter n)
      · rw [if_pos heq]
        refine ⟨hsent, ⟨counter_succ n, hready⟩, hwarm, ?_⟩
        -- the sample of the last packet comes behind those of the others
        change ((s.samples ++ [_]).map Sample.seqn).Sublist ((List.range (n + 1)).map counter)
        rw [List.map_append, List.range_succ, List.map_append]
        exact hsamples.append (List.Sublist.refl _)
      · rw [if_neg heq]
        exact hmiss

/-! ## What happens meanwhile -/

/-- Only the message of the channel changes, and there is one afterwards. -/
theorem Scheduled.heard (h : s.Scheduled w t) (o : Origin) (x : Message) :
    (s.heard o x).Scheduled w t := by
  obtain ⟨hsent, hstands, hwarm, hsamples⟩ := h
  have hmessage : (s.heard o x).channel.lastWarmupMessage ≠ none := Option.some_ne_none _
  have hkeeps : s.Warm w → (s.heard o x).Warm w := fun h => ⟨hmessage, h.2⟩
  refine ⟨hsent, ?_, fun h => hkeeps (hwarm h), hsamples⟩
  change (s.heard o x).Stands w t s.phase
  cases hphase : s.phase with
  | warming i seqn buffer =>
    rw [hphase] at hstands
    exact hstands
  | settling seqn =>
    rw [hphase] at hstands
    exact ⟨hstands.1, hstands.2.imp id hkeeps⟩
  | sending seqn =>
    rw [hphase] at hstands
    exact ⟨hstands.1, hstands.2.imp id hkeeps⟩
  | waiting seqn sentAt i =>
    rw [hphase] at hstands
    exact hstands
  | ended => trivial
  | failed error => trivial

theorem Scheduled.suspend (h : s.Scheduled w t) : Scheduled { s with suspended := true } w t := by
  obtain ⟨hsent, hstands, hwarm, hsamples⟩ := h
  refine ⟨hsent, ?_, hwarm, hsamples⟩
  change Stands { s with suspended := true } w t s.phase
  cases hphase : s.phase with
  | warming i seqn buffer =>
    rw [hphase] at hstands
    exact hstands
  | settling seqn =>
    rw [hphase] at hstands
    exact ⟨hstands.1, Or.inl rfl⟩
  | sending seqn =>
    rw [hphase] at hstands
    exact ⟨hstands.1, Or.inl rfl⟩
  | waiting seqn sentAt i =>
    rw [hphase] at hstands
    exact hstands
  | ended => trivial
  | failed error => trivial

end Steps

/-! ## Every step, and every run -/

/-- A step sends nothing, or the next packet of the warm-up or of the test. -/
theorem Scheduled.step {cfg : LatencyConfig} {s s' : LatencyState} {e : LatencyEvent} {w t : ℕ}
    (h : s.Scheduled w t) (hstep : LatencyState.step cfg s e = some s') :
    ∃ w' t', s'.Scheduled w' t' ∧ (t' = t ∨ t' = t + 1 ∧ counter t < cfg.packets2send + 1) := by
  unfold LatencyState.step at hstep
  split at hstep
  · next hphase =>
    obtain rfl := Option.some.inj hstep
    obtain ⟨w', -, hspin⟩ := h.spin _ _ _ hphase _ _ _ _
    exact ⟨w', t, hspin, Or.inl rfl⟩
  · next hphase =>
    obtain ⟨s'', hsettle, hs''⟩ := h.settle _ hphase _
    obtain rfl := Option.some.inj (hsettle.symm.trans hstep)
    exact ⟨w, t, hs'', Or.inl rfl⟩
  · next hphase =>
    obtain rfl := Option.some.inj hstep
    have hsend := @Scheduled.send cfg _ _ _ h _ hphase
    obtain hsame | ⟨hbound, hnext⟩ := hsend _ _ _
    · exact ⟨w, t, hsame, Or.inl rfl⟩
    · exact ⟨w, t + 1, hnext, Or.inr ⟨rfl, hbound⟩⟩
  · next hphase =>
    obtain rfl := Option.some.inj hstep
    exact ⟨w, t, h.poll _ _ _ hphase, Or.inl rfl⟩
  · split_ifs at hstep with harrive
    rw [LatencyState.arrive_echo s _ _ harrive.2] at hstep
    obtain rfl := Option.some.inj hstep
    exact ⟨w, t, h.heard _ _, Or.inl rfl⟩
  · split_ifs at hstep with hlose
    obtain rfl := Option.some.inj hstep
    exact ⟨w, t, ⟨h.sent, h.stands, h.warm, h.samples⟩, Or.inl rfl⟩
  · obtain rfl := Option.some.inj hstep
    exact ⟨w, t, h.suspend, Or.inl rfl⟩
  · exact absurd hstep (by simp)

/-- What is asked of every state: the packets went out in order, the warm-up before the test; the test
sends no more than it was told to, and not before the warm-up is over; every packet has one sample at
most, and the samples are in order; and the warm-up never looks at a message that is not there. -/
structure OnSchedule (cfg : LatencyConfig) (s : LatencyState) : Prop where
  in_order : ∃ w t, s.sent = warmups w ++ tests t ∧ t ≤ cfg.packets2send.toNat ∧
    (0 < t → 15 ≤ w ∧ s.channel.lastWarmupMessage ≠ none) ∧
    (s.samples.map Sample.seqn).Sublist ((List.range t).map counter)
  message : ∀ seqn timedOut, s.phase = .settling seqn → s.settle seqn timedOut ≠ none

/-- The invariant: some counts fit the state, and the second one what was asked for. -/
def Counted (cfg : LatencyConfig) (s : LatencyState) : Prop :=
  ∃ w t, s.Scheduled w t ∧ t ≤ cfg.packets2send.toNat

theorem Counted.step {cfg : LatencyConfig} (hfit : cfg.packets2send.toNat + 1 < 2 ^ 64)
    {s s' : LatencyState} {e : LatencyEvent} (h : s.Counted cfg)
    (hstep : LatencyState.step cfg s e = some s') : s'.Counted cfg := by
  obtain ⟨w, t, hscheduled, hle⟩ := h
  obtain ⟨w', t', hscheduled', rfl | ⟨rfl, hbound⟩⟩ := hscheduled.step hstep
  · exact ⟨w', t', hscheduled', hle⟩
  · have hone : (1 : UInt64).toNat = 1 := rfl
    rw [UInt64.lt_iff_toNat_lt, counter_toNat t (by omega), UInt64.toNat_add, hone] at hbound
    exact ⟨w', t + 1, hscheduled', by omega⟩

theorem finished_le (t : ℕ) (phase : Phase) : finished t phase ≤ t := by
  cases phase with
  | waiting seqn sentAt i => exact Nat.sub_le t 1
  | warming i seqn buffer => exact Nat.le_refl t
  | settling seqn => exact Nat.le_refl t
  | sending seqn => exact Nat.le_refl t
  | ended => exact Nat.le_refl t
  | failed error => exact Nat.le_refl t

theorem Counted.onSchedule {cfg : LatencyConfig} {s : LatencyState} (h : s.Counted cfg) :
    s.OnSchedule cfg := by
  obtain ⟨w, t, hscheduled, hle⟩ := h
  refine ⟨⟨w, t, hscheduled.sent, hle, fun ht => (hscheduled.warm ht).symm, ?_⟩, ?_⟩
  · exact hscheduled.samples.trans
      ((List.range_sublist.mpr (finished_le t s.phase)).map counter)
  · intro seqn timedOut hphase
    obtain ⟨s', hsettle, -⟩ := hscheduled.settle seqn hphase timedOut
    rw [hsettle]
    exact Option.some_ne_none s'

theorem run_onSchedule (cfg : LatencyConfig) (hfit : cfg.packets2send.toNat + 1 < 2 ^ 64)
    (channel : Channel) (es : List LatencyEvent) (tr : List (Transition LatencyState LatencyEvent))
    (htr : trace (step cfg) (.start channel) es = some tr) : ∀ x ∈ tr, x.post.OnSchedule cfg := by
  have hrun := trace_invariant (Counted cfg) (fun _ _ => True)
    (fun s e s' hs _ hstep => hs.step hfit hstep) (.start channel) es tr htr
    ⟨0, 0, scheduled_start channel, Nat.zero_le _⟩ (fun _ _ => trivial)
  intro x hx
  exact (hrun.2 x hx).2.onSchedule

/-! ## How often it waits -/

def isPoll : LatencyEvent → Bool
  | .poll => true
  | _ => false

def isTest : Origin → Bool
  | .test _ => true
  | .warmup _ => false

/-- The polls that are left for the packet that is waited for. -/
def pollsLeft : Phase → ℕ
  | .waiting _ _ i => i + 1
  | _ => 0

def testsSent (s : LatencyState) : ℕ := s.sent.countP isTest

theorem Scheduled.testsSent {s : LatencyState} {w t : ℕ} (h : s.Scheduled w t) : s.testsSent = t := by
  have hwarmups : (warmups w).countP isTest = 0 := by
    rw [List.countP_eq_zero, warmups]
    intro o ho
    obtain ⟨n, -, rfl⟩ := List.mem_map.mp ho
    exact Bool.false_ne_true
  have htests : (tests t).countP isTest = t := by
    have hall : ∀ o ∈ tests t, isTest o = true := by
      intro o ho
      obtain ⟨n, -, rfl⟩ := List.mem_map.mp ho
      rfl
    rw [List.countP_eq_length.mpr hall, tests, List.length_map, List.length_range]
  rw [LatencyState.testsSent, h.sent, List.countP_append, hwarmups, htests, Nat.zero_add]

def pollCost : LatencyEvent → ℕ
  | .poll => 1
  | _ => 0

theorem sum_pollCost (es : List LatencyEvent) : (es.map pollCost).sum = es.countP isPoll := by
  induction es with
  | nil => rfl
  | cons e es ih =>
    have hone : pollCost e = if isPoll e = true then 1 else 0 := by cases e <;> rfl
    rw [List.map_cons, List.sum_cons, ih, List.countP_cons, hone, Nat.add_comm]

section Left
variable (s : LatencyState) (cfg : LatencyConfig)

theorem spin_pollsLeft (i : ℕ) (seqn : SeqnT) (buffer : Option SeqnT)
    (allocated enqueued alive timedOut : Bool) :
    pollsLeft (s.spin i seqn buffer allocated enqueued alive timedOut).phase = 0 ∧
      s.testsSent ≤ (s.spin i seqn buffer allocated enqueued alive timedOut).testsSent := by
  unfold spin
  split
  · generalize nextBuffer i seqn buffer allocated = next
    obtain ⟨seqn', buffer'⟩ := next
    refine ⟨?_, List.Sublist.countP_le (List.sublist_append_left _ _)⟩
    dsimp only
    generalize (if i % 16 = 0 ∧ enqueued = true then none else buffer') = left
    split_ifs <;> rfl
  · exact ⟨rfl, Nat.le_refl _⟩

theorem settle_pollsLeft (s' : LatencyState) (seqn : SeqnT) (timedOut : Bool)
    (hphase : s.phase = .settling seqn) (h : s.settle seqn timedOut = some s') :
    pollsLeft s'.phase = 0 ∧ s'.testsSent = s.testsSent := by
  unfold settle at h
  split_ifs at h with hsuspended
  · obtain rfl := Option.some.inj h
    exact ⟨rfl, rfl⟩
  · cases hmsg : s.channel.lastWarmupMessage with
    | none =>
      rw [hmsg] at h
      exact absurd h (by simp)
    | some msg =>
      rw [hmsg] at h
      dsimp only at h
      split_ifs at h
      · obtain rfl := Option.some.inj h
        rw [hphase]
        exact ⟨rfl, rfl⟩
      · obtain rfl := Option.some.inj h
        exact ⟨rfl, rfl⟩

theorem send_pollsLeft (seqn : SeqnT) (allocated accepted : Bool) (sentAt : UInt64)
    (hphase : s.phase = .sending seqn) :
    pollsLeft (s.send cfg seqn allocated accepted sentAt).phase = 0 ∧
        (s.send cfg seqn allocated accepted sentAt).testsSent = s.testsSent ∨
      pollsLeft (s.send cfg seqn allocated accepted sentAt).phase = 6 ∧
        (s.send cfg seqn allocated accepted sentAt).testsSent = s.testsSent + 1 := by
  unfold send
  split_ifs
  · exact Or.inr ⟨rfl, List.countP_append⟩
  · rw [hphase]
    exact Or.inl ⟨rfl, rfl⟩
  · exact Or.inl ⟨rfl, rfl⟩

theorem poll_pollsLeft (seqn : SeqnT) (sentAt : UInt64) (i : ℕ) :
    pollsLeft (s.poll cfg seqn sentAt i).phase ≤ i ∧
      (s.poll cfg seqn sentAt i).testsSent = s.testsSent := by
  have hgive : pollsLeft (.sending (seqn + 1)) ≤ i := Nat.zero_le i
  have hagain : i ≠ 0 → pollsLeft (.waiting seqn sentAt (i - 1)) ≤ i := by
    intro hi
    change i - 1 + 1 ≤ i
    omega
  unfold poll
  by_cases hsuspended : s.suspended = true
  · rw [if_pos hsuspended]
    exact ⟨hgive, rfl⟩
  · rw [if_neg hsuspended]
    cases s.channel.lastWarmupMessage with
    | none =>
      dsimp only
      split_ifs with hi
      · exact ⟨hgive, rfl⟩
      · exact ⟨hagain hi, rfl⟩
    | some msg =>
      dsimp only
      split_ifs with heq hi
      · exact ⟨hgive, rfl⟩
      · exact ⟨hgive, rfl⟩
      · exact ⟨hagain hi, rfl⟩

/-- A poll uses one up, and only a packet that is sent gives new ones. -/
theorem step_pollsLeft (s' : LatencyState) (e : LatencyEvent) (hstep : step cfg s e = some s') :
    pollsLeft s'.phase + pollCost e ≤ pollsLeft s.phase ∧ s.testsSent ≤ s'.testsSent ∨
      pollsLeft s'.phase + pollCost e ≤ 6 ∧ s'.testsSent = s.testsSent + 1 := by
  have hkept : pollsLeft s.phase + 0 ≤ pollsLeft s.phase ∧ s.testsSent ≤ s.testsSent :=
    ⟨Nat.le_refl _, Nat.le_refl _⟩
  unfold step at hstep
  split at hstep
  · obtain rfl := Option.some.inj hstep
    obtain ⟨hleft, hsent⟩ := s.spin_pollsLeft _ _ _ _ _ _ _
    exact Or.inl ⟨by rw [hleft]; exact Nat.zero_le _, hsent⟩
  · next hphase =>
    obtain ⟨hleft, hsent⟩ := s.settle_pollsLeft s' _ _ hphase hstep
    exact Or.inl ⟨by rw [hleft]; exact Nat.zero_le _, hsent.ge⟩
  · next hphase =>
    obtain rfl := Option.some.inj hstep
    obtain ⟨hleft, hsent⟩ | ⟨hleft, hsent⟩ := s.send_pollsLeft cfg _ _ _ _ hphase
    · exact Or.inl ⟨by rw [hleft]; exact Nat.zero_le _, hsent.ge⟩
    · exact Or.inr ⟨by rw [hleft]; exact Nat.le_refl 6, hsent⟩
  · next hphase =>
    obtain rfl := Option.some.inj hstep
    obtain ⟨hleft, hsent⟩ := s.poll_pollsLeft cfg _ _ _
    rw [hphase]
    exact Or.inl ⟨Nat.succ_le_succ hleft, hsent.ge⟩
  · split_ifs at hstep with harrive
    rw [s.arrive_echo _ _ harrive.2] at hstep
    obtain rfl := Option.some.inj hstep
    exact Or.inl hkept
  · split_ifs at hstep
    obtain rfl := Option.some.inj hstep
    exact Or.inl hkept
  · obtain rfl := Option.some.inj hstep
    exact Or.inl hkept
  · exact absurd hstep (by simp)

end Left

/-- A run looks for messages six times for every packet of the test at most, however the echoes come. -/
theorem run_polls (cfg : LatencyConfig) (hfit : cfg.packets2send.toNat + 1 < 2 ^ 64)
    (channel : Channel) (es : List LatencyEvent) (tr : List (Transition LatencyState LatencyEvent))
    (htr : trace (step cfg) (.start channel) es = some tr) :
    es.countP isPoll ≤ 6 * cfg.packets2send.toNat := by
  have hstep : ∀ s e s', Counted cfg s → True → step cfg s e = some s' → Counted cfg s' ∧
      6 * (cfg.packets2send.toNat - s'.testsSent) + pollsLeft s'.phase + pollCost e ≤
        6 * (cfg.packets2send.toNat - s.testsSent) + pollsLeft s.phase := by
    intro s e s' hs _ hstep
    have hs' := hs.step hfit hstep
    refine ⟨hs', ?_⟩
    obtain ⟨w, t, hscheduled, hle⟩ := hs'
    have hcount := hscheduled.testsSent
    obtain ⟨hleft, hsent⟩ | ⟨hleft, hsent⟩ := s.step_pollsLeft cfg s' e hstep
    · omega
    · omega
  have hcost := trace_cost (Counted cfg) (fun _ _ => True)
    (fun s => 6 * (cfg.packets2send.toNat - s.testsSent) + pollsLeft s.phase) pollCost hstep
    (.start channel) es tr htr ⟨0, 0, scheduled_start channel, Nat.zero_le _⟩ (fun _ _ => trivial)
  have hstart : 6 * (cfg.packets2send.toNat - (start channel).testsSent) +
      pollsLeft (start channel).phase = 6 * cfg.packets2send.toNat := rfl
  rw [sum_pollCost] at hcost
  omega

end LatencyState

/-! The run with one packet of the test, of which the echo comes back. -/

theorem quietRun_isSome : ∃ tr, runOf quietRun = some tr :=
  Option.isSome_iff_exists.mp (by decide +kernel)

theorem run_onSchedule_quiet : ∃ tr, runOf quietRun = some tr ∧
    ∀ x ∈ tr, x.post.OnSchedule oneTest := by
  obtain ⟨tr, htr⟩ := quietRun_isSome
  exact ⟨tr, htr, LatencyState.run_onSchedule oneTest (by decide) emptyChannel quietRun tr htr⟩

theorem run_polls_quiet : (runOf quietRun).isSome = true ∧
    quietRun.countP LatencyState.isPoll ≤ 6 := by
  obtain ⟨tr, htr⟩ := quietRun_isSome
  exact ⟨by rw [htr]; rfl, LatencyState.run_polls oneTest (by decide) emptyChannel quietRun tr htr⟩

end DpdkTools.Sockperf
