import DpdkTools.Lib.Runs
import DpdkTools.RunJobs
import Mathlib.Data.List.Nodup

/-! The loops that drive the jobs of a core: `run_jobs` and `job::run_exclusive` (`dpdkx/jobs.cpp`).

The two loops are the same around what they do in a round. They read `running` between sweeps of 33
rounds at most, and end a sweep early when round after round finds nothing to do. `stop_jobs` may be
called at any time, by another thread or by a job. An exception leaves the loop out of the middle of a
round, with what the jobs in front have done. -/
namespace DpdkTools
open Runs
set_option autoImplicit false

def cycleThreshold : ℕ := 33

def idleThreshold : UInt8 := 2

/-! ## The loop -/

inductive LoopPhase where
  /-- at the condition of the outer loop -/
  | condition
  /-- at the condition of the inner loop -/
  | sweep
  | returned
  /-- an exception was caught -/
  | failed
  deriving Repr, DecidableEq

structure JobLoop (ρ : Type) where
  phase : LoopPhase
  idling : UInt8
  cycle : ℕ
  running : Bool
  env : ρ

inductive LoopEvent where
  | condition
  | round
  | sweepEnds
  /-- the call of job number `k` of the round throws -/
  | throws (k : ℕ)
  | stop
  deriving Repr, DecidableEq

namespace JobLoop
variable {ρ : Type} (round : ρ → Option (JobState × ρ)) (thrown : ρ → ℕ → Option ρ)

def start (running : Bool) (env : ρ) : JobLoop ρ := ⟨.condition, 0, 0, running, env⟩

/-- The switch over what a round answers. -/
def answered (s : JobLoop ρ) (env : ρ) : JobState → JobLoop ρ
  | .busy => { s with idling := 0, cycle := s.cycle + 1, env := env }
  | .idling =>
    { s with
      idling := s.idling + 1
      cycle := (if s.idling + 1 > idleThreshold then cycleThreshold else s.cycle) + 1
      env := env }
  | .done => { s with phase := .returned, env := env }

def step (s : JobLoop ρ) : LoopEvent → Option (JobLoop ρ)
  | .condition =>
    if s.phase = .condition then
      if s.running then some { s with phase := .sweep, cycle := 0 }
      else some { s with phase := .returned }
    else none
  | .round =>
    if s.phase = .sweep ∧ s.cycle < cycleThreshold then
      (round s.env).map fun r => s.answered r.2 r.1
    else none
  | .sweepEnds =>
    if s.phase = .sweep ∧ ¬ s.cycle < cycleThreshold then some { s with phase := .condition } else none
  | .throws k =>
    if s.phase = .sweep ∧ s.cycle < cycleThreshold then
      (thrown s.env k).map fun env => { s with phase := .failed, env := env }
    else none
  | .stop => some { s with running := false }

/-! ## What a step can do -/

inductive Moves (s : JobLoop ρ) : LoopEvent → JobLoop ρ → Prop
  | sweeps : s.phase = .condition → s.running = true →
      Moves s .condition { s with phase := .sweep, cycle := 0 }
  | leaves : s.phase = .condition → s.running = false →
      Moves s .condition { s with phase := .returned }
  | answers (state : JobState) (env : ρ) : s.phase = .sweep → s.cycle < cycleThreshold →
      round s.env = some (state, env) → Moves s .round (s.answered env state)
  | sweepEnds : s.phase = .sweep → Moves s .sweepEnds { s with phase := .condition }
  | throws (k : ℕ) (env : ρ) : s.phase = .sweep → thrown s.env k = some env →
      Moves s (.throws k) { s with phase := .failed, env := env }
  | stop : Moves s .stop { s with running := false }

theorem step_moves {s s' : JobLoop ρ} {e : LoopEvent} (h : s.step round thrown e = some s') :
    Moves round thrown s e s' := by
  cases e with
  | condition =>
    simp only [step] at h
    split_ifs at h with hphase hrunning
    · obtain rfl := Option.some.inj h
      exact .sweeps hphase hrunning
    · obtain rfl := Option.some.inj h
      exact .leaves hphase (Bool.eq_false_iff.mpr hrunning)
  | round =>
    simp only [step] at h
    split_ifs at h with hgo
    obtain ⟨⟨state, env⟩, hround, rfl⟩ := Option.map_eq_some_iff.mp h
    exact .answers state env hgo.1 hgo.2 hround
  | sweepEnds =>
    simp only [step] at h
    split_ifs at h with hgo
    obtain rfl := Option.some.inj h
    exact .sweepEnds hgo.1
  | throws k =>
    simp only [step] at h
    split_ifs at h with hgo
    obtain ⟨env, hthrown, rfl⟩ := Option.map_eq_some_iff.mp h
    exact .throws k env hgo.1 hthrown
  | stop =>
    obtain rfl := Option.some.inj h
    exact .stop

theorem answered_fields (s : JobLoop ρ) (env : ρ) (state : JobState) :
    (s.answered env state).env = env ∧ (s.answered env state).running = s.running ∧
      ((s.answered env state).phase = .returned ↔ state = .done ∨ s.phase = .returned) := by
  cases state with
  | busy => exact ⟨rfl, rfl, by simp [answered]⟩
  | idling => exact ⟨rfl, rfl, by simp [answered]⟩
  | done => exact ⟨rfl, rfl, by simp [answered]⟩

/-! ## After `stop_jobs` -/

/-- The rounds left in a sweep, when no other one begins. -/
def roundsLeft (s : JobLoop ρ) : ℕ :=
  match s.phase with
  | .sweep => cycleThreshold - s.cycle
  | _ => 0

def roundCost : LoopEvent → ℕ
  | .round => 1
  | _ => 0

theorem sum_roundCost (es : List LoopEvent) : (es.map roundCost).sum = es.count .round := by
  induction es with
  | nil => rfl
  | cons e es ih =>
    have hone : roundCost e = if e == .round then 1 else 0 := by cases e <;> rfl
    rw [List.map_cons, List.sum_cons, ih, List.count_cons, hone, Nat.add_comm]

theorem roundsLeft_answered (s : JobLoop ρ) (env : ρ) (state : JobState) (hphase : s.phase = .sweep)
    (hcycle : s.cycle < cycleThreshold) :
    (s.answered env state).roundsLeft + 1 ≤ s.roundsLeft := by
  have hleft : s.roundsLeft = cycleThreshold - s.cycle := by rw [roundsLeft, hphase]
  cases state with
  | busy =>
    have hnext : (s.answered env .busy).roundsLeft = cycleThreshold - (s.cycle + 1) := by
      rw [roundsLeft, answered, hphase]
    omega
  | idling =>
    have hnext : (s.answered env .idling).roundsLeft ≤ cycleThreshold - (s.cycle + 1) := by
      rw [roundsLeft, answered, hphase]
      dsimp only
      split_ifs <;> omega
    omega
  | done =>
    have hnext : (s.answered env .done).roundsLeft = 0 := rfl
    omega

/-- Once `running` is cleared the loop makes 33 more rounds at most, whatever the jobs answer. -/
theorem rounds_after_stop (s : JobLoop ρ) (es : List LoopEvent)
    (tr : List (Transition (JobLoop ρ) LoopEvent)) (htr : trace (step round thrown) s es = some tr)
    (hstopped : s.running = false) : es.count .round ≤ cycleThreshold := by
  have hcost := trace_cost (fun s : JobLoop ρ => s.running = false) (fun _ _ => True) roundsLeft
    roundCost (by
      intro s e s' hs _ hstep
      cases step_moves round thrown hstep with
      | sweeps hphase hrunning =>
        rw [hs] at hrunning
        exact absurd hrunning Bool.false_ne_true
      | leaves hphase hrunning => exact ⟨hs, Nat.zero_le _⟩
      | answers state env hphase hcycle hround =>
        exact ⟨(s.answered_fields env state).2.1.trans hs, s.roundsLeft_answered env state hphase hcycle⟩
      | sweepEnds hphase => exact ⟨hs, Nat.zero_le _⟩
      | throws k env hphase hthrown => exact ⟨hs, Nat.zero_le _⟩
      | stop => exact ⟨rfl, Nat.le_refl _⟩) s es tr htr hstopped (fun _ _ => trivial)
  have hleft : s.roundsLeft ≤ cycleThreshold := by
    unfold roundsLeft
    split
    · exact Nat.sub_le _ _
    · exact Nat.zero_le _
  rw [sum_roundCost] at hcost
  omega

/-- A job that never rests is stopped in the first of its 33 rounds. -/
theorem rounds_after_stop_busy :
    (List.replicate 32 .round ++ [.sweepEnds, .condition] : List LoopEvent).count .round ≤
      cycleThreshold := by
  obtain ⟨tr, htr⟩ := Option.isSome_iff_exists.mp
    (show (trace (step (fun n : ℕ => some (.busy, n + 1)) fun n _ => some n) ⟨.sweep, 0, 1, false, 0⟩
      (List.replicate 32 .round ++ [.sweepEnds, .condition])).isSome from by decide +kernel)
  exact rounds_after_stop (fun n : ℕ => some (.busy, n + 1)) (fun n _ => some n)
    ⟨.sweep, 0, 1, false, 0⟩ _ tr htr rfl

end JobLoop

/-! ## The rounds of `run_jobs` -/

section Jobs
variable {J σ : Type} (process : J → σ → JobState × σ) (thrown : J → σ → σ)

/-- The jobs that are left. The last two fields are records kept for the statements: every call of
`process`, and the number of rounds begun. -/
structure JobsEnv (J σ : Type) where
  jobs : List J
  env : σ
  called : List J
  rounds : ℕ

def runJobsRound (r : JobsEnv J σ) : Option (JobState × JobsEnv J σ) :=
  (runJobsOnce process r.jobs r.env).map fun o =>
    (o.state, ⟨o.jobs, o.env, r.called ++ o.called, r.rounds + 1⟩)

/-- What an exception out of pass `k` leaves; `thrown` is what the call that throws makes of its
state. -/
def runJobsThrows (r : JobsEnv J σ) (k : ℕ) : Option (JobsEnv J σ) :=
  match JobsRound.passes process k ⟨r.jobs, 0, r.jobs.length, .idling, r.env, []⟩ with
  | none => none
  | some round =>
    if round.job = round.endIdx then none
    else
      (round.jobs[round.job]?).map fun j =>
        ⟨round.jobs, thrown j round.env, r.called ++ round.called ++ [j], r.rounds + 1⟩

/-- `run_jobs` with more than one job. -/
def runJobsStep : JobLoop (JobsEnv J σ) → LoopEvent → Option (JobLoop (JobsEnv J σ)) :=
  JobLoop.step (runJobsRound process) (runJobsThrows process thrown)

def runJobsStart (running : Bool) (jobs : List J) (env : σ) : JobLoop (JobsEnv J σ) :=
  .start running ⟨jobs, env, [], 0⟩

theorem runJobsRound_eq (r : JobsEnv J σ) :
    ∃ state, runJobsRound process r = some (state, ⟨unfinished (answers process r.jobs r.env),
        afterAll process r.jobs r.env, r.called ++ r.jobs, r.rounds + 1⟩) ∧
      (r.jobs ≠ [] → (state = .done ↔ unfinished (answers process r.jobs r.env) = [])) := by
  refine ⟨summary [] .idling (answers process r.jobs r.env), ?_, ?_⟩
  · rw [runJobsRound, runJobsOnce_eq]
    rfl
  · intro hjobs
    have hasked : answers process r.jobs r.env ≠ [] := by
      intro h
      have hfst := answers_fst process r.jobs r.env
      rw [h] at hfst
      exact hjobs hfst.symm
    rw [summary, List.nil_append]
    split_ifs with hall hbusy
    · exact iff_of_true rfl hall.2
    · exact iff_of_false (by decide) fun h => hall ⟨hasked, h⟩
    · exact iff_of_false (by decide) fun h => hall ⟨hasked, h⟩

/-- The jobs in front of the one that throws have had their turn, the others have not. -/
theorem runJobsThrows_eq (r : JobsEnv J σ) (k : ℕ) (j : J) (rest : List J)
    (h : r.jobs.drop k = j :: rest) :
    runJobsThrows process thrown r k =
      some ⟨unfinished (answers process (r.jobs.take k) r.env) ++ j :: rest,
        thrown j (afterAll process (r.jobs.take k) r.env), r.called ++ (r.jobs.take k ++ [j]),
        r.rounds + 1⟩ := by
  have hk : k < r.jobs.length := by
    have hlen := congrArg List.length h
    rw [List.length_drop, List.length_cons] at hlen
    omega
  obtain ⟨round, hpasses, hat, henv, hcalled⟩ := passes_spec process k r.jobs []
    ⟨r.jobs, 0, r.jobs.length, .idling, r.env, []⟩ ⟨rfl, rfl, rfl⟩ hk
  rw [h, List.nil_append] at hat
  have hgo : round.job ≠ round.endIdx := fun hend => List.cons_ne_nil j rest (hat.stop_iff.mp hend)
  rw [runJobsThrows, hpasses]
  dsimp only
  rw [if_neg hgo, hat.get, Option.map_some, hat.jobs, henv, hcalled, List.nil_append,
    List.append_assoc]

theorem runJobsThrows_none (r : JobsEnv J σ) (k : ℕ) (h : r.jobs.length ≤ k) :
    runJobsThrows process thrown r k = none := by
  rw [runJobsThrows]
  cases hpasses : JobsRound.passes process k ⟨r.jobs, 0, r.jobs.length, .idling, r.env, []⟩ with
  | none => rfl
  | some round =>
    have hend := passes_stop process k r.jobs [] ⟨r.jobs, 0, r.jobs.length, .idling, r.env, []⟩ round
      ⟨rfl, rfl, rfl⟩ h hpasses
    exact if_pos hend

theorem runJobsThrows_some (r r' : JobsEnv J σ) (k : ℕ)
    (h : runJobsThrows process thrown r k = some r') :
    ∃ j rest, r.jobs.take k ++ j :: rest = r.jobs ∧
      r' = ⟨unfinished (answers process (r.jobs.take k) r.env) ++ j :: rest,
        thrown j (afterAll process (r.jobs.take k) r.env), r.called ++ (r.jobs.take k ++ [j]),
        r.rounds + 1⟩ := by
  by_cases hk : r.jobs.length ≤ k
  · rw [runJobsThrows_none process thrown r k hk] at h
    exact absurd h (by simp)
  · have hdrop := List.drop_eq_getElem_cons (Nat.lt_of_not_le hk)
    rw [runJobsThrows_eq process thrown r k _ _ hdrop] at h
    have hsplit : r.jobs.take k ++ r.jobs.drop k = r.jobs := List.take_append_drop k r.jobs
    rw [hdrop] at hsplit
    exact ⟨_, _, hsplit, (Option.some.inj h).symm⟩

theorem unfinished_sublist (jobs : List J) (env : σ) :
    (unfinished (answers process jobs env)).Sublist jobs := by
  have hkept := (List.filter_sublist (p := fun a : J × JobState => a.2 ≠ .done)
    (l := answers process jobs env)).map Prod.fst
  rw [answers_fst] at hkept
  exact hkept

theorem mem_unfinished (jobs : List J) (env : σ) (hnodup : jobs.Nodup) (j : J) (hj : j ∈ jobs) :
    j ∈ unfinished (answers process jobs env) ↔ (j, JobState.done) ∉ answers process jobs env := by
  have hfst := answers_fst process jobs env
  rw [← hfst] at hnodup hj
  obtain ⟨a, ha, rfl⟩ := List.mem_map.mp hj
  have hsame : ∀ b ∈ answers process jobs env, b.1 = a.1 → b = a := fun b hb heq =>
    List.inj_on_of_nodup_map hnodup hb ha heq
  rw [unfinished, List.mem_map]
  constructor
  · rintro ⟨b, hb, heq⟩ hdone
    obtain ⟨hb, hne⟩ := List.mem_filter.mp hb
    rw [hsame b hb heq, ← hsame _ hdone rfl] at hne
    exact absurd hne (by simp)
  · intro hdone
    refine ⟨a, List.mem_filter.mpr ⟨ha, ?_⟩, rfl⟩
    rw [decide_eq_true_eq]
    intro hstate
    rw [← hstate] at hdone
    exact hdone ha

variable [DecidableEq J]

/-- What is asked of every state of `run_jobs` on different jobs: whoever is left was called in every
round and nobody more than that, up to the round that an exception has broken off; there is a job to
call before each round, and the loop ends only when no job is left or after `stop_jobs`. -/
structure Driven (jobs : List J) (s : JobLoop (JobsEnv J σ)) : Prop where
  left : s.env.jobs.Sublist jobs
  fair : s.phase ≠ .failed → ∀ j ∈ s.env.jobs, s.env.called.count j = s.env.rounds
  broken_off : ∀ j ∈ s.env.jobs, s.env.rounds ≤ s.env.called.count j + 1
  once : ∀ j, s.env.called.count j ≤ s.env.rounds
  some_left : s.phase = .condition ∨ s.phase = .sweep → s.env.jobs ≠ []
  returns : s.phase = .returned → s.env.jobs = [] ∨ s.running = false

theorem driven_start (running : Bool) (jobs : List J) (env : σ) (hjobs : jobs ≠ []) :
    Driven jobs (runJobsStart running jobs env) where
  left := List.Sublist.refl jobs
  fair := fun _ _ _ => rfl
  broken_off := fun _ _ => Nat.zero_le _
  once := fun _ => Nat.le_refl 0
  some_left := fun _ => hjobs
  returns := fun h => LoopPhase.noConfusion h

theorem driven_answered (jobs : List J) (hnodup : jobs.Nodup) (s : JobLoop (JobsEnv J σ))
    (h : Driven jobs s) (hphase : s.phase = .sweep) (state : JobState) (env : JobsEnv J σ)
    (hround : runJobsRound process s.env = some (state, env)) : Driven jobs (s.answered env state) := by
  have hjobs := h.some_left (Or.inr hphase)
  have hfair := h.fair (by rw [hphase]; exact LoopPhase.noConfusion)
  obtain ⟨state', heq, hdone⟩ := runJobsRound_eq process s.env
  obtain ⟨rfl, rfl⟩ := Prod.mk.inj (Option.some.inj (heq.symm.trans hround))
  obtain ⟨henv, hrunning, hreturned⟩ := s.answered_fields
    ⟨unfinished (answers process s.env.jobs s.env.env), afterAll process s.env.jobs s.env.env,
      s.env.called ++ s.env.jobs, s.env.rounds + 1⟩ state'
  have hleft := unfinished_sublist process s.env.jobs s.env.env
  have hnodup' : s.env.jobs.Nodup := hnodup.sublist h.left
  have hcount : ∀ j ∈ unfinished (answers process s.env.jobs s.env.env),
      (s.env.called ++ s.env.jobs).count j = s.env.rounds + 1 := by
    intro j hj
    have hj' : j ∈ s.env.jobs := hleft.subset hj
    rw [List.count_append, hfair j hj', List.count_eq_one_of_mem hnodup' hj']
  refine ⟨?_, ?_, ?_, ?_, ?_, ?_⟩
  · rw [henv]
    exact hleft.trans h.left
  · rw [henv]
    exact fun _ => hcount
  · rw [henv]
    intro j hj
    dsimp only at hj ⊢
    rw [hcount j hj]
    exact Nat.le_succ _
  · intro j
    rw [henv]
    dsimp only
    rw [List.count_append]
    exact Nat.add_le_add (h.once j) (List.nodup_iff_count_le_one.mp hnodup' j)
  · intro hgoes
    rw [henv]
    dsimp only
    intro hnil
    -- with no job left the answer was `done`
    have hend := hreturned.mpr (Or.inl ((hdone hjobs).mpr hnil))
    rw [hend] at hgoes
    exact hgoes.elim LoopPhase.noConfusion LoopPhase.noConfusion
  · intro hend
    rw [henv]
    obtain hstate | hbefore := hreturned.mp hend
    · exact Or.inl ((hdone hjobs).mp hstate)
    · rw [hphase] at hbefore
      exact LoopPhase.noConfusion hbefore

theorem driven_thrown (jobs : List J) (hnodup : jobs.Nodup) (s : JobLoop (JobsEnv J σ))
    (h : Driven jobs s) (hphase : s.phase = .sweep) (k : ℕ) (env : JobsEnv J σ)
    (hthrown : runJobsThrows process thrown s.env k = some env) :
    Driven jobs { s with phase := .failed, env := env } := by
  have hfair := h.fair (by rw [hphase]; exact LoopPhase.noConfusion)
  obtain ⟨j, rest, hsplit, rfl⟩ := runJobsThrows_some process thrown s.env env k hthrown
  have hleft : (unfinished (answers process (s.env.jobs.take k) s.env.env) ++ j :: rest).Sublist
      s.env.jobs := by
    have hfront := (unfinished_sublist process (s.env.jobs.take k) s.env.env).append_right (j :: rest)
    rw [hsplit] at hfront
    exact hfront
  have hcalled : (s.env.jobs.take k ++ [j]).Sublist s.env.jobs := by
    have hpart : (s.env.jobs.take k ++ [j]).Sublist (s.env.jobs.take k ++ j :: rest) :=
      (List.singleton_sublist.mpr List.mem_cons_self).append_left _
    rw [hsplit] at hpart
    exact hpart
  have hnodup' : (s.env.jobs.take k ++ [j]).Nodup := (hnodup.sublist h.left).sublist hcalled
  refine ⟨hleft.trans h.left, fun hne => absurd rfl hne, ?_, ?_, ?_, fun hend => LoopPhase.noConfusion hend⟩
  · intro i hi
    dsimp only at hi ⊢
    rw [List.count_append, hfair i (hleft.subset hi)]
    omega
  · intro i
    dsimp only
    rw [List.count_append]
    exact Nat.add_le_add (h.once i) (List.nodup_iff_count_le_one.mp hnodup' i)
  · exact fun hgoes => hgoes.elim LoopPhase.noConfusion LoopPhase.noConfusion

theorem driven_moves (jobs : List J) (hnodup : jobs.Nodup) (s s' : JobLoop (JobsEnv J σ))
    (e : LoopEvent) (h : Driven jobs s)
    (hm : JobLoop.Moves (runJobsRound process) (runJobsThrows process thrown) s e s') :
    Driven jobs s' := by
  cases hm with
  | sweeps hphase hrunning =>
    have hfair := h.fair (by rw [hphase]; exact LoopPhase.noConfusion)
    exact ⟨h.left, fun _ => hfair, h.broken_off, h.once, fun _ => h.some_left (Or.inl hphase),
      fun h => LoopPhase.noConfusion h⟩
  | leaves hphase hrunning =>
    have hfair := h.fair (by rw [hphase]; exact LoopPhase.noConfusion)
    refine ⟨h.left, fun _ => hfair, h.broken_off, h.once, ?_, fun _ => Or.inr hrunning⟩
    exact fun hgoes => hgoes.elim LoopPhase.noConfusion LoopPhase.noConfusion
  | answers state env hphase _ hround => exact driven_answered process jobs hnodup s h hphase state env hround
  | sweepEnds hphase =>
    have hfair := h.fair (by rw [hphase]; exact LoopPhase.noConfusion)
    exact ⟨h.left, fun _ => hfair, h.broken_off, h.once, fun _ => h.some_left (Or.inr hphase),
      fun h => LoopPhase.noConfusion h⟩
  | throws k env hphase hthrown => exact driven_thrown process thrown jobs hnodup s h hphase k env hthrown
  | stop => exact ⟨h.left, h.fair, h.broken_off, h.once, h.some_left, fun _ => Or.inr rfl⟩

omit [DecidableEq J] in
/-- What the jobs called in a step have answered; a call that throws answers nothing. -/
def answered (e : LoopEvent) (r : JobsEnv J σ) : List (J × JobState) :=
  match e with
  | .round => answers process r.jobs r.env
  | .throws k => answers process (r.jobs.take k) r.env
  | _ => []

/-- A job leaves the list when it answers that it is done, and only then; one that is not in the list
is not called. -/
structure Turn (e : LoopEvent) (r r' : JobsEnv J σ) : Prop where
  leaves : ∀ j ∈ r.jobs, (j ∈ r'.jobs ↔ (j, JobState.done) ∉ answered process e r)
  stays_out : ∀ j, j ∉ r.jobs → j ∉ r'.jobs ∧ r'.called.count j = r.called.count j

theorem stays_out_moves (s s' : JobLoop (JobsEnv J σ)) (e : LoopEvent)
    (hm : JobLoop.Moves (runJobsRound process) (runJobsThrows process thrown) s e s') (j : J)
    (hj : j ∉ s.env.jobs) :
    j ∉ s'.env.jobs ∧ s'.env.called.count j = s.env.called.count j := by
  cases hm with
  | sweeps _ _ => exact ⟨hj, rfl⟩
  | leaves _ _ => exact ⟨hj, rfl⟩
  | answers state env _ _ hround =>
    obtain ⟨state', heq, -⟩ := runJobsRound_eq process s.env
    obtain ⟨rfl, rfl⟩ := Prod.mk.inj (Option.some.inj (heq.symm.trans hround))
    rw [(s.answered_fields _ _).1]
    refine ⟨fun hin => hj ((unfinished_sublist process s.env.jobs s.env.env).subset hin), ?_⟩
    dsimp only
    rw [List.count_append, List.count_eq_zero.mpr hj, Nat.add_zero]
  | sweepEnds _ => exact ⟨hj, rfl⟩
  | throws k env _ hthrown =>
    obtain ⟨i, rest, hsplit, rfl⟩ := runJobsThrows_some process thrown s.env env k hthrown
    rw [← hsplit, List.mem_append, List.mem_cons, not_or, not_or] at hj
    have hfront := unfinished_sublist process (s.env.jobs.take k) s.env.env
    have hcalled : j ∉ s.env.jobs.take k ++ [i] := by
      rw [List.mem_append, List.mem_singleton, not_or]
      exact ⟨hj.1, hj.2.1⟩
    dsimp only
    rw [List.count_append, List.count_eq_zero.mpr hcalled, List.mem_append, List.mem_cons, not_or,
      not_or]
    exact ⟨⟨fun hin => hj.1 (hfront.subset hin), hj.2⟩, rfl⟩
  | stop => exact ⟨hj, rfl⟩

omit [DecidableEq J] in
theorem answered_mem (e : LoopEvent) (r : JobsEnv J σ) (j : J) (state : JobState)
    (h : (j, state) ∈ answered process e r) : j ∈ r.jobs := by
  have hmap := List.mem_map_of_mem (f := Prod.fst) h
  cases e with
  | round =>
    rw [answered, answers_fst] at hmap
    exact hmap
  | throws k =>
    rw [answered, answers_fst] at hmap
    exact List.mem_of_mem_take hmap
  | condition => exact absurd h List.not_mem_nil
  | sweepEnds => exact absurd h List.not_mem_nil
  | stop => exact absurd h List.not_mem_nil

theorem turn_moves (s s' : JobLoop (JobsEnv J σ)) (e : LoopEvent) (hnodup : s.env.jobs.Nodup)
    (hm : JobLoop.Moves (runJobsRound process) (runJobsThrows process thrown) s e s') :
    Turn process e s.env s'.env := by
  refine ⟨fun j hj => ?_, stays_out_moves process thrown s s' e hm⟩
  cases hm with
  | sweeps _ _ => exact iff_of_true hj List.not_mem_nil
  | leaves _ _ => exact iff_of_true hj List.not_mem_nil
  | answers state env _ _ hround =>
    obtain ⟨state', heq, -⟩ := runJobsRound_eq process s.env
    obtain ⟨rfl, rfl⟩ := Prod.mk.inj (Option.some.inj (heq.symm.trans hround))
    rw [(s.answered_fields _ _).1]
    exact mem_unfinished process s.env.jobs s.env.env hnodup j hj
  | sweepEnds _ => exact iff_of_true hj List.not_mem_nil
  | throws k env _ hthrown =>
    obtain ⟨i, rest, hsplit, rfl⟩ := runJobsThrows_some process thrown s.env env k hthrown
    rw [← hsplit] at hnodup
    obtain ⟨htake, -, hdisjoint⟩ := List.nodup_append'.mp hnodup
    rw [← hsplit, List.mem_append] at hj
    dsimp only
    rw [List.mem_append, answered]
    obtain hj | hj := hj
    · rw [or_iff_left fun hrest => hdisjoint hj hrest]
      exact mem_unfinished process (s.env.jobs.take k) s.env.env htake j hj
    · -- the one that throws and those behind it have not answered
      refine iff_of_true (Or.inr hj) fun hdone => ?_
      have hmem := List.mem_map_of_mem (f := Prod.fst) hdone
      rw [answers_fst] at hmem
      exact hdisjoint hmem hj
  | stop => exact iff_of_true hj List.not_mem_nil

section Run
variable (jobs : List J) (hjobs : jobs ≠ []) (hnodup : jobs.Nodup) (running : Bool) (env : σ)
  (es : List LoopEvent) (tr : List (Transition (JobLoop (JobsEnv J σ)) LoopEvent))
  (htr : trace (runJobsStep process thrown) (runJobsStart running jobs env) es = some tr)
include hjobs hnodup htr

theorem driven_run : ∀ t ∈ tr, Driven jobs t.post ∧ Turn process t.event t.pre.env t.post.env := by
  have hinv := trace_invariant (Driven jobs) (fun _ _ => True)
    (fun s e s' hs _ hstep =>
      driven_moves process thrown jobs hnodup s s' e hs (JobLoop.step_moves _ _ hstep))
    (runJobsStart running jobs env) es tr htr (driven_start running jobs env hjobs) (fun _ _ => trivial)
  have hmoves := trace_forall
    (fun s e s' => JobLoop.Moves (runJobsRound process) (runJobsThrows process thrown) s e s')
    (fun _ _ _ hstep => JobLoop.step_moves _ _ hstep) (runJobsStart running jobs env) es tr htr
  intro t ht
  obtain ⟨hpre, hpost⟩ := hinv.2 t ht
  exact ⟨hpost, turn_moves process thrown t.pre t.post t.event (hnodup.sublist hpre.left) (hmoves t ht)⟩

/-- A job that has said that it is done is out of the list, and never called again. -/
theorem done_run (tr₁ tr₂ : List (Transition (JobLoop (JobsEnv J σ)) LoopEvent))
    (t : Transition (JobLoop (JobsEnv J σ)) LoopEvent) (htr' : tr = tr₁ ++ t :: tr₂) (j : J)
    (hdone : (j, JobState.done) ∈ answered process t.event t.pre.env) :
    ∀ t' ∈ tr₂, j ∉ t'.post.env.jobs ∧
      t'.post.env.called.count j = t.post.env.called.count j := by
  subst htr'
  obtain ⟨-, hturn⟩ := driven_run process thrown jobs hjobs hnodup running env es _ htr t (by simp)
  have hout : j ∉ t.post.env.jobs := by
    intro hin
    exact (hturn.leaves j (answered_mem process _ _ j _ hdone)).mp hin hdone
  obtain ⟨-, es₂, hrest⟩ := trace_split (runJobsStart running jobs env) es tr₁ t tr₂ htr
  have hinv := trace_invariant
    (fun s => j ∉ s.env.jobs ∧ s.env.called.count j = t.post.env.called.count j) (fun _ _ => True)
    (fun s e s' hs _ hstep =>
      have hstays := stays_out_moves process thrown s s' e (JobLoop.step_moves _ _ hstep) j hs.1
      ⟨hstays.1, hstays.2.trans hs.2⟩)
    t.post es₂ tr₂ hrest ⟨hout, rfl⟩ (fun _ _ => trivial)
  exact fun t' ht' => (hinv.2 t' ht').2

end Run

/-- In every run of `run_jobs` the jobs take turns until they are done, and then no more. -/
theorem run_jobs_take_turns (jobs : List J) (hjobs : jobs ≠ []) (hnodup : jobs.Nodup)
    (running : Bool) (env : σ) (es : List LoopEvent)
    (tr : List (Transition (JobLoop (JobsEnv J σ)) LoopEvent))
    (htr : trace (runJobsStep process thrown) (runJobsStart running jobs env) es = some tr) :
    (∀ t ∈ tr, Driven jobs t.post ∧ Turn process t.event t.pre.env t.post.env) ∧
      ∀ tr₁ t tr₂ j, tr = tr₁ ++ t :: tr₂ →
        (j, JobState.done) ∈ answered process t.event t.pre.env →
        ∀ t' ∈ tr₂, j ∉ t'.post.env.jobs ∧
          t'.post.env.called.count j = t.post.env.called.count j :=
  ⟨driven_run process thrown jobs hjobs hnodup running env es tr htr,
    fun tr₁ t tr₂ j heq hdone =>
      done_run process thrown jobs hjobs hnodup running env es tr htr tr₁ tr₂ t heq j hdone⟩

/-- Three jobs of which the second is done in the first round. In the third round the last one throws. -/
theorem run_jobs_take_turns_three :
    ∃ tr, trace (runJobsStep (fun (j n : ℕ) => (if j = 2 then .done else .busy, n + 1)) fun _ n => n)
        (runJobsStart true [1, 2, 3] 0) [.condition, .round, .round, .stop, .throws 1] = some tr ∧
      ∀ t ∈ tr, Driven [1, 2, 3] t.post ∧
        Turn (fun (j n : ℕ) => (if j = 2 then .done else .busy, n + 1)) t.event t.pre.env t.post.env := by
  obtain ⟨tr, htr⟩ := Option.isSome_iff_exists.mp
    (show (trace (runJobsStep (fun (j n : ℕ) => (if j = 2 then .done else .busy, n + 1)) fun _ n => n)
      (runJobsStart true [1, 2, 3] 0) [.condition, .round, .round, .stop, .throws 1]).isSome
      from by decide +kernel)
  exact ⟨tr, htr, (run_jobs_take_turns _ _ [1, 2, 3] (by decide) (by decide) true 0 _ tr htr).1⟩

end Jobs

/-! ## One job -/

namespace JobLoop

/-- The same place in the loop, with less around it. -/
def through {ρ τ : Type} (f : ρ → τ) (s : JobLoop ρ) : JobLoop τ :=
  ⟨s.phase, s.idling, s.cycle, s.running, f s.env⟩

theorem answered_through {ρ τ : Type} (f : ρ → τ) (s : JobLoop ρ) (env : ρ) (state : JobState) :
    (s.answered env state).through f = (s.through f).answered (f env) state := by
  cases state <;> rfl

end JobLoop

section Single
variable {J σ : Type} (process : J → σ → JobState × σ) (thrown : J → σ → σ) (j : J)

/-- `job::run_exclusive`, where it is not overridden. -/
def runExclusiveStep : JobLoop σ → LoopEvent → Option (JobLoop σ) :=
  JobLoop.step (fun env => some (process j env)) fun env k =>
    if k = 0 then some (thrown j env) else none

def OnlyJob (s : JobLoop (JobsEnv J σ)) : Prop :=
  s.phase = .condition ∨ s.phase = .sweep → s.env.jobs = [j]

theorem runJobsRound_single (r : JobsEnv J σ) (h : r.jobs = [j]) :
    runJobsRound process r = some ((process j r.env).1,
      ⟨if (process j r.env).1 = .done then [] else [j], (process j r.env).2, r.called ++ [j],
        r.rounds + 1⟩) := by
  rw [runJobsRound, runJobsOnce_eq, h]
  cases hstate : (process j r.env).1 with
  | busy => simp [answers, summary, unfinished, AnyBusy, afterAll, hstate]
  | idling => simp [answers, summary, unfinished, AnyBusy, afterAll, hstate]
  | done => simp [answers, summary, unfinished, afterAll, hstate]

theorem runJobsStep_through (s : JobLoop (JobsEnv J σ)) (h : OnlyJob j s) (e : LoopEvent) :
    (runJobsStep process thrown s e).map (JobLoop.through JobsEnv.env) =
      runExclusiveStep process thrown j (s.through JobsEnv.env) e := by
  have hphase : (s.through JobsEnv.env).phase = s.phase := rfl
  have hcycle : (s.through JobsEnv.env).cycle = s.cycle := rfl
  have hrunning : (s.through JobsEnv.env).running = s.running := rfl
  cases e with
  | condition =>
    rw [runJobsStep, runExclusiveStep, JobLoop.step, JobLoop.step, hphase, hrunning]
    split_ifs <;> rfl
  | round =>
    rw [runJobsStep, runExclusiveStep, JobLoop.step, JobLoop.step, hphase, hcycle]
    split_ifs with hgo
    · rw [runJobsRound_single process j s.env (h (Or.inr hgo.1)), Option.map_some, Option.map_some,
        Option.map_some, JobLoop.answered_through]
      rfl
    · rfl
  | sweepEnds =>
    rw [runJobsStep, runExclusiveStep, JobLoop.step, JobLoop.step, hphase, hcycle]
    split_ifs <;> rfl
  | throws k =>
    rw [runJobsStep, runExclusiveStep, JobLoop.step, JobLoop.step, hphase, hcycle]
    split_ifs with hgo hzero
    · subst hzero
      rw [runJobsThrows_eq process thrown s.env 0 j [] (h (Or.inr hgo.1))]
      rfl
    · have hone := congrArg List.length (h (Or.inr hgo.1))
      rw [List.length_singleton] at hone
      rw [runJobsThrows_none process thrown s.env k (by omega)]
      rfl
    · rfl
  | stop => rfl

theorem onlyJob_moves (s s' : JobLoop (JobsEnv J σ)) (e : LoopEvent) (h : OnlyJob j s)
    (hm : JobLoop.Moves (runJobsRound process) (runJobsThrows process thrown) s e s') :
    OnlyJob j s' := by
  cases hm with
  | sweeps hphase _ => exact fun _ => h (Or.inl hphase)
  | leaves _ _ => exact fun hgoes => hgoes.elim LoopPhase.noConfusion LoopPhase.noConfusion
  | answers state env hphase _ hround =>
    have hone := h (Or.inr hphase)
    rw [runJobsRound_single process j s.env hone] at hround
    obtain ⟨hstate, rfl⟩ := Prod.mk.inj (Option.some.inj hround)
    intro hgoes
    rw [(s.answered_fields _ state).1]
    have hdone : state ≠ .done := by
      intro hdone
      have hend := ((s.answered_fields
        ⟨if (process j s.env.env).1 = .done then [] else [j], (process j s.env.env).2,
          s.env.called ++ [j], s.env.rounds + 1⟩ state).2.2).mpr (Or.inl hdone)
      rw [hend] at hgoes
      exact hgoes.elim LoopPhase.noConfusion LoopPhase.noConfusion
    exact if_neg fun h => hdone (hstate.symm.trans h)
  | sweepEnds hphase => exact fun _ => h (Or.inr hphase)
  | throws _ _ _ _ => exact fun hgoes => hgoes.elim LoopPhase.noConfusion LoopPhase.noConfusion
  | stop => exact h

/-- `run_jobs` leaves a single job to the job itself. Its own loop would have done the same. -/
theorem run_jobs_single (running : Bool) (env : σ) (es : List LoopEvent) :
    (trace (runJobsStep process thrown) (runJobsStart running [j] env) es).map
        (List.map fun t => t.post.through JobsEnv.env) =
      (trace (runExclusiveStep process thrown j) (JobLoop.start running env) es).map
        (List.map Transition.post) :=
  trace_map_post (OnlyJob j) (JobLoop.through JobsEnv.env)
    (fun s e h => runJobsStep_through process thrown j s h e)
    (fun s e s' h hstep => onlyJob_moves process thrown j s s' e h (JobLoop.step_moves _ _ hstep))
    (runJobsStart running [j] env) es fun _ => rfl

end Single

end DpdkTools
