import DpdkTools.Jobs
import Mathlib.Data.List.Basic

/-! One round over the jobs of a core, `run_jobs_once` (`dpdkx/jobs.cpp`).

The loop erases a finished job from the vector it walks over: the next job then stands under the
same index, and `end` is taken again. What a job answers may depend on everything that happened
before, so the answers come from a state that every call of `process` may change. -/
namespace DpdkTools
set_option autoImplicit false

section
variable {J σ : Type} (process : J → σ → JobState × σ)

/-! ## The loop -/

structure JobsRound (J σ : Type) where
  jobs : List J
  job : ℕ
  endIdx : ℕ
  res : JobState
  env : σ
  /-- The jobs whose `process` ran, in order. -/
  called : List J

structure RoundOutcome (J σ : Type) where
  state : JobState
  jobs : List J
  env : σ
  called : List J
  deriving Repr, DecidableEq

namespace JobsRound

/-- One pass through the body, on the job `*job`. -/
def step (r : JobsRound J σ) (j : J) : JobsRound J σ ⊕ RoundOutcome J σ :=
  let answer := process j r.env
  let called := r.called ++ [j]
  match answer.1 with
  | .idling => .inl { r with env := answer.2, called := called, job := r.job + 1 }
  | .busy => .inl { r with env := answer.2, called := called, res := .busy, job := r.job + 1 }
  | .done =>
    let jobs := r.jobs.eraseIdx r.job
    if jobs = [] then .inr ⟨.done, jobs, answer.2, called⟩
    else .inl { r with env := answer.2, called := called, jobs := jobs, endIdx := jobs.length }

/-- `none` is a loop that has not ended after `fuel` passes, or that reads behind the vector. -/
def loop : ℕ → JobsRound J σ → Option (RoundOutcome J σ)
  | 0, r => if r.job = r.endIdx then some ⟨r.res, r.jobs, r.env, r.called⟩ else none
  | fuel + 1, r =>
    if r.job = r.endIdx then some ⟨r.res, r.jobs, r.env, r.called⟩
    else
      match r.jobs[r.job]? with
      | none => none
      | some j =>
        match r.step process j with
        | .inl r' => loop fuel r'
        | .inr o => some o

/-- The round before its pass `n`, if it comes to that. -/
def passes : ℕ → JobsRound J σ → Option (JobsRound J σ)
  | 0, r => some r
  | n + 1, r =>
    if r.job = r.endIdx then none
    else
      match r.jobs[r.job]? with
      | none => none
      | some j =>
        match r.step process j with
        | .inl r' => passes n r'
        | .inr _ => none

end JobsRound

/-- The loop passes over every job once, so as many passes as there are jobs are enough. -/
def runJobsOnce (jobs : List J) (env : σ) : Option (RoundOutcome J σ) :=
  JobsRound.loop process jobs.length ⟨jobs, 0, jobs.length, .idling, env, []⟩

/-! ## Each job in turn -/

/-- What the jobs answer when each is asked once, in order. -/
def answers : List J → σ → List (J × JobState)
  | [], _ => []
  | j :: js, env => (j, (process j env).1) :: answers js (process j env).2

def afterAll : List J → σ → σ
  | [], env => env
  | j :: js, env => afterAll js (process j env).2

def unfinished (as : List (J × JobState)) : List J :=
  (as.filter (fun a => a.2 ≠ .done)).map Prod.fst

def AnyBusy (as : List (J × JobState)) : Prop := ∃ a ∈ as, a.2 = .busy

def AllDone (as : List (J × JobState)) : Prop := ∀ a ∈ as, a.2 = .done

instance (as : List (J × JobState)) : Decidable (AnyBusy as) :=
  inferInstanceAs (Decidable (∃ a ∈ as, a.2 = .busy))

instance (as : List (J × JobState)) : Decidable (AllDone as) :=
  inferInstanceAs (Decidable (∀ a ∈ as, a.2 = .done))

theorem answers_fst (jobs : List J) (env : σ) : (answers process jobs env).map Prod.fst = jobs := by
  induction jobs generalizing env with
  | nil => rfl
  | cons j js ih => rw [answers, List.map_cons, ih]

theorem unfinished_eq_nil_iff (as : List (J × JobState)) : unfinished as = [] ↔ AllDone as := by
  rw [unfinished, List.map_eq_nil_iff, List.filter_eq_nil_iff]
  constructor
  · intro h a ha
    simpa using h a ha
  · intro h a ha
    simpa using h a ha

/-- The summary of a round that began with `res` and had `kept` jobs behind it. -/
def summary (kept : List J) (res : JobState) (as : List (J × JobState)) : JobState :=
  if as ≠ [] ∧ kept ++ unfinished as = [] then .done
  else if AnyBusy as then .busy else res

theorem summary_idling (kept : List J) (res : JobState) (j : J) (as : List (J × JobState)) :
    summary kept res ((j, .idling) :: as) = summary (kept ++ [j]) res as := by
  have hbusy : AnyBusy ((j, .idling) :: as) ↔ AnyBusy as := by simp [AnyBusy]
  simp [summary, unfinished, hbusy]

theorem summary_busy (kept : List J) (res : JobState) (j : J) (as : List (J × JobState)) :
    summary kept res ((j, .busy) :: as) = summary (kept ++ [j]) .busy as := by
  have hbusy : AnyBusy ((j, .busy) :: as) := ⟨(j, .busy), List.mem_cons_self, rfl⟩
  simp [summary, unfinished, hbusy]

theorem summary_done (kept : List J) (res : JobState) (j : J) (as : List (J × JobState))
    (h : kept ++ as.map Prod.fst ≠ []) :
    summary kept res ((j, .done) :: as) = summary kept res as := by
  have hbusy : AnyBusy ((j, .done) :: as) ↔ AnyBusy as := by simp [AnyBusy]
  have hsame : unfinished ((j, .done) :: as) = unfinished as := by simp [unfinished]
  cases as with
  | nil =>
    have hkept : kept ≠ [] := by simpa using h
    simp [summary, hbusy, hsame, hkept]
  | cons a as => simp [summary, hbusy, hsame]

/-! ## The loop visits each job once -/

/-- The round stands before `todo`, with the jobs it leaves in the list behind it. -/
structure JobsRound.At (r : JobsRound J σ) (kept todo : List J) : Prop where
  jobs : r.jobs = kept ++ todo
  job : r.job = kept.length
  endIdx : r.endIdx = r.jobs.length

namespace JobsRound.At

variable {r : JobsRound J σ} {kept todo : List J} {j : J}

theorem stop_iff (h : r.At kept todo) : r.job = r.endIdx ↔ todo = [] := by
  rw [h.job, h.endIdx, h.jobs, List.length_append, ← List.length_eq_zero_iff]
  omega

theorem get (h : r.At kept (j :: todo)) : r.jobs[r.job]? = some j := by
  rw [h.jobs, h.job, List.getElem?_append_right (Nat.le_refl _), Nat.sub_self]
  rfl

theorem erase (h : r.At kept (j :: todo)) : r.jobs.eraseIdx r.job = kept ++ todo := by
  rw [h.jobs, h.job, List.eraseIdx_append_of_length_le (Nat.le_refl _), Nat.sub_self]
  rfl

/-- Whatever else a job changes, the next job comes next. -/
theorem next (h : r.At kept (j :: todo)) (res : JobState) (env : σ) (called : List J) :
    JobsRound.At ⟨r.jobs, r.job + 1, r.endIdx, res, env, called⟩ (kept ++ [j]) todo where
  jobs := by simp [h.jobs]
  job := by simp [h.job]
  endIdx := h.endIdx

end JobsRound.At

theorem loop_stop (r : JobsRound J σ) (fuel : ℕ) (h : r.job = r.endIdx) :
    JobsRound.loop process fuel r = some ⟨r.res, r.jobs, r.env, r.called⟩ := by
  cases fuel with
  | zero => rw [JobsRound.loop, if_pos h]
  | succ fuel => rw [JobsRound.loop, if_pos h]

theorem unfinished_cons (a : J × JobState) (as : List (J × JobState)) :
    unfinished (a :: as) = unfinished [a] ++ unfinished as := by
  rw [unfinished, unfinished, unfinished, ← List.map_append, ← List.filter_append,
    List.singleton_append]

/-- A pass asks its job and goes on with the next; a job that is done is left out. -/
theorem step_at (j : J) (todo kept : List J) (r r' : JobsRound J σ) (hat : r.At kept (j :: todo))
    (hstep : r.step process j = .inl r') :
    r'.At (kept ++ unfinished [(j, (process j r.env).1)]) todo ∧
      r'.env = (process j r.env).2 ∧ r'.called = r.called ++ [j] ∧
      ∀ as : List (J × JobState), as.map Prod.fst = todo →
        summary kept r.res ((j, (process j r.env).1) :: as) =
          summary (kept ++ unfinished [(j, (process j r.env).1)]) r'.res as := by
  cases hstate : (process j r.env).1 with
  | idling =>
    simp only [JobsRound.step, hstate] at hstep
    obtain rfl := Sum.inl.inj hstep
    exact ⟨hat.next r.res (process j r.env).2 (r.called ++ [j]), rfl, rfl,
      fun as _ => summary_idling kept r.res j as⟩
  | busy =>
    simp only [JobsRound.step, hstate] at hstep
    obtain rfl := Sum.inl.inj hstep
    exact ⟨hat.next .busy (process j r.env).2 (r.called ++ [j]), rfl, rfl,
      fun as _ => summary_busy kept r.res j as⟩
  | done =>
    -- the index stays, and the list is shorter by the job it pointed at
    simp only [JobsRound.step, hstate, hat.erase] at hstep
    split_ifs at hstep with hempty
    obtain rfl := Sum.inl.inj hstep
    have hnone : unfinished [(j, JobState.done)] = [] := rfl
    rw [hnone, List.append_nil]
    refine ⟨⟨rfl, hat.job, rfl⟩, rfl, rfl, ?_⟩
    intro as hfst
    exact summary_done kept r.res j as (by rw [hfst]; exact hempty)

/-- A pass ends the round when its job is done and was the only one left. -/
theorem step_ends (j : J) (todo kept : List J) (r : JobsRound J σ) (o : RoundOutcome J σ)
    (hat : r.At kept (j :: todo)) (hstep : r.step process j = .inr o) :
    (process j r.env).1 = .done ∧ kept = [] ∧ todo = [] ∧
      o = ⟨.done, [], (process j r.env).2, r.called ++ [j]⟩ := by
  cases hstate : (process j r.env).1 with
  | idling =>
    simp only [JobsRound.step, hstate] at hstep
    exact absurd hstep (by simp)
  | busy =>
    simp only [JobsRound.step, hstate] at hstep
    exact absurd hstep (by simp)
  | done =>
    simp only [JobsRound.step, hstate, hat.erase] at hstep
    split_ifs at hstep with hempty
    obtain ⟨hkept, htodo⟩ := List.append_eq_nil_iff.mp hempty
    rw [hempty] at hstep
    exact ⟨rfl, hkept, htodo, (Sum.inr.inj hstep).symm⟩

/-- What stands before the current job is kept, what stands from it on is asked. -/
theorem loop_spec (todo kept : List J) (r : JobsRound J σ) (fuel : ℕ) (hat : r.At kept todo)
    (hfuel : todo.length ≤ fuel) :
    JobsRound.loop process fuel r =
      some ⟨summary kept r.res (answers process todo r.env),
        kept ++ unfinished (answers process todo r.env), afterAll process todo r.env,
        r.called ++ todo⟩ := by
  induction todo generalizing kept r fuel with
  | nil =>
    rw [loop_stop process r fuel (hat.stop_iff.mpr rfl), hat.jobs]
    simp [answers, afterAll, summary, unfinished, AnyBusy]
  | cons j todo ih =>
    obtain ⟨fuel, rfl⟩ : ∃ f, fuel = f + 1 := ⟨fuel - 1, by simp at hfuel; omega⟩
    have hfuel' : todo.length ≤ fuel := by simpa using hfuel
    have hgo : r.job ≠ r.endIdx := fun h => List.cons_ne_nil j todo (hat.stop_iff.mp h)
    rw [JobsRound.loop, if_neg hgo, hat.get]
    dsimp only
    cases hstep : r.step process j with
    | inl r' =>
      obtain ⟨hat', henv, hcalled, hsummary⟩ := step_at process j todo kept r r' hat hstep
      dsimp only
      rw [ih _ r' fuel hat' hfuel', henv, hcalled, answers, afterAll,
        hsummary _ (answers_fst process todo _),
        unfinished_cons _ (answers process todo (process j r.env).2), ← List.append_assoc,
        List.append_cons r.called j todo]
    | inr o =>
      obtain ⟨hdone, rfl, rfl, rfl⟩ := step_ends process j todo kept r o hat hstep
      simp [answers, afterAll, summary, unfinished, hdone]

/-- The jobs in front of pass `n` have been asked, and those of them that are done are erased. -/
theorem passes_spec (n : ℕ) (todo kept : List J) (r : JobsRound J σ) (hat : r.At kept todo)
    (hn : n < todo.length) :
    ∃ r', r.passes process n = some r' ∧
      r'.At (kept ++ unfinished (answers process (todo.take n) r.env)) (todo.drop n) ∧
      r'.env = afterAll process (todo.take n) r.env ∧ r'.called = r.called ++ todo.take n := by
  induction n generalizing todo kept r with
  | zero => exact ⟨r, rfl, by simpa [answers, unfinished] using hat, rfl, by simp⟩
  | succ n ih =>
    obtain ⟨j, todo, rfl⟩ := List.exists_cons_of_length_pos (by omega : 0 < todo.length)
    rw [List.length_cons] at hn
    have hmore : todo ≠ [] := List.ne_nil_of_length_pos (by omega)
    have hgo : r.job ≠ r.endIdx := fun h => List.cons_ne_nil j todo (hat.stop_iff.mp h)
    obtain ⟨r₁, hstep⟩ : ∃ r₁, r.step process j = .inl r₁ := by
      cases hstep : r.step process j with
      | inl r₁ => exact ⟨r₁, rfl⟩
      | inr o => exact absurd (step_ends process j todo kept r o hat hstep).2.2.1 hmore
    obtain ⟨hat₁, henv₁, hcalled₁, -⟩ := step_at process j todo kept r r₁ hat hstep
    obtain ⟨r', hpasses, hat', henv', hcalled'⟩ := ih todo _ r₁ hat₁ (by omega)
    rw [henv₁] at hat' henv'
    rw [hcalled₁] at hcalled'
    refine ⟨r', ?_, ?_, henv', ?_⟩
    · rw [JobsRound.passes, if_neg hgo, hat.get]
      dsimp only
      rw [hstep]
      exact hpasses
    · rw [List.take_succ_cons, List.drop_succ_cons, answers, unfinished_cons, ← List.append_assoc]
      exact hat'
    · rw [hcalled', List.append_assoc]
      rfl

/-- Behind the last job there is no further pass. -/
theorem passes_stop (n : ℕ) (todo kept : List J) (r r' : JobsRound J σ) (hat : r.At kept todo)
    (hn : todo.length ≤ n) (hpasses : r.passes process n = some r') : r'.job = r'.endIdx := by
  induction n generalizing todo kept r with
  | zero =>
    obtain rfl := Option.some.inj hpasses
    exact hat.stop_iff.mpr (List.length_eq_zero_iff.mp (Nat.le_zero.mp hn))
  | succ n ih =>
    rw [JobsRound.passes] at hpasses
    split_ifs at hpasses with hend
    cases todo with
    | nil => exact absurd (hat.stop_iff.mpr rfl) hend
    | cons j todo =>
      rw [hat.get] at hpasses
      dsimp only at hpasses
      cases hstep : r.step process j with
      | inl r₁ =>
        rw [hstep] at hpasses
        exact ih todo _ r₁ (step_at process j todo kept r r₁ hat hstep).1 (Nat.le_of_succ_le_succ hn)
          hpasses
      | inr o =>
        rw [hstep] at hpasses
        exact absurd hpasses (by simp)

theorem runJobsOnce_eq (jobs : List J) (env : σ) :
    runJobsOnce process jobs env =
      some ⟨summary [] .idling (answers process jobs env), unfinished (answers process jobs env),
        afterAll process jobs env, jobs⟩ := by
  have h := loop_spec process jobs [] ⟨jobs, 0, jobs.length, .idling, env, []⟩ jobs.length
    ⟨rfl, rfl, rfl⟩ (Nat.le_refl _)
  simpa [runJobsOnce] using h

/-- A round ends. It asks every job once, in order, keeps those that are not done, and says done
when there were jobs and all are done, and otherwise whether some job was busy. -/
theorem runJobsOnce_asks_each (jobs : List J) (env : σ) :
    ∃ state, runJobsOnce process jobs env =
        some ⟨state, unfinished (answers process jobs env), afterAll process jobs env, jobs⟩ ∧
      (state = .done ↔ jobs ≠ [] ∧ AllDone (answers process jobs env)) ∧
      (state ≠ .done → (state = .busy ↔ AnyBusy (answers process jobs env))) := by
  refine ⟨_, runJobsOnce_eq process jobs env, ?_, ?_⟩
  · have hnil : answers process jobs env ≠ [] ↔ jobs ≠ [] := by
      rw [← answers_fst process jobs env, ne_eq, ne_eq, List.map_eq_nil_iff, answers_fst]
    rw [← unfinished_eq_nil_iff, ← hnil, summary, List.nil_append]
    split_ifs with h hbusy
    · exact iff_of_true rfl h
    · exact iff_of_false (by decide) h
    · exact iff_of_false (by decide) h
  · intro hstate
    rw [summary] at hstate ⊢
    split_ifs at hstate ⊢ with h hbusy
    · exact absurd rfl hstate
    · exact iff_of_true rfl hbusy
    · exact iff_of_false (by decide) hbusy

/-- The assertion of `run_jobs` before each round: the list it starts the next round with is not
empty. -/
theorem runJobsOnce_leaves_jobs (jobs : List J) (env : σ) (o : RoundOutcome J σ)
    (hjobs : jobs ≠ []) (hrun : runJobsOnce process jobs env = some o) (hstate : o.state ≠ .done) :
    o.jobs ≠ [] := by
  rw [runJobsOnce_eq] at hrun
  obtain rfl := Option.some.inj hrun
  intro hnil
  apply hstate
  have hasked : answers process jobs env ≠ [] := by
    intro h
    have hfst := answers_fst process jobs env
    rw [h] at hfst
    exact hjobs hfst.symm
  exact if_pos ⟨hasked, hnil⟩

/-- Three jobs of which the second is done. -/
example : runJobsOnce (fun (j n : ℕ) => (if j = 2 then .done else .busy, n + 1)) [1, 2, 3] 0 =
    some ⟨.busy, [1, 3], 3, [1, 2, 3]⟩ := rfl

end

end DpdkTools
