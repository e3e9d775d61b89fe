import DpdkTools.Lib.Runs
import Mathlib.Data.Finset.Basic
import Mathlib.Data.Finset.Dedup
import Mathlib.Data.Finset.Lattice.Lemmas

/-! Plans that start jobs on worker cores.

One thread works through a plan: it starts jobs on workers, runs jobs itself and waits for workers. A
worker takes a job only while it has none, and is done with it at some later time. Whether a start can
be refused is read off the plan alone, with a bound on the workers that may still be busy. -/
namespace DpdkTools.Launches
open Runs
set_option autoImplicit false

variable {J C : Type}

inductive Step (J C : Type) where
  | launch (job : J) (core : C)
  | runHere (job : J)
  | wait (core : C)
  deriving Repr, DecidableEq

/-- `started` and `refused` are records kept for the statements. -/
structure Workers (J C : Type) where
  todo : List (Step J C)
  running : C → Option J
  started : List (J × C)
  refused : ℕ

inductive Event (C : Type) where
  | next
  | finish (core : C)
  deriving Repr, DecidableEq

namespace Workers
variable [DecidableEq C]

def start (plan : List (Step J C)) : Workers J C := ⟨plan, fun _ => none, [], 0⟩

/-- The thread is on the core `here`, and the workers are `workers` without it. -/
def perform (here : C) (workers : List C) (w : Workers J C) (rest : List (Step J C)) :
    Step J C → Option (Workers J C)
  | .launch job core =>
    if core ∈ workers ∧ core ≠ here ∧ w.running core = none then
      some { w with
        todo := rest
        running := Function.update w.running core (some job)
        started := w.started ++ [(job, core)] }
    else some { w with todo := rest, refused := w.refused + 1 }
  | .runHere job => some { w with todo := rest, started := w.started ++ [(job, here)] }
  | .wait core => if w.running core = none then some { w with todo := rest } else none

def step (here : C) (workers : List C) (w : Workers J C) : Event C → Option (Workers J C)
  | .next =>
    match w.todo with
    | [] => none
    | s :: rest => w.perform here workers rest s
  | .finish core =>
    if w.running core = none then none
    else some { w with running := Function.update w.running core none }

end Workers

/-! ## Plans in which no start is refused -/

/-- What the plan starts, and where. -/
def starts (here : C) : List (Step J C) → List (J × C)
  | [] => []
  | .launch job core :: plan => (job, core) :: starts here plan
  | .runHere job :: plan => (job, here) :: starts here plan
  | .wait _ :: plan => starts here plan

/-- No start is refused when only the workers of `busy` have jobs. -/
def Safe [DecidableEq C] (here : C) (workers : List C) : Finset C → List (Step J C) → Prop
  | _, [] => True
  | busy, .launch _ core :: plan =>
    (core ∈ workers ∧ core ≠ here ∧ core ∉ busy) ∧ Safe here workers (insert core busy) plan
  | busy, .runHere _ :: plan => Safe here workers busy plan
  | busy, .wait core :: plan => Safe here workers (busy.erase core) plan

theorem starts_append (here : C) (plan plan' : List (Step J C)) :
    starts here (plan ++ plan') = starts here plan ++ starts here plan' := by
  induction plan with
  | nil => rfl
  | cons s plan ih =>
    cases s with
    | launch job core => exact congrArg ((job, core) :: ·) ih
    | runHere job => exact congrArg ((job, here) :: ·) ih
    | wait core => exact ih

theorem starts_launches (here : C) (jobs : List (J × C)) :
    starts here (jobs.map fun j => .launch j.1 j.2) = jobs := by
  induction jobs with
  | nil => rfl
  | cons j jobs ih => exact congrArg (j :: ·) ih

theorem starts_waits (here : C) (cores : List C) : starts here (cores.map (Step.wait (J := J))) = [] := by
  induction cores with
  | nil => rfl
  | cons core cores ih => exact ih

section Plans
variable [DecidableEq C] (here : C) (workers : List C)

/-- The workers that may be busy behind the plan. -/
def busyAfter : Finset C → List (Step J C) → Finset C
  | busy, [] => busy
  | busy, .launch _ core :: plan => busyAfter (insert core busy) plan
  | busy, .runHere _ :: plan => busyAfter busy plan
  | busy, .wait core :: plan => busyAfter (busy.erase core) plan

theorem safe_append (plan plan' : List (Step J C)) (busy : Finset C) :
    Safe here workers busy (plan ++ plan') ↔
      Safe here workers busy plan ∧ Safe here workers (busyAfter busy plan) plan' := by
  induction plan generalizing busy with
  | nil => exact ⟨fun h => ⟨trivial, h⟩, fun h => h.2⟩
  | cons s plan ih =>
    cases s with
    | launch job core => exact (and_congr_right fun _ => ih _).trans and_assoc.symm
    | runHere job => exact ih busy
    | wait core => exact ih _

theorem busyAfter_append (plan plan' : List (Step J C)) (busy : Finset C) :
    busyAfter busy (plan ++ plan') = busyAfter (busyAfter busy plan) plan' := by
  induction plan generalizing busy with
  | nil => rfl
  | cons s plan ih =>
    cases s with
    | launch job core => exact ih _
    | runHere job => exact ih _
    | wait core => exact ih _

/-- Different free workers are started one after the other. -/
theorem safe_launches (jobs : List (J × C)) (busy : Finset C) (hnodup : (jobs.map Prod.snd).Nodup)
    (hfree : ∀ j ∈ jobs, j.2 ∈ workers ∧ j.2 ≠ here ∧ j.2 ∉ busy) :
    Safe here workers busy (jobs.map fun j => .launch j.1 j.2) := by
  induction jobs generalizing busy with
  | nil => trivial
  | cons j jobs ih =>
    obtain ⟨hj, hjobs⟩ := List.nodup_cons.mp hnodup
    refine ⟨hfree j List.mem_cons_self, ih _ hjobs ?_⟩
    intro j' hj'
    obtain ⟨hin, hne, hout⟩ := hfree j' (List.mem_cons_of_mem _ hj')
    refine ⟨hin, hne, ?_⟩
    rw [Finset.mem_insert]
    rintro (heq | hmem)
    · exact hj (List.mem_map.mpr ⟨j', hj', heq⟩)
    · exact hout hmem

theorem safe_waits (cores : List C) (busy : Finset C) :
    Safe here workers busy (cores.map (Step.wait (J := J))) := by
  induction cores generalizing busy with
  | nil => trivial
  | cons core cores ih => exact ih _

theorem busyAfter_launches (jobs : List (J × C)) (busy : Finset C) :
    busyAfter busy (jobs.map fun j => .launch j.1 j.2) = busy ∪ (jobs.map Prod.snd).toFinset := by
  induction jobs generalizing busy with
  | nil => simp [busyAfter]
  | cons j jobs ih =>
    rw [List.map_cons, busyAfter, ih, List.map_cons, List.toFinset_cons, Finset.insert_union,
      Finset.union_insert]

end Plans

/-! ## Jobs that must not run at the same time -/

section Clash
variable [DecidableEq C] (clash : J → J → Prop)

/-- What may still be running behind the plan. -/
def occupied : List (J × C) → List (Step J C) → List (J × C)
  | busy, [] => busy
  | busy, .launch job core :: plan => occupied ((job, core) :: busy) plan
  | busy, .runHere _ :: plan => occupied busy plan
  | busy, .wait core :: plan => occupied (busy.filter fun b => b.2 ≠ core) plan

/-- No job is started that clashes with one that may still be running. -/
def Apart : List (J × C) → List (Step J C) → Prop
  | _, [] => True
  | busy, .launch job core :: plan =>
    (∀ b ∈ busy, ¬ clash job b.1) ∧ Apart ((job, core) :: busy) plan
  | busy, .runHere job :: plan => (∀ b ∈ busy, ¬ clash job b.1) ∧ Apart busy plan
  | busy, .wait core :: plan => Apart (busy.filter fun b => b.2 ≠ core) plan

theorem apart_append (plan plan' : List (Step J C)) (busy : List (J × C)) :
    Apart clash busy (plan ++ plan') ↔
      Apart clash busy plan ∧ Apart clash (occupied busy plan) plan' := by
  induction plan generalizing busy with
  | nil => exact ⟨fun h => ⟨trivial, h⟩, fun h => h.2⟩
  | cons s plan ih =>
    cases s with
    | launch job core => exact (and_congr_right fun _ => ih _).trans and_assoc.symm
    | runHere job => exact (and_congr_right fun _ => ih _).trans and_assoc.symm
    | wait core => exact ih _

/-- Jobs that clash neither with each other nor with those that are running. -/
theorem apart_launches (jobs busy : List (J × C)) (hbusy : ∀ j ∈ jobs, ∀ b ∈ busy, ¬ clash j.1 b.1)
    (hjobs : (jobs.map Prod.fst).Pairwise fun a b => ¬ clash b a) :
    Apart clash busy (jobs.map fun j => .launch j.1 j.2) := by
  induction jobs generalizing busy with
  | nil => trivial
  | cons j jobs ih =>
    obtain ⟨hfirst, hrest⟩ := List.pairwise_cons.mp hjobs
    refine ⟨hbusy j List.mem_cons_self, ih _ ?_ hrest⟩
    intro j' hj' b hb
    obtain rfl | hb := List.mem_cons.mp hb
    · exact hfirst j'.1 (List.mem_map_of_mem hj')
    · exact hbusy j' (List.mem_cons_of_mem _ hj') b hb

theorem apart_waits (cores : List C) (busy : List (J × C)) :
    Apart clash busy (cores.map (Step.wait (J := J))) := by
  induction cores generalizing busy with
  | nil => trivial
  | cons core cores ih => exact ih _

theorem occupied_append (plan plan' : List (Step J C)) (busy : List (J × C)) :
    occupied busy (plan ++ plan') = occupied (occupied busy plan) plan' := by
  induction plan generalizing busy with
  | nil => rfl
  | cons s plan ih =>
    cases s with
    | launch job core => exact ih _
    | runHere job => exact ih _
    | wait core => exact ih _

theorem occupied_launches (jobs busy : List (J × C)) :
    occupied busy (jobs.map fun j => .launch j.1 j.2) = jobs.reverse ++ busy := by
  induction jobs generalizing busy with
  | nil => rfl
  | cons j jobs ih =>
    rw [List.map_cons, occupied, ih, List.reverse_cons, List.append_assoc]
    rfl

end Clash

/-! ## Runs of a plan -/

namespace Workers
variable [DecidableEq C] (here : C) (workers : List C) (plan : List (Step J C))

/-- The plan so far was carried out, and what is left of it is safe. -/
structure OnPlan (w : Workers J C) : Prop where
  refused : w.refused = 0
  started : w.started ++ starts here w.todo = starts here plan
  safe : ∃ busy, (∀ core, w.running core ≠ none → core ∈ busy) ∧ Safe here workers busy w.todo

theorem onPlan_start (hsafe : Safe here workers ∅ plan) : OnPlan here workers plan (start plan) where
  refused := rfl
  started := List.nil_append _
  safe := ⟨∅, fun _ h => absurd rfl h, hsafe⟩

theorem onPlan_step (w w' : Workers J C) (e : Event C) (h : OnPlan here workers plan w)
    (hstep : w.step here workers e = some w') : OnPlan here workers plan w' := by
  obtain ⟨hrefused, hstarted, busy, hbusy, hsafe⟩ := h
  cases e with
  | next =>
    rw [step] at hstep
    split at hstep
    · exact absurd hstep (Option.some_ne_none w').symm
    · next s rest htodo =>
      rw [htodo] at hstarted hsafe
      cases s with
      | launch job core =>
        obtain ⟨⟨hin, hne, hout⟩, hrest⟩ := hsafe
        have hfree : w.running core = none := by
          by_contra hrunning
          exact hout (hbusy core hrunning)
        rw [perform, if_pos ⟨hin, hne, hfree⟩] at hstep
        obtain rfl := Option.some.inj hstep
        refine ⟨hrefused, ?_, insert core busy, ?_, hrest⟩
        · rw [List.append_assoc]
          exact hstarted
        · intro core' hrunning
          rw [Finset.mem_insert]
          by_cases heq : core' = core
          · exact Or.inl heq
          · dsimp only at hrunning
            rw [Function.update_of_ne heq] at hrunning
            exact Or.inr (hbusy core' hrunning)
      | runHere job =>
        obtain rfl := Option.some.inj hstep
        refine ⟨hrefused, ?_, busy, hbusy, hsafe⟩
        rw [List.append_assoc]
        exact hstarted
      | wait core =>
        rw [perform] at hstep
        split_ifs at hstep with hidle
        obtain rfl := Option.some.inj hstep
        refine ⟨hrefused, hstarted, busy.erase core, ?_, hsafe⟩
        intro core' hrunning
        refine Finset.mem_erase.mpr ⟨?_, hbusy core' hrunning⟩
        rintro rfl
        exact hrunning hidle
  | finish core =>
    rw [step] at hstep
    split_ifs at hstep
    obtain rfl := Option.some.inj hstep
    refine ⟨hrefused, hstarted, busy, ?_, hsafe⟩
    intro core' hrunning
    dsimp only at hrunning
    by_cases heq : core' = core
    · rw [heq, Function.update_self] at hrunning
      exact absurd rfl hrunning
    · rw [Function.update_of_ne heq] at hrunning
      exact hbusy core' hrunning

/-- Whenever the workers are done with their jobs, a safe plan is carried out to its end. -/
theorem run_onPlan (hsafe : Safe here workers ∅ plan) (es : List (Event C))
    (tr : List (Transition (Workers J C) (Event C)))
    (htr : trace (step here workers) (start plan) es = some tr) :
    ∀ t ∈ tr, OnPlan here workers plan t.post := by
  have hinv := trace_invariant (OnPlan here workers plan) (fun _ _ => True)
    (fun w e w' hw _ hstep => onPlan_step here workers plan w w' e hw hstep) (start plan) es tr htr
    (onPlan_start here workers plan hsafe) (fun _ _ => trivial)
  exact fun t ht => (hinv.2 t ht).2

/-- Jobs on different workers do not clash. -/
def RunsApart (clash : J → J → Prop) (w : Workers J C) : Prop :=
  ∀ core core' job job', core ≠ core' → w.running core = some job → w.running core' = some job' →
    ¬ clash job job'

/-- Nor does the job that the thread is about to run clash with any of them. -/
structure Unclashing (clash : J → J → Prop) (w : Workers J C) : Prop where
  workers : w.RunsApart clash
  here : ∀ job rest core job', w.todo = .runHere job :: rest → w.running core = some job' →
    ¬ clash job job'

/-- What is running is among what the plan so far has left running. -/
structure Spaced (clash : J → J → Prop) (w : Workers J C) : Prop where
  workers : w.RunsApart clash
  busy : ∃ busy, (∀ core job, w.running core = some job → (job, core) ∈ busy) ∧
    Apart clash busy w.todo

theorem Spaced.unclashing {clash : J → J → Prop} {w : Workers J C} (h : w.Spaced clash) :
    w.Unclashing clash where
  workers := h.workers
  here := by
    intro job rest core job' htodo hrunning
    obtain ⟨busy, hbusy, hapart⟩ := h.busy
    rw [htodo] at hapart
    exact hapart.1 _ (hbusy core job' hrunning)

theorem running_launched (running : C → Option J) (core c : C) (job j : J)
    (h : Function.update running core (some job) c = some j) :
    (c = core ∧ j = job) ∨ (c ≠ core ∧ running c = some j) := by
  by_cases hcore : c = core
  · subst hcore
    rw [Function.update_self] at h
    exact Or.inl ⟨rfl, (Option.some.inj h).symm⟩
  · rw [Function.update_of_ne hcore] at h
    exact Or.inr ⟨hcore, h⟩

theorem running_finished (running : C → Option J) (core c : C) (j : J)
    (h : Function.update running core none c = some j) : running c = some j := by
  by_cases hcore : c = core
  · rw [hcore, Function.update_self] at h
    exact absurd h (Option.some_ne_none j).symm
  · rwa [Function.update_of_ne hcore] at h

theorem spaced_launch (clash : J → J → Prop) (hsymm : ∀ a b, clash a b → clash b a) (w : Workers J C)
    (busy : List (J × C)) (hworkers : w.RunsApart clash)
    (hbusy : ∀ core job, w.running core = some job → (job, core) ∈ busy) (job : J) (core : C)
    (rest : List (Step J C)) (hjob : ∀ b ∈ busy, ¬ clash job b.1)
    (hrest : Apart clash ((job, core) :: busy) rest) (started : List (J × C)) :
    Spaced clash ⟨rest, Function.update w.running core (some job), started, w.refused⟩ := by
  refine ⟨?_, (job, core) :: busy, ?_, hrest⟩
  · intro c c' j j' hne hc hc'
    obtain ⟨rfl, rfl⟩ | ⟨-, hold⟩ := running_launched _ _ _ _ _ hc
    · obtain ⟨rfl, -⟩ | ⟨-, hold'⟩ := running_launched _ _ _ _ _ hc'
      · exact absurd rfl hne
      · exact hjob _ (hbusy c' j' hold')
    · obtain ⟨rfl, rfl⟩ | ⟨-, hold'⟩ := running_launched _ _ _ _ _ hc'
      · exact fun hclash => hjob _ (hbusy c j hold) (hsymm _ _ hclash)
      · exact hworkers c c' j j' hne hold hold'
  · intro c j hc
    obtain ⟨rfl, rfl⟩ | ⟨-, hold⟩ := running_launched _ _ _ _ _ hc
    · exact List.mem_cons_self
    · exact List.mem_cons_of_mem _ (hbusy c j hold)

theorem spaced_step (clash : J → J → Prop) (hsymm : ∀ a b, clash a b → clash b a) (w w' : Workers J C)
    (e : Event C) (h : w.Spaced clash) (hstep : w.step here workers e = some w') : w'.Spaced clash := by
  obtain ⟨hworkers, busy, hbusy, hapart⟩ := h
  cases e with
  | next =>
    rw [step] at hstep
    split at hstep
    · exact absurd hstep (Option.some_ne_none w').symm
    · next s rest htodo =>
      rw [htodo] at hapart
      cases s with
      | launch job core =>
        obtain ⟨hjob, hrest⟩ := hapart
        rw [perform] at hstep
        split_ifs at hstep
        · obtain rfl := Option.some.inj hstep
          exact spaced_launch clash hsymm w busy hworkers hbusy job core rest hjob hrest _
        · obtain rfl := Option.some.inj hstep
          exact ⟨hworkers, _, fun c j hc => List.mem_cons_of_mem _ (hbusy c j hc), hrest⟩
      | runHere job =>
        obtain rfl := Option.some.inj hstep
        exact ⟨hworkers, busy, hbusy, hapart.2⟩
      | wait core =>
        rw [perform] at hstep
        split_ifs at hstep with hidle
        obtain rfl := Option.some.inj hstep
        refine ⟨hworkers, _, ?_, hapart⟩
        intro c j hc
        refine List.mem_filter.mpr ⟨hbusy c j hc, decide_eq_true ?_⟩
        rintro rfl
        exact absurd (hidle.symm.trans hc) (Option.some_ne_none j).symm
  | finish core =>
    rw [step] at hstep
    split_ifs at hstep
    obtain rfl := Option.some.inj hstep
    refine ⟨?_, busy, ?_, hapart⟩
    · intro c c' j j' hne hc hc'
      exact hworkers c c' j j' hne (running_finished _ _ _ _ hc) (running_finished _ _ _ _ hc')
    · exact fun c j hc => hbusy c j (running_finished _ _ _ _ hc)

/-- A plan that keeps clashing jobs apart does so however the workers go about theirs. -/
theorem run_unclashing (clash : J → J → Prop) (hsymm : ∀ a b, clash a b → clash b a)
    (hapart : Apart clash [] plan) (es : List (Event C))
    (tr : List (Transition (Workers J C) (Event C)))
    (htr : trace (step here workers) (start plan) es = some tr) :
    ∀ t ∈ tr, t.post.Unclashing clash := by
  have hstart : (start plan : Workers J C).Spaced clash :=
    ⟨fun _ _ _ _ _ h => absurd h (Option.some_ne_none _).symm, [],
      fun _ _ h => absurd h (Option.some_ne_none _).symm, hapart⟩
  have hinv := trace_invariant (Spaced clash) (fun _ _ => True)
    (fun w e w' hw _ hstep => spaced_step here workers clash hsymm w w' e hw hstep) _ es tr htr hstart
    (fun _ _ => trivial)
  exact fun t ht => (hinv.2 t ht).2.unclashing

/-- The thread can go on, or waits for a worker whose job can end. -/
def Enabled (w : Workers J C) : Prop :=
  w.todo ≠ [] → (w.step here workers .next).isSome ∨
    ∃ core rest, w.todo = .wait core :: rest ∧ (w.step here workers (.finish core)).isSome

theorem step_enabled (w : Workers J C) : w.Enabled here workers := by
  intro htodo
  obtain ⟨s, rest, hcons⟩ := List.exists_cons_of_ne_nil htodo
  cases s with
  | launch job core =>
    left
    rw [step, hcons]
    dsimp only
    rw [perform]
    split_ifs <;> rfl
  | runHere job =>
    left
    rw [step, hcons]
    rfl
  | wait core =>
    by_cases hidle : w.running core = none
    · left
      rw [step, hcons]
      dsimp only
      rw [perform, if_pos hidle]
      rfl
    · right
      refine ⟨core, rest, hcons, ?_⟩
      rw [step, if_neg hidle]
      rfl

end Workers

end DpdkTools.Launches
