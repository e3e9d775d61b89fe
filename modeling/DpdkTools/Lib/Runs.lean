import Mathlib.Algebra.Ring.Nat
import Mathlib.Data.List.Basic

/-! Runs of a guarded transition function and the two induction rules for them.

A step function answers `none` on an event that is not enabled. The run of an event list is
the list of its transitions, so that a condition on the state before a step and a property of
the state after it can be read off the same object. -/
namespace DpdkTools.Runs
set_option autoImplicit false

variable {σ ε : Type*}

structure Transition (σ ε : Type*) where
  pre : σ
  event : ε
  post : σ

/-- The run of `es` from `s`; `none` when some event is not enabled. -/
def trace (step : σ → ε → Option σ) : σ → List ε → Option (List (Transition σ ε))
  | _, [] => some []
  | s, e :: es =>
    match step s e with
    | none => none
    | some s' => (trace step s' es).map (⟨s, e, s'⟩ :: ·)

def final (s : σ) (tr : List (Transition σ ε)) : σ :=
  (tr.getLast?.map Transition.post).getD s

theorem final_cons (s : σ) (t : Transition σ ε) (tr : List (Transition σ ε)) :
    final s (t :: tr) = final t.post tr := by
  cases tr with
  | nil => rfl
  | cons u tr => simp [final, List.getLast?_eq_some_getLast]

theorem trace_nil {step : σ → ε → Option σ} {s : σ} {tr : List (Transition σ ε)}
    (h : trace step s [] = some tr) : tr = [] := by
  simpa [trace, eq_comm] using h

theorem trace_cons {step : σ → ε → Option σ} {s : σ} {e : ε} {es : List ε}
    {tr : List (Transition σ ε)} (h : trace step s (e :: es) = some tr) :
    ∃ s' rest, step s e = some s' ∧ trace step s' es = some rest ∧ tr = ⟨s, e, s'⟩ :: rest := by
  unfold trace at h
  cases hs : step s e with
  | none => rw [hs] at h; exact absurd h (by simp)
  | some s' =>
    rw [hs] at h
    obtain ⟨rest, hrest, htr⟩ := Option.map_eq_some_iff.mp h
    exact ⟨s', rest, rfl, hrest, htr.symm⟩

theorem trace_step {step : σ → ε → Option σ} {s s' : σ} {e : ε} {es : List ε}
    {tr : List (Transition σ ε)} (h : step s e = some s') (htr : trace step s' es = some tr) :
    trace step s (e :: es) = some (⟨s, e, s'⟩ :: tr) := by
  rw [trace, h]
  dsimp only
  rw [htr, Option.map_some]

/-! ## Behind a transition of a run -/

theorem final_split (s : σ) (tr₁ : List (Transition σ ε)) (t : Transition σ ε)
    (tr₂ : List (Transition σ ε)) : final s (tr₁ ++ t :: tr₂) = final t.post tr₂ := by
  induction tr₁ generalizing s with
  | nil => exact final_cons s t tr₂
  | cons u tr₁ ih =>
    rw [List.cons_append, final_cons]
    exact ih u.post

theorem trace_split {step : σ → ε → Option σ} (s : σ) (es : List ε) (tr₁ : List (Transition σ ε))
    (t : Transition σ ε) (tr₂ : List (Transition σ ε))
    (htr : trace step s es = some (tr₁ ++ t :: tr₂)) :
    step t.pre t.event = some t.post ∧ ∃ es₂, trace step t.post es₂ = some tr₂ := by
  induction tr₁ generalizing s es with
  | nil =>
    cases es with
    | nil => exact absurd (trace_nil htr) (List.cons_ne_nil t tr₂)
    | cons e es =>
      obtain ⟨s', rest, he, hrest, hcons⟩ := trace_cons htr
      obtain ⟨rfl, rfl⟩ := List.cons.inj hcons
      exact ⟨he, es, hrest⟩
  | cons u tr₁ ih =>
    cases es with
    | nil => exact absurd (trace_nil htr) (List.cons_ne_nil u _)
    | cons e es =>
      obtain ⟨s', rest, -, hrest, hcons⟩ := trace_cons htr
      obtain ⟨-, rfl⟩ := List.cons.inj hcons
      exact ih s' es hrest

/-! ## Invariants along the steps that meet a condition -/

section Rules
variable {step : σ → ε → Option σ} (Inv : σ → Prop) (Cond : σ → ε → Prop)

/-- An invariant kept by every step that meets `Cond` holds throughout a run of such steps. -/
theorem trace_invariant
    (hstep : ∀ s e s', Inv s → Cond s e → step s e = some s' → Inv s')
    (s : σ) (es : List ε) (tr : List (Transition σ ε)) (htr : trace step s es = some tr)
    (hs : Inv s) (hc : ∀ t ∈ tr, Cond t.pre t.event) :
    Inv (final s tr) ∧ ∀ t ∈ tr, Inv t.pre ∧ Inv t.post := by
  induction es generalizing s tr with
  | nil =>
    obtain rfl := trace_nil htr
    exact ⟨hs, by simp⟩
  | cons e es ih =>
    obtain ⟨s', rest, he, hrest, rfl⟩ := trace_cons htr
    have hpost : Inv s' := hstep s e s' hs (hc _ (List.mem_cons_self ..)) he
    obtain ⟨hlast, hall⟩ := ih s' rest hrest hpost (fun t ht => hc t (List.mem_cons_of_mem _ ht))
    refine ⟨by rw [final_cons]; exact hlast, ?_⟩
    intro t ht
    rcases List.mem_cons.mp ht with rfl | ht
    · exact ⟨hs, hpost⟩
    · exact hall t ht

/-- The converse rule: where a step that misses `Cond` always lands outside `Good`, a run that
stays inside `Good` consists of steps that meet `Cond`. The induction carries `Inv` up to the
first step that misses the condition; `Given` is what is known of every step of the run. -/
theorem trace_condition (Given : σ → ε → Prop) (Good : σ → Prop)
    (hstep : ∀ s e s', Inv s → Given s e → Cond s e → step s e = some s' → Inv s')
    (hbreak : ∀ s e s', Inv s → Given s e → step s e = some s' → Good s' → Cond s e)
    (s : σ) (es : List ε) (tr : List (Transition σ ε)) (htr : trace step s es = some tr)
    (hs : Inv s) (hgiven : ∀ t ∈ tr, Given t.pre t.event) (hgood : ∀ t ∈ tr, Good t.post) :
    ∀ t ∈ tr, Cond t.pre t.event := by
  induction es generalizing s tr with
  | nil =>
    obtain rfl := trace_nil htr
    simp
  | cons e es ih =>
    obtain ⟨s', rest, he, hrest, rfl⟩ := trace_cons htr
    have hg : Given s e := hgiven _ (List.mem_cons_self ..)
    have hc : Cond s e := hbreak s e s' hs hg he (hgood _ (List.mem_cons_self ..))
    have hpost : Inv s' := hstep s e s' hs hg hc he
    intro t ht
    rcases List.mem_cons.mp ht with rfl | ht
    · exact hc
    · exact ih s' rest hrest hpost (fun t ht => hgiven t (List.mem_cons_of_mem _ ht))
        (fun t ht => hgood t (List.mem_cons_of_mem _ ht)) t ht

/-- What grows with every step has grown from each state of a run to its last one. -/
theorem trace_grows (R : σ → σ → Prop) (hrefl : ∀ s, R s s)
    (htrans : ∀ a b c, R a b → R b c → R a c) (hstep : ∀ s e s', step s e = some s' → R s s')
    (s : σ) (es : List ε) (tr : List (Transition σ ε)) (htr : trace step s es = some tr) :
    R s (final s tr) ∧ ∀ t ∈ tr, R t.pre (final s tr) := by
  induction es generalizing s tr with
  | nil =>
    obtain rfl := trace_nil htr
    exact ⟨hrefl s, by simp⟩
  | cons e es ih =>
    obtain ⟨s', rest, he, hrest, rfl⟩ := trace_cons htr
    obtain ⟨hlast, hall⟩ := ih s' rest hrest
    have hfirst : R s (final s' rest) := htrans s s' _ (hstep s e s' he) hlast
    rw [final_cons]
    refine ⟨hfirst, ?_⟩
    intro t ht
    rcases List.mem_cons.mp ht with rfl | ht
    · exact hfirst
    · exact hall t ht

/-- An invariant that knows how many of the events so far were of a kind. -/
theorem trace_count (Counted : ℕ → σ → Prop) (kind : ε → Bool)
    (hstep : ∀ n s e s', Counted n s → Cond s e → step s e = some s' →
      Counted (n + if kind e then 1 else 0) s')
    (n : ℕ) (s : σ) (es : List ε) (tr : List (Transition σ ε)) (htr : trace step s es = some tr)
    (hs : Counted n s) (hc : ∀ t ∈ tr, Cond t.pre t.event) :
    Counted (n + tr.countP fun t => kind t.event) (final s tr) := by
  induction es generalizing n s tr with
  | nil =>
    obtain rfl := trace_nil htr
    exact hs
  | cons e es ih =>
    obtain ⟨s', rest, he, hrest, rfl⟩ := trace_cons htr
    have hpost := hstep n s e s' hs (hc _ (List.mem_cons_self ..)) he
    have hlast := ih _ s' rest hrest hpost (fun t ht => hc t (List.mem_cons_of_mem _ ht))
    rw [final_cons, List.countP_cons, Nat.add_comm (List.countP ..), ← Nat.add_assoc]
    exact hlast

/-- A potential that pays for every step bounds what a run costs. -/
theorem trace_cost (potential : σ → ℕ) (cost : ε → ℕ)
    (hstep : ∀ s e s', Inv s → Cond s e → step s e = some s' →
      Inv s' ∧ potential s' + cost e ≤ potential s)
    (s : σ) (es : List ε) (tr : List (Transition σ ε)) (htr : trace step s es = some tr)
    (hs : Inv s) (hc : ∀ t ∈ tr, Cond t.pre t.event) :
    potential (final s tr) + (es.map cost).sum ≤ potential s := by
  induction es generalizing s tr with
  | nil =>
    obtain rfl := trace_nil htr
    exact Nat.le_refl _
  | cons e es ih =>
    obtain ⟨s', rest, he, hrest, rfl⟩ := trace_cons htr
    obtain ⟨hpost, hpay⟩ := hstep s e s' hs (hc _ (List.mem_cons_self ..)) he
    have htail := ih s' rest hrest hpost (fun t ht => hc t (List.mem_cons_of_mem _ ht))
    rw [final_cons, List.map_cons, List.sum_cons]
    show potential (final s' rest) + (cost e + (es.map cost).sum) ≤ potential s
    omega

theorem trace_event_mem (s : σ) (es : List ε) (tr : List (Transition σ ε))
    (htr : trace step s es = some tr) : ∀ t ∈ tr, t.event ∈ es := by
  induction es generalizing s tr with
  | nil =>
    obtain rfl := trace_nil htr
    simp
  | cons e es ih =>
    obtain ⟨s', rest, he, hrest, rfl⟩ := trace_cons htr
    intro t ht
    rcases List.mem_cons.mp ht with rfl | ht
    · exact List.mem_cons_self ..
    · exact List.mem_cons_of_mem _ (ih s' rest hrest t ht)

theorem trace_forall (P : σ → ε → σ → Prop) (hstep : ∀ s e s', step s e = some s' → P s e s')
    (s : σ) (es : List ε) (tr : List (Transition σ ε)) (htr : trace step s es = some tr) :
    ∀ t ∈ tr, P t.pre t.event t.post := by
  induction es generalizing s tr with
  | nil =>
    obtain rfl := trace_nil htr
    simp
  | cons e es ih =>
    obtain ⟨s', rest, he, hrest, rfl⟩ := trace_cons htr
    intro t ht
    rcases List.mem_cons.mp ht with rfl | ht
    · exact hstep s e s' he
    · exact ih s' rest hrest t ht

/-- What is settled in a state of a run was so at the start, or a transition of the run has done
it. -/
theorem trace_record {κ : Type*} (Settled : σ → κ → Prop) (Done : Transition σ ε → κ → Prop)
    (hstep : ∀ s e s', Cond s e → step s e = some s' →
      ∀ k, Settled s' k → Settled s k ∨ Done ⟨s, e, s'⟩ k)
    (s : σ) (es : List ε) (tr : List (Transition σ ε)) (htr : trace step s es = some tr)
    (hc : ∀ t ∈ tr, Cond t.pre t.event) :
    ∀ t ∈ tr, ∀ k, Settled t.post k → Settled s k ∨ ∃ u ∈ tr, Done u k := by
  induction es generalizing s tr with
  | nil =>
    obtain rfl := trace_nil htr
    simp
  | cons e es ih =>
    obtain ⟨s', rest, he, hrest, rfl⟩ := trace_cons htr
    have hfirst : ∀ k, Settled s' k → Settled s k ∨ ∃ u ∈ ⟨s, e, s'⟩ :: rest, Done u k := by
      intro k hk
      obtain hold | hdone := hstep s e s' (hc _ (List.mem_cons_self ..)) he k hk
      · exact Or.inl hold
      · exact Or.inr ⟨_, List.mem_cons_self .., hdone⟩
    intro t ht k hk
    obtain rfl | ht := List.mem_cons.mp ht
    · exact hfirst k hk
    · obtain hnext | ⟨u, hu, hdone⟩ :=
        ih s' rest hrest (fun t ht => hc t (List.mem_cons_of_mem _ ht)) t ht k hk
      · exact hfirst k hnext
      · exact Or.inr ⟨u, List.mem_cons_of_mem _ hu, hdone⟩

/-- Two step functions that agree through `f` have the same runs through `f`. -/
theorem trace_map_post {τ : Type*} {step' : τ → ε → Option τ} (f : σ → τ)
    (hstep : ∀ s e, Inv s → (step s e).map f = step' (f s) e)
    (hinv : ∀ s e s', Inv s → step s e = some s' → Inv s')
    (s : σ) (es : List ε) (hs : Inv s) :
    (trace step s es).map (List.map fun t => f t.post) =
      (trace step' (f s) es).map (List.map Transition.post) := by
  induction es generalizing s with
  | nil => rfl
  | cons e es ih =>
    have hagree := hstep s e hs
    cases hnext : step s e with
    | none =>
      rw [hnext, Option.map_none] at hagree
      rw [trace, trace, hnext, ← hagree]
      rfl
    | some s' =>
      rw [hnext, Option.map_some] at hagree
      have hrest := ih s' (hinv s e s' hs hnext)
      rw [trace, trace, hnext, ← hagree]
      simp only [Option.map_map, Function.comp_def, List.map_cons]
      have hcons := congrArg (Option.map (f s' :: ·)) hrest
      simpa only [Option.map_map, Function.comp_def] using hcons

end Rules

end DpdkTools.Runs
