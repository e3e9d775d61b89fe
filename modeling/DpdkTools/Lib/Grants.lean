import Mathlib.Data.List.Pairwise
import Mathlib.Data.Set.Basic

/-! Allocators as steps on a state, and the logs of their calls.

A grant is owned when the holder keeps it on every later call and nobody else is ever granted it.
For an allocator that never grants a thing twice the second part always holds, and the first comes
down to how often a holder asks. -/
namespace DpdkTools.Grants
set_option autoImplicit false

variable {κ ρ σ : Type}

/-- Calls in order, each with its holder and its grant. -/
abbrev Log (κ ρ : Type) := List (κ × Option ρ)

/-- Once granted, a holder is granted the same again. -/
def Stays (log : Log κ ρ) : Prop :=
  log.Pairwise fun a b => ∀ r, a.2 = some r → b.1 = a.1 → b.2 = some r

/-- What one holder was granted no other holder is granted. -/
def Exclusive (log : Log κ ρ) : Prop :=
  log.Pairwise fun a b => ∀ r, a.2 = some r → b.2 = some r → b.1 = a.1

/-- Nothing is granted twice. -/
def Fresh (log : Log κ ρ) : Prop :=
  log.Pairwise fun a b => ∀ r, a.2 = some r → b.2 ≠ some r

theorem Fresh.exclusive (log : Log κ ρ) (h : Fresh log) : Exclusive log :=
  h.imp fun hab r ha hb => absurd hb (hab r ha)

/-- Without repetition, keeping a grant means never asking again. -/
theorem Fresh.stays_iff (log : Log κ ρ) (h : Fresh log) :
    Stays log ↔ log.Pairwise fun a b => a.2.isSome → b.1 ≠ a.1 := by
  constructor
  · intro hstays
    refine (List.Pairwise.and h hstays).imp ?_
    rintro a b ⟨hfresh, hstay⟩ hsome heq
    obtain ⟨r, hr⟩ := Option.isSome_iff_exists.mp hsome
    exact hfresh r hr (hstay r hr heq)
  · intro honce
    refine honce.imp ?_
    intro a b hne r hr heq
    exact absurd heq (hne (Option.isSome_iff_exists.mpr ⟨r, hr⟩))

/-- The log of an allocator called in turn by the given holders. -/
def logOf (grant : σ → κ → Option ρ × σ) : σ → List κ → Log κ ρ
  | _, [] => []
  | s, c :: calls => (c, (grant s c).1) :: logOf grant (grant s c).2 calls

theorem logOf_holders (grant : σ → κ → Option ρ × σ) (calls : List κ) :
    ∀ s, (logOf grant s calls).map Prod.fst = calls := by
  induction calls with
  | nil =>
    intro s
    rfl
  | cons c calls ih =>
    intro s
    rw [logOf, List.map_cons, ih]

/-- An allocator under an invariant: it grants out of what is left, and what it granted is gone. -/
structure Spends (grant : σ → κ → Option ρ × σ) (inv : σ → Prop) (left : σ → Set ρ) : Prop where
  keeps (s : σ) (c : κ) : inv s → inv (grant s c).2
  shrinks (s : σ) (c : κ) : inv s → left (grant s c).2 ⊆ left s
  granted (s : σ) (c : κ) (r : ρ) : inv s → (grant s c).1 = some r →
    r ∈ left s ∧ r ∉ left (grant s c).2

section Spends
variable (grant : σ → κ → Option ρ × σ) (inv : σ → Prop) (left : σ → Set ρ)

theorem Spends.mem_left (h : Spends grant inv left) (calls : List κ) :
    ∀ s, inv s → ∀ a ∈ logOf grant s calls, ∀ r, a.2 = some r → r ∈ left s := by
  induction calls with
  | nil =>
    intro s _ a ha
    cases ha
  | cons c calls ih =>
    intro s hs a ha r hr
    rcases List.mem_cons.mp ha with rfl | ha
    · exact (h.granted s c r hs hr).1
    · exact h.shrinks s c hs (ih _ (h.keeps s c hs) a ha r hr)

theorem Spends.fresh (h : Spends grant inv left) (calls : List κ) :
    ∀ s, inv s → Fresh (logOf grant s calls) := by
  induction calls with
  | nil =>
    intro s _
    exact List.Pairwise.nil
  | cons c calls ih =>
    intro s hs
    apply List.Pairwise.cons
    · -- what the head was granted is no longer left for the tail
      intro b hb r hr hr'
      have hgone := (h.granted s c r hs hr).2
      exact hgone (h.mem_left grant inv left calls _ (h.keeps s c hs) b hb r hr')
    · exact ih _ (h.keeps s c hs)

end Spends

end DpdkTools.Grants
