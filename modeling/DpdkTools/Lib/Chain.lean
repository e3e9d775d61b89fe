import Mathlib.Data.List.Basic

/-! Singly linked chains: the list of the nodes reached from a first one by following `next` to its
end, and how it grows at the end. -/
namespace DpdkTools.Chain
set_option autoImplicit false

variable {α : Type*}

/-- `next` leads from each node of the list to the one behind it, and ends at the last. -/
inductive Linked (next : α → Option α) : List α → Prop
  | single (p : α) (h : next p = none) : Linked next [p]
  | cons (p q : α) (ps : List α) (h : next p = some q) (ht : Linked next (q :: ps)) :
      Linked next (p :: q :: ps)

/-- The nodes from `p` on, at most `n` of them. -/
def walk (next : α → Option α) : ℕ → Option α → List α
  | 0, _ => []
  | _ + 1, none => []
  | n + 1, some p => p :: walk next n (next p)

theorem Linked.congr {next next' : α → Option α} {ps : List α} (h : Linked next ps)
    (hsame : ∀ p ∈ ps, next' p = next p) : Linked next' ps := by
  induction h with
  | single p h => exact .single p ((hsame p (List.mem_cons_self ..)).trans h)
  | cons p q ps h ht ih =>
    refine .cons p q ps ((hsame p (List.mem_cons_self ..)).trans h) (ih ?_)
    intro r hr
    exact hsame r (List.mem_cons_of_mem p hr)

/-- A node is hung on the last one. -/
theorem Linked.snoc {next next' : α → Option α} {ps : List α} {last q : α}
    (h : Linked next (ps ++ [last])) (hsame : ∀ p ∈ ps, next' p = next p)
    (hlast : next' last = some q) (hend : next' q = none) : Linked next' (ps ++ [last, q]) := by
  induction ps with
  | nil => exact .cons last q [] hlast (.single q hend)
  | cons p ps ih =>
    have htail : ∀ r ∈ ps, next' r = next r := fun r hr => hsame r (List.mem_cons_of_mem p hr)
    have hp := hsame p (List.mem_cons_self ..)
    cases ps with
    | nil =>
      cases h with
      | cons _ _ _ hnext ht => exact .cons p last [q] (hp.trans hnext) (ih ht htail)
    | cons r ps =>
      cases h with
      | cons _ _ _ hnext ht => exact .cons p r _ (hp.trans hnext) (ih ht htail)

/-- Following a chain to its end visits its nodes, in order. -/
theorem Linked.walk_eq {next : α → Option α} {p : α} {ps : List α} (h : Linked next (p :: ps)) :
    walk next (ps.length + 1) (some p) = p :: ps := by
  induction ps generalizing p with
  | nil => rfl
  | cons q ps ih =>
    cases h with
    | cons _ _ _ hnext ht =>
      rw [List.length_cons, walk, hnext, ih ht]

end DpdkTools.Chain
