import Mathlib.Data.List.Basic
import Mathlib.Data.List.Rotate

/-! Fixed-size arrays of pointers, as C++ code uses them: a prefix in use, writes at an offset,
and the overlapping block copies of the standard library. The length is a field, so every
operation returns an array of the same size. -/
namespace DpdkTools
set_option autoImplicit false

/-- An array of `size` cells. Cells that were never written hold an arbitrary value. -/
structure Slots (α : Type) (size : ℕ) where
  cells : List α
  length_cells : cells.length = size

namespace Slots
variable {α : Type} {size : ℕ}

def front (a : Slots α size) (n : ℕ) : List α := a.cells.take n

/-- `len` cells from `off` on, the slice `data() + off, len` of a call. -/
def slice (a : Slots α size) (off len : ℕ) : List α := (a.cells.drop off).take len

def slice? (a : Slots α size) (off len : ℕ) : Option (List α) :=
  if off + len ≤ size then some (a.slice off len) else none

/-- One assignment `a[i] = x`; outside the array there is no defined result. -/
def write (a : Slots α size) (i : ℕ) (x : α) : Option (Slots α size) :=
  if i < size then some ⟨a.cells.set i x, by simp [a.length_cells]⟩ else none

def store (a : Slots α size) (off : ℕ) (xs : List α) (h : off + xs.length ≤ size) :
    Slots α size where
  cells := a.cells.take off ++ xs ++ a.cells.drop (off + xs.length)
  length_cells := by
    simp only [List.length_append, List.length_take, List.length_drop, a.length_cells]
    omega

/-- The loop of `std::copy_backward`: `while (first != last) *(--d_last) = *(--last);`, with
`count` the number of rounds left. -/
def copyBackwardCells (xs : List α) : ℕ → ℕ → ℕ → List α
  | 0, _, _ => xs
  | count + 1, last, dLast =>
    match xs[last - 1]? with
    | some x => copyBackwardCells (xs.set (dLast - 1) x) count (last - 1) (dLast - 1)
    | none => xs

theorem copyBackwardCells_length (xs : List α) (count last dLast : ℕ) :
    (copyBackwardCells xs count last dLast).length = xs.length := by
  induction count generalizing xs last dLast with
  | zero => rfl
  | succ count ih =>
    unfold copyBackwardCells
    cases xs[last - 1]? with
    | none => rfl
    | some x => rw [ih, List.length_set]

/-- `std::copy_backward(begin + first, begin + last, begin + dLast)`. -/
def copyBackward (a : Slots α size) (first last dLast : ℕ) : Slots α size where
  cells := copyBackwardCells a.cells (last - first) last dLast
  length_cells := by rw [copyBackwardCells_length, a.length_cells]

/-! ## What the operations leave in the front part -/

theorem front_length (a : Slots α size) (n : ℕ) (h : n ≤ size) : (a.front n).length = n := by
  rw [front, List.length_take, a.length_cells]
  omega

theorem front_store (a : Slots α size) (off : ℕ) (xs : List α) (h : off + xs.length ≤ size) :
    (a.store off xs h).front (off + xs.length) = a.front off ++ xs := by
  have hlen : (a.cells.take off ++ xs).length = off + xs.length := by
    rw [List.length_append, List.length_take, a.length_cells]
    omega
  rw [front, store, List.take_append_of_le_length (Nat.le_of_eq hlen.symm),
    List.take_of_length_le (Nat.le_of_eq hlen), front]

theorem copyBackwardCells_take (xs : List α) (count last dLast m : ℕ) (h : m + count ≤ dLast) :
    (copyBackwardCells xs count last dLast).take m = xs.take m := by
  induction count generalizing xs last dLast with
  | zero => rfl
  | succ count ih =>
    unfold copyBackwardCells
    cases xs[last - 1]? with
    | none => rfl
    | some x =>
      have hm : m ≤ dLast - 1 := by omega
      rw [ih _ _ _ (by omega), List.take_set_of_le hm]

theorem front_copyBackward (a : Slots α size) (first last dLast m : ℕ)
    (h : m + (last - first) ≤ dLast) : (a.copyBackward first last dLast).front m = a.front m :=
  copyBackwardCells_take a.cells (last - first) last dLast m h

/-! ## Copying the end of the array to its front -/

/-- While the target lies below the source, a cell inside the target gets what its source holds
in the end: the cells are visited from the last one down, so a source inside the target has its
final value when it is read. -/
theorem copyBackwardCells_getElem? (xs : List α) (count last dLast t : ℕ) (hd : dLast < last)
    (hl : last ≤ xs.length) (hc : count ≤ dLast) :
    (copyBackwardCells xs count last dLast)[t]? =
      if t < dLast - count ∨ dLast ≤ t then xs[t]?
      else (copyBackwardCells xs count last dLast)[t + (last - dLast)]? := by
  induction count generalizing xs last dLast t with
  | zero => rw [if_pos (by omega), copyBackwardCells]
  | succ count ih =>
    have hsrc : xs[last - 1]? = some xs[last - 1] := List.getElem?_eq_getElem (by omega)
    have hcopy : copyBackwardCells xs (count + 1) last dLast =
        copyBackwardCells (xs.set (dLast - 1) xs[last - 1]) count (last - 1) (dLast - 1) := by
      rw [copyBackwardCells, hsrc]
    have hrest : ∀ u, _ := fun u =>
      ih (xs.set (dLast - 1) xs[last - 1]) (last - 1) (dLast - 1) u (by omega)
        (by rw [List.length_set]; omega) (by omega)
    have hgap : last - 1 - (dLast - 1) = last - dLast := by omega
    rw [hcopy]
    by_cases htop : t = dLast - 1
    · have hsame : t + (last - dLast) = last - 1 := by omega
      rw [if_neg (by omega), hsame, hrest t, if_pos (by omega), hrest (last - 1),
        if_pos (by omega), htop, List.getElem?_set_self (by omega),
        List.getElem?_set_ne (by omega), hsrc]
    · rw [hrest t, hgap]
      by_cases hin : t < dLast - 1 - count ∨ dLast - 1 ≤ t
      · rw [if_pos hin, if_pos (by omega), List.getElem?_set_ne (by omega)]
      · rw [if_neg hin, if_neg (by omega)]

/-- Copied to the front, the cells from `sent` on repeat with their number. -/
theorem copyBackwardCells_periodic (xs : List α) (sent t : ℕ) (hs : sent < xs.length)
    (ht : t < xs.length) :
    (copyBackwardCells xs sent xs.length sent)[t]? =
      (copyBackwardCells xs sent xs.length sent)[t % (xs.length - sent)]? := by
  induction t using Nat.strong_induction_on with
  | _ t ih =>
    by_cases hlow : t < xs.length - sent
    · rw [Nat.mod_eq_of_lt hlow]
    · have hstep := copyBackwardCells_getElem? xs sent xs.length sent (t - (xs.length - sent)) hs
        (Nat.le_refl _) (Nat.le_refl _)
      rw [if_neg (by omega), show t - (xs.length - sent) + (xs.length - sent) = t by omega] at hstep
      rw [← hstep, ih (t - (xs.length - sent)) (by omega) (by omega),
        Nat.mod_eq_sub_mod (by omega : xs.length - sent ≤ t)]

/-- What is copied to the front is the end of the array, turned by `sent` places. -/
theorem rotate_front_copyBackward (a : Slots α size) (sent : ℕ) (h : sent < size) :
    ((a.copyBackward (size - sent) size sent).front (size - sent)).rotate sent =
      a.cells.drop sent := by
  have hlen := a.length_cells
  have hcells : (a.copyBackward (size - sent) size sent).cells =
      copyBackwardCells a.cells sent a.cells.length sent := by
    change copyBackwardCells a.cells (size - (size - sent)) size sent = _
    rw [hlen, show size - (size - sent) = sent by omega]
  have hfront := (a.copyBackward (size - sent) size sent).front_length (size - sent) (by omega)
  apply List.ext_getElem?
  intro i
  by_cases hi : i < size - sent
  · have hper := copyBackwardCells_periodic a.cells sent (sent + i) (by omega) (by omega)
    have hkeep := copyBackwardCells_getElem? a.cells sent a.cells.length sent (sent + i) (by omega)
      (Nat.le_refl _) (Nat.le_refl _)
    have hmod : (i + sent) % (size - sent) < size - sent := Nat.mod_lt _ (by omega)
    rw [if_pos (by omega), hper, Nat.add_comm sent i, hlen] at hkeep
    rw [List.getElem?_rotate (by rw [hfront]; exact hi), hfront, front,
      List.getElem?_take_of_lt hmod, hcells, hlen, hkeep, List.getElem?_drop, Nat.add_comm]
  · rw [List.getElem?_eq_none (by rw [List.length_rotate, hfront]; omega),
      List.getElem?_eq_none (by rw [List.length_drop]; omega)]

end Slots

end DpdkTools
