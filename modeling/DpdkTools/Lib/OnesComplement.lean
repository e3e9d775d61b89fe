import Mathlib.Algebra.Ring.Nat

/-! The one's-complement sum of 16-bit words, as Internet checksums use it.

A sum of words is reduced to 16 bits by adding the carries back in, so that it counts modulo 65535.
Of the two zeros, 0 is the sum of nothing but zeros and 65535 every other multiple. A message
verifies when its sum, the checksum field included, is 65535. -/
namespace DpdkTools.OnesComplement
set_option autoImplicit false

/-- The word at `off`, its first byte the less significant one. -/
def word (data : ℕ → UInt8) (off : ℕ) : ℕ := (data off).toNat + (data (off + 1)).toNat * 256

/-- The sum of the words in the `n` bytes at `off`. An odd last byte has a 0 behind it. -/
def sum (data : ℕ → UInt8) : ℕ → ℕ → ℕ
  | _, 0 => 0
  | off, 1 => (data off).toNat
  | off, n + 2 => word data off + sum data (off + 2) n

def fold (n : ℕ) : ℕ := if n = 0 then 0 else (n - 1) % 65535 + 1

def Verifies (data : ℕ → UInt8) (off n : ℕ) : Prop := fold (sum data off n) = 65535

instance (data : ℕ → UInt8) (off n : ℕ) : Decidable (Verifies data off n) :=
  inferInstanceAs (Decidable (_ = _))

/-! ## Reduction to 16 bits -/

theorem fold_le (n : ℕ) : fold n ≤ 65535 := by
  unfold fold
  split_ifs
  · omega
  · omega

theorem fold_mod (n : ℕ) : fold n % 65535 = n % 65535 := by
  unfold fold
  split_ifs with h
  · rw [h]
  · omega

theorem fold_eq_full_iff (n : ℕ) : fold n = 65535 ↔ 0 < n ∧ n % 65535 = 0 := by
  unfold fold
  split_ifs with h
  · simp [h]
  · omega

theorem verifies_iff (data : ℕ → UInt8) (off n : ℕ) :
    Verifies data off n ↔ 0 < sum data off n ∧ sum data off n % 65535 = 0 :=
  fold_eq_full_iff _

/-! ## Sums -/

section Sums
variable (data data' : ℕ → UInt8)

theorem sum_congr (off n : ℕ) (h : ∀ i, off ≤ i → i < off + n → data i = data' i) :
    sum data off n = sum data' off n := by
  induction off, n using sum.induct with
  | case1 off => rfl
  | case2 off => rw [sum, sum, h off (Nat.le_refl _) (by omega)]
  | case3 off n ih =>
    have hword : word data off = word data' off := by
      rw [word, word, h off (Nat.le_refl _) (by omega), h (off + 1) (by omega) (by omega)]
    rw [sum, sum, hword, ih fun i hlo hhi => h i (by omega) (by omega)]

theorem sum_split (off k n : ℕ) :
    sum data off (2 * k + n) = sum data off (2 * k) + sum data (off + 2 * k) n := by
  induction k generalizing off with
  | zero => simp [sum]
  | succ k ih =>
    rw [show 2 * (k + 1) + n = (2 * k + n) + 2 by omega, show 2 * (k + 1) = 2 * k + 2 by omega, sum,
      sum, ih, show off + 2 + 2 * k = off + (2 * k + 2) by omega, Nat.add_assoc]

/-- The sum around the word at `off + 2 * i`. -/
theorem sum_around (off i n : ℕ) (h : 2 * i + 2 ≤ n) :
    sum data off n = sum data off (2 * i) + word data (off + 2 * i) +
      sum data (off + 2 * i + 2) (n - (2 * i + 2)) := by
  obtain ⟨r, rfl⟩ : ∃ r, n = 2 * i + (r + 2) := ⟨n - (2 * i + 2), by omega⟩
  rw [sum_split, sum, show 2 * i + (r + 2) - (2 * i + 2) = r by omega]
  omega

/-- One word is replaced. -/
theorem sum_replace (off i n : ℕ) (h : 2 * i + 2 ≤ n)
    (hsame : ∀ j, off ≤ j → j < off + n → j ≠ off + 2 * i → j ≠ off + 2 * i + 1 →
      data j = data' j) :
    sum data' off n + word data (off + 2 * i) = sum data off n + word data' (off + 2 * i) := by
  have hfront : sum data off (2 * i) = sum data' off (2 * i) :=
    sum_congr data data' off (2 * i) fun j hlo hhi => hsame j hlo (by omega) (by omega) (by omega)
  have hback : sum data (off + 2 * i + 2) (n - (2 * i + 2)) =
      sum data' (off + 2 * i + 2) (n - (2 * i + 2)) :=
    sum_congr data data' _ _ fun j hlo hhi => hsame j (by omega) (by omega) (by omega) (by omega)
  rw [sum_around data off i n h, sum_around data' off i n h, hfront, hback]
  omega

theorem word_eq_zero_iff (off : ℕ) : word data off = 0 ↔ data off = 0 ∧ data (off + 1) = 0 := by
  have hzero : ∀ b : UInt8, b = 0 ↔ b.toNat = 0 := fun b => UInt8.toNat_inj.symm
  rw [word, hzero, hzero]
  omega

theorem sum_eq_zero_iff (off n : ℕ) : sum data off n = 0 ↔ ∀ i < n, data (off + i) = 0 := by
  induction off, n using sum.induct with
  | case1 off => simp [sum]
  | case2 off =>
    rw [sum]
    constructor
    · intro h i hi
      obtain rfl : i = 0 := by omega
      exact UInt8.toNat_inj.mp h
    · intro h
      exact congrArg UInt8.toNat (h 0 Nat.one_pos)
  | case3 off n ih =>
    rw [sum, Nat.add_eq_zero_iff, word_eq_zero_iff, ih]
    constructor
    · rintro ⟨⟨h0, h1⟩, hrest⟩ i hi
      match i, hi with
      | 0, _ => exact h0
      | 1, _ => exact h1
      | i + 2, hi =>
        rw [show off + (i + 2) = off + 2 + i by omega]
        exact hrest i (by omega)
    · intro h
      refine ⟨⟨h 0 (by omega), h 1 (by omega)⟩, ?_⟩
      intro i hi
      rw [show off + 2 + i = off + (i + 2) by omega]
      exact h (i + 2) (by omega)

/-- The sum behind the first four bytes is zero only if all of them are. -/
theorem exists_nonzero_iff (off n : ℕ) :
    (∃ i, 4 ≤ i ∧ i < n ∧ data (off + i) ≠ 0) ↔ sum data (off + 4) (n - 4) ≠ 0 := by
  rw [ne_eq, sum_eq_zero_iff, not_forall]
  constructor
  · rintro ⟨i, hlo, hhi, hne⟩
    refine ⟨i - 4, fun hz => hne ?_⟩
    rw [← hz (by omega), show off + 4 + (i - 4) = off + i by omega]
  · rintro ⟨i, hi⟩
    rw [Classical.not_imp] at hi
    refine ⟨i + 4, by omega, by omega, ?_⟩
    rw [show off + (i + 4) = off + 4 + i by omega]
    exact hi.2

theorem sum_pos (off n : ℕ) (hn : 0 < n) (h : data off ≠ 0) : 0 < sum data off n := by
  apply Nat.pos_of_ne_zero
  intro hzero
  exact h ((sum_eq_zero_iff data off n).mp hzero 0 hn)

end Sums

/-! ## Filling in a checksum -/

/-- A message that sums to `s` is given the complement of the sum of `s` and `extra` as its
checksum: it verifies exactly if `extra` is a zero. -/
theorem verifies_fill_iff (data : ℕ → UInt8) (off n s extra : ℕ) (hs : 0 < s)
    (hsum : sum data off n = s + (65535 - fold (s + extra))) :
    Verifies data off n ↔ extra % 65535 = 0 := by
  have hmod := fold_mod (s + extra)
  have hle := fold_le (s + extra)
  rw [verifies_iff, hsum]
  omega

end DpdkTools.OnesComplement
