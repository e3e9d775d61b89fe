import Mathlib.Algebra.Ring.Nat

/-! Unsigned numbers stored in memory with the most significant byte first. Memory is a function
from offsets to bytes; a store changes its own bytes only, and a load depends on its own only. -/
namespace DpdkTools.BigEndian
set_option autoImplicit false

/-- The number in the `n` bytes at `off`. -/
def load (data : ℕ → UInt8) (off : ℕ) : ℕ → ℕ
  | 0 => 0
  | n + 1 => load data off n * 256 + (data (off + n)).toNat

/-- The memory after the low `n` bytes of `v` were stored at `off`. -/
def store (data : ℕ → UInt8) (off n v : ℕ) : ℕ → UInt8 := fun i =>
  if off ≤ i ∧ i < off + n then UInt8.ofNat (v / 256 ^ (off + n - 1 - i)) else data i

theorem store_outside (data : ℕ → UInt8) (off n v i : ℕ) (h : i < off ∨ off + n ≤ i) :
    store data off n v i = data i := by
  rw [store, if_neg (by omega)]

theorem load_congr (data data' : ℕ → UInt8) (off n : ℕ)
    (h : ∀ i, off ≤ i → i < off + n → data i = data' i) : load data off n = load data' off n := by
  induction n with
  | zero => rfl
  | succ n ih =>
    have hlast : data (off + n) = data' (off + n) := h (off + n) (by omega) (by omega)
    rw [load, load, hlast, ih (fun i hlo hhi => h i hlo (by omega))]

theorem load_store_of_disjoint (data : ℕ → UInt8) (off n v off' n' : ℕ)
    (h : off' + n' ≤ off ∨ off + n ≤ off') :
    load (store data off n v) off' n' = load data off' n' := by
  apply load_congr
  intro i hlo hhi
  exact store_outside data off n v i (by omega)

/-- The first `k` of the stored bytes are the number without its last `n - k` bytes. -/
theorem load_store_take (data : ℕ → UInt8) (off n v k : ℕ) (h : k ≤ n) :
    load (store data off n v) off k = v / 256 ^ (n - k) % 256 ^ k := by
  induction k with
  | zero => rw [load, Nat.pow_zero, Nat.mod_one]
  | succ k ih =>
    have hbyte : (store data off n v (off + k)).toNat = v / 256 ^ (n - (k + 1)) % 256 := by
      rw [store, if_pos ⟨by omega, by omega⟩, UInt8.toNat_ofNat',
        show off + n - 1 - (off + k) = n - (k + 1) by omega]
    have hshift : v / 256 ^ (n - k) = v / 256 ^ (n - (k + 1)) / 256 := by
      have hexp : n - k = n - (k + 1) + 1 := by omega
      rw [hexp, Nat.pow_succ, Nat.div_div_eq_div_mul]
    rw [load, ih (by omega), hbyte, hshift, Nat.pow_succ', Nat.mod_mul]
    omega

theorem load_store (data : ℕ → UInt8) (off n v : ℕ) :
    load (store data off n v) off n = v % 256 ^ n := by
  rw [load_store_take data off n v n (Nat.le_refl n), Nat.sub_self, Nat.pow_zero, Nat.div_one]

theorem load_lt (data : ℕ → UInt8) (off n : ℕ) : load data off n < 256 ^ n := by
  induction n with
  | zero => exact Nat.one_pos
  | succ n ih =>
    have hlast : (data (off + n)).toNat < 256 := (data (off + n)).toNat_lt
    rw [load, Nat.pow_succ]
    omega

/-- The first bytes of a number are the number without its last bytes. -/
theorem load_take (data : ℕ → UInt8) (off n k : ℕ) (h : k ≤ n) :
    load data off k = load data off n / 256 ^ (n - k) := by
  induction n with
  | zero =>
    obtain rfl : k = 0 := by omega
    rw [Nat.sub_self, Nat.pow_zero, Nat.div_one]
  | succ n ih =>
    rcases Nat.lt_or_eq_of_le h with hlt | rfl
    · have hexp : n + 1 - k = n - k + 1 := by omega
      have hlast : (data (off + n)).toNat < 256 := (data (off + n)).toNat_lt
      have hdrop : (load data off n * 256 + (data (off + n)).toNat) / 256 = load data off n := by
        omega
      rw [load, hexp, Nat.pow_succ', ← Nat.div_div_eq_div_mul, hdrop, ih (by omega)]
    · rw [Nat.sub_self, Nat.pow_zero, Nat.div_one]

/-- Each byte read, most significant first. -/
theorem byte_eq_load (data : ℕ → UInt8) (off n i : ℕ) (h : i < n) :
    data (off + i) = UInt8.ofNat (load data off n / 256 ^ (n - 1 - i)) := by
  have htake := load_take data off n (i + 1) h
  have hexp : n - (i + 1) = n - 1 - i := by omega
  have hlast : (data (off + i)).toNat < 256 := (data (off + i)).toNat_lt
  rw [← hexp, ← htake, load]
  apply UInt8.toNat_inj.mp
  rw [UInt8.toNat_ofNat']
  omega

end DpdkTools.BigEndian
