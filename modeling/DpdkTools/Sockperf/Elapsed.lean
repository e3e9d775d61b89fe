import Mathlib.Algebra.Order.Field.Rat
import Mathlib.Algebra.Order.Field.Basic
import Mathlib.Tactic.FieldSimp
import Mathlib.Tactic.Linarith
import Mathlib.Tactic.Ring

/-! Elapsed times measured with `ns_timer` (`dpdkx/utils.hpp`).

The timer multiplies the cycle counter by `10 ^ 9` in 64 bits and divides by the frequency
afterwards. A product that passes `2 ^ 64` starts again from zero, so the readings repeat with
the window of `2 ^ 64` the product lies in. -/
namespace DpdkTools.Sockperf
set_option autoImplicit false

def nsPerS : UInt64 := 1000000000

/-- `ns_timer()`, with the answers of `rte_get_timer_hz` and `rte_get_timer_cycles`. -/
def nsTimer (hz cycles : UInt64) : UInt64 := cycles * nsPerS / hz

/-- The count of `std::chrono::nanoseconds{x}`, a signed 64-bit number. -/
def nanoseconds (x : UInt64) : ℤ := x.toBitVec.toInt

/-- `packet_rtt` of `statistics::process`. -/
def packetRtt (enqueuedRx sent : UInt64) : ℤ := nanoseconds (enqueuedRx - sent)

/-- The latency `latency_test_job::process` stores, before it is scaled to microseconds. -/
def latency (receivedAt sentAt : UInt64) : ℤ := nanoseconds (receivedAt - sentAt)

/-! ## Readings and windows -/

def product (cycles : UInt64) : ℕ := cycles.toNat * 10 ^ 9

theorem nsTimer_toNat (hz cycles : UInt64) :
    (nsTimer hz cycles).toNat = product cycles % 2 ^ 64 / hz.toNat := by
  rw [nsTimer, UInt64.toNat_div, UInt64.toNat_mul]
  rfl

theorem product_mono (c₁ c₂ : UInt64) (h : c₁ ≤ c₂) : product c₁ ≤ product c₂ :=
  Nat.mul_le_mul_right _ (UInt64.le_iff_toNat_le.mp h)

theorem nanoseconds_sub (x y : UInt64) (h : y ≤ x) :
    nanoseconds (x - y) = if x.toNat - y.toNat < 2 ^ 63 then (x.toNat : ℤ) - y.toNat
      else (x.toNat : ℤ) - y.toNat - 2 ^ 64 := by
  have hle : y.toNat ≤ x.toNat := UInt64.le_iff_toNat_le.mp h
  have hx : x.toNat < 2 ^ 64 := x.toNat_lt
  have hsub : (x - y).toBitVec.toNat = x.toNat - y.toNat := by
    rw [UInt64.toNat_toBitVec]
    exact UInt64.toNat_sub_of_le x y h
  rw [nanoseconds, BitVec.toInt_eq_toNat_cond, hsub]
  split_ifs <;> omega

/-! ## What is asked of a measurement -/

/-- The time between two readings, and the elapsed time in nanoseconds, differ by at most one;
and the later reading is not the smaller one. -/
structure ElapsedSound (hz c₁ c₂ : UInt64) : Prop where
  mono : nsTimer hz c₁ ≤ nsTimer hz c₂
  rtt : |(packetRtt (nsTimer hz c₂) (nsTimer hz c₁) : ℚ)
    - ((c₂.toNat : ℚ) - c₁.toNat) * 10 ^ 9 / hz.toNat| ≤ 1
  latency : |(latency (nsTimer hz c₂) (nsTimer hz c₁) : ℚ)
    - ((c₂.toNat : ℚ) - c₁.toNat) * 10 ^ 9 / hz.toNat| ≤ 1

/-- Both products lie in one window of `2 ^ 64`, and the elapsed time fits a signed count. Above
`2 ^ 63` Hz every reading is 0 or 1, so there the elapsed time itself has to be as short. -/
def InOneWindow (hz c₁ c₂ : UInt64) : Prop :=
  if hz.toNat ≤ 2 ^ 63 then
    product c₁ / 2 ^ 64 = product c₂ / 2 ^ 64 ∧ product c₂ - product c₁ < 2 ^ 63 * hz.toNat
  else if product c₁ % 2 ^ 64 < hz.toNat ∧ hz.toNat ≤ product c₂ % 2 ^ 64 then
    product c₂ - product c₁ ≤ 2 * hz.toNat
  else
    (product c₁ % 2 ^ 64 < hz.toNat ↔ product c₂ % 2 ^ 64 < hz.toNat) ∧
      product c₂ - product c₁ ≤ hz.toNat

instance (hz c₁ c₂ : UInt64) : Decidable (InOneWindow hz c₁ c₂) :=
  inferInstanceAs (Decidable (ite _ _ _))

theorem within_one_iff (r d hz : ℤ) (h : 0 < hz) :
    |(r : ℚ) - (d : ℚ) / (hz : ℚ)| ≤ 1 ↔ r * hz - d ≤ hz ∧ d - r * hz ≤ hz := by
  have hq : (0 : ℚ) < (hz : ℚ) := by exact_mod_cast h
  have heq : (r : ℚ) - (d : ℚ) / hz = ((r * hz - d : ℤ) : ℚ) / hz := by
    push_cast
    field_simp
  rw [heq, abs_div, abs_of_pos hq, div_le_one hq, abs_le]
  constructor
  · intro hb
    have h1 : -hz ≤ r * hz - d := by exact_mod_cast hb.1
    have h2 : r * hz - d ≤ hz := by exact_mod_cast hb.2
    exact ⟨h2, by linarith⟩
  · intro hb
    have h1 : -hz ≤ r * hz - d := by linarith [hb.2]
    exact ⟨by exact_mod_cast h1, by exact_mod_cast hb.1⟩

/-- The measurement in whole numbers: `r` times the frequency against the product difference. -/
theorem elapsedSound_iff (hz c₁ c₂ : UInt64) (hpos : 0 < hz) :
    ElapsedSound hz c₁ c₂ ↔ nsTimer hz c₁ ≤ nsTimer hz c₂ ∧
      packetRtt (nsTimer hz c₂) (nsTimer hz c₁) * hz.toNat - (product c₂ - product c₁ : ℤ)
        ≤ hz.toNat ∧
      (product c₂ - product c₁ : ℤ)
        - packetRtt (nsTimer hz c₂) (nsTimer hz c₁) * hz.toNat ≤ hz.toNat := by
  have hz0 : (0 : ℤ) < (hz.toNat : ℤ) := by
    have : 0 < hz.toNat := UInt64.lt_iff_toNat_lt.mp hpos
    exact_mod_cast this
  have hd : ((c₂.toNat : ℚ) - c₁.toNat) * 10 ^ 9 = ((product c₂ - product c₁ : ℤ) : ℚ) := by
    rw [product, product]
    push_cast
    ring
  have hiff := within_one_iff (packetRtt (nsTimer hz c₂) (nsTimer hz c₁))
    (product c₂ - product c₁) hz.toNat hz0
  rw [Int.cast_natCast, ← hd] at hiff
  constructor
  · intro h
    exact ⟨h.mono, hiff.mp h.rtt⟩
  · intro h
    have hw := hiff.mpr h.2
    exact ⟨h.1, hw, hw⟩

/-! ## One reading against the product it comes from -/

/-- Reading `n` of product `p`: `w` windows passed, and `x`, the part of the rest that `n` whole
periods make up. -/
theorem reading_parts (p hz : ℕ) (h : 0 < hz) :
    p = 2 ^ 64 * (p / 2 ^ 64) + p % 2 ^ 64 ∧
      hz * (p % 2 ^ 64 / hz) ≤ p % 2 ^ 64 ∧ p % 2 ^ 64 < hz * (p % 2 ^ 64 / hz) + hz := by
  refine ⟨(Nat.div_add_mod p (2 ^ 64)).symm, Nat.mul_div_le _ _, ?_⟩
  have hmod := Nat.mod_lt (p % 2 ^ 64) h
  have hsum := Nat.div_add_mod (p % 2 ^ 64) hz
  omega

/-- A frequency above `2 ^ 63` leaves two readings. -/
theorem reading_fast (r hz : ℕ) (hr : r < 2 ^ 64) (hf : 2 ^ 63 < hz) :
    r / hz = if r < hz then 0 else 1 := by
  split_ifs with h
  · exact Nat.div_eq_of_lt h
  · rw [Nat.div_eq_iff (by omega)]
    omega

section Core
variable (hz p₁ p₂ : ℕ)

theorem window_of_sound (hpos : 0 < hz) (hle : p₁ ≤ p₂) (hf : hz ≤ 2 ^ 63)
    (r : ℤ)
    (hr : r = if p₂ % 2 ^ 64 / hz - p₁ % 2 ^ 64 / hz < 2 ^ 63
      then ((p₂ % 2 ^ 64 / hz : ℕ) : ℤ) - (p₁ % 2 ^ 64 / hz : ℕ)
      else ((p₂ % 2 ^ 64 / hz : ℕ) : ℤ) - (p₁ % 2 ^ 64 / hz : ℕ) - 2 ^ 64)
    (hclose : (p₂ - p₁ : ℤ) - r * hz ≤ hz) :
    p₁ / 2 ^ 64 = p₂ / 2 ^ 64 ∧ p₂ - p₁ < 2 ^ 63 * hz := by
  obtain ⟨e₁, lo₁, hi₁⟩ := reading_parts p₁ hz hpos
  obtain ⟨e₂, lo₂, hi₂⟩ := reading_parts p₂ hz hpos
  have hw : p₁ / 2 ^ 64 ≤ p₂ / 2 ^ 64 := Nat.div_le_div_right hle
  generalize p₁ % 2 ^ 64 / hz = n₁ at *
  generalize p₂ % 2 ^ 64 / hz = n₂ at *
  by_cases hs : n₂ - n₁ < 2 ^ 63
  · rw [if_pos hs] at hr
    have hmul : r * hz = (hz * n₂ : ℕ) - (hz * n₁ : ℕ) := by
      rw [hr]
      push_cast
      ring
    have hgap : hz * n₂ ≤ hz * n₁ + hz * (2 ^ 63 - 1) := by
      rw [← Nat.mul_add]
      exact Nat.mul_le_mul_left hz (by omega)
    rw [hmul] at hclose
    generalize hz * n₁ = x₁ at *
    generalize hz * n₂ = x₂ at *
    exact ⟨by omega, by omega⟩
  · -- a count read as negative is further off than any elapsed time allows
    rw [if_neg hs] at hr
    have hmul : r * hz = (hz * n₂ : ℕ) - (hz * n₁ : ℕ) - 2 ^ 64 * hz := by
      rw [hr]
      push_cast
      ring
    rw [hmul] at hclose
    generalize hz * n₁ = x₁ at *
    generalize hz * n₂ = x₂ at *
    omega

theorem sound_of_window (hpos : 0 < hz) (hle : p₁ ≤ p₂) (hw : p₁ / 2 ^ 64 = p₂ / 2 ^ 64)
    (hd : p₂ - p₁ < 2 ^ 63 * hz) :
    p₁ % 2 ^ 64 / hz ≤ p₂ % 2 ^ 64 / hz ∧ p₂ % 2 ^ 64 / hz - p₁ % 2 ^ 64 / hz < 2 ^ 63 ∧
      (((p₂ % 2 ^ 64 / hz : ℕ) : ℤ) - (p₁ % 2 ^ 64 / hz : ℕ)) * hz - (p₂ - p₁ : ℤ) ≤ hz ∧
      (p₂ - p₁ : ℤ) - (((p₂ % 2 ^ 64 / hz : ℕ) : ℤ) - (p₁ % 2 ^ 64 / hz : ℕ)) * hz ≤ hz := by
  obtain ⟨e₁, lo₁, hi₁⟩ := reading_parts p₁ hz hpos
  obtain ⟨e₂, lo₂, hi₂⟩ := reading_parts p₂ hz hpos
  have hn : p₁ % 2 ^ 64 / hz ≤ p₂ % 2 ^ 64 / hz := Nat.div_le_div_right (by omega)
  have hs : p₂ % 2 ^ 64 / hz - p₁ % 2 ^ 64 / hz < 2 ^ 63 := by
    by_cases hone : hz = 1
    · subst hone
      rw [Nat.div_one, Nat.div_one]
      omega
    · have htwo : p₂ % 2 ^ 64 / hz ≤ p₂ % 2 ^ 64 / 2 := Nat.div_le_div_left (by omega) (by omega)
      exact Nat.lt_of_le_of_lt (Nat.le_trans (Nat.sub_le _ _) htwo) (by omega)
  have hmul : (((p₂ % 2 ^ 64 / hz : ℕ) : ℤ) - (p₁ % 2 ^ 64 / hz : ℕ)) * hz
      = (hz * (p₂ % 2 ^ 64 / hz) : ℕ) - (hz * (p₁ % 2 ^ 64 / hz) : ℕ) := by
    push_cast
    ring
  rw [hmul]
  generalize hz * (p₁ % 2 ^ 64 / hz) = x₁ at *
  generalize hz * (p₂ % 2 ^ 64 / hz) = x₂ at *
  exact ⟨hn, hs, by omega, by omega⟩

/-- With two readings only, the measurement is right when the elapsed time is no longer than
the step between them allows. -/
theorem fast_sound_iff (hle : p₁ ≤ p₂) (hf : 2 ^ 63 < hz) :
    (p₁ % 2 ^ 64 / hz ≤ p₂ % 2 ^ 64 / hz ∧
      (((p₂ % 2 ^ 64 / hz : ℕ) : ℤ) - (p₁ % 2 ^ 64 / hz : ℕ)) * hz - (p₂ - p₁ : ℤ) ≤ hz ∧
      (p₂ - p₁ : ℤ) - (((p₂ % 2 ^ 64 / hz : ℕ) : ℤ) - (p₁ % 2 ^ 64 / hz : ℕ)) * hz ≤ hz) ↔
    (if p₁ % 2 ^ 64 < hz ∧ hz ≤ p₂ % 2 ^ 64 then p₂ - p₁ ≤ 2 * hz
      else (p₁ % 2 ^ 64 < hz ↔ p₂ % 2 ^ 64 < hz) ∧ p₂ - p₁ ≤ hz) := by
  rw [reading_fast (p₁ % 2 ^ 64) hz (Nat.mod_lt _ (by omega)) hf,
    reading_fast (p₂ % 2 ^ 64) hz (Nat.mod_lt _ (by omega)) hf]
  by_cases h₁ : p₁ % 2 ^ 64 < hz
  · by_cases h₂ : p₂ % 2 ^ 64 < hz
    · rw [if_pos h₁, if_pos h₂, if_neg (by omega)]
      omega
    · rw [if_pos h₁, if_neg h₂, if_pos (by omega)]
      omega
  · by_cases h₂ : p₂ % 2 ^ 64 < hz
    · rw [if_neg h₁, if_pos h₂, if_neg (by omega)]
      omega
    · rw [if_neg h₁, if_neg h₂, if_neg (by omega)]
      omega

end Core

/-! ## When a measurement is right -/

/-- The readings of two counters make the right elapsed time exactly when neither product has
passed a multiple of `2 ^ 64` in between. -/
theorem elapsedSound_iff_inOneWindow (hz c₁ c₂ : UInt64) (hpos : 0 < hz) (hc : c₁ ≤ c₂) :
    ElapsedSound hz c₁ c₂ ↔ InOneWindow hz c₁ c₂ := by
  have hz0 : 0 < hz.toNat := UInt64.lt_iff_toNat_lt.mp hpos
  have hle := product_mono c₁ c₂ hc
  have hreads := UInt64.le_iff_toNat_le (a := nsTimer hz c₁) (b := nsTimer hz c₂)
  have hrtt := nanoseconds_sub (nsTimer hz c₂) (nsTimer hz c₁)
  rw [nsTimer_toNat, nsTimer_toNat] at hreads hrtt
  rw [elapsedSound_iff hz c₁ c₂ hpos, hreads, InOneWindow]
  by_cases hf : hz.toNat ≤ 2 ^ 63
  · rw [if_pos hf]
    constructor
    · intro h
      exact window_of_sound hz.toNat (product c₁) (product c₂) hz0 hle hf _
        (hrtt (hreads.mpr h.1)) h.2.2
    · intro h
      obtain ⟨hn, hs, hlo, hhi⟩ :=
        sound_of_window hz.toNat (product c₁) (product c₂) hz0 hle h.1 h.2
      have hr : packetRtt (nsTimer hz c₂) (nsTimer hz c₁) = _ := hrtt (hreads.mpr hn)
      rw [if_pos hs] at hr
      rw [hr]
      exact ⟨hn, hlo, hhi⟩
  · rw [if_neg hf, ← fast_sound_iff hz.toNat (product c₁) (product c₂) hle (by omega)]
    apply and_congr_right
    intro hn
    have hr : packetRtt (nsTimer hz c₂) (nsTimer hz c₁) = _ := hrtt (hreads.mpr hn)
    have hs : product c₂ % 2 ^ 64 / hz.toNat - product c₁ % 2 ^ 64 / hz.toNat < 2 ^ 63 := by
      apply Nat.lt_of_le_of_lt (Nat.sub_le _ _)
      rw [reading_fast (product c₂ % 2 ^ 64) hz.toNat (Nat.mod_lt _ (by omega)) (by omega)]
      split_ifs <;> omega
    rw [if_pos hs] at hr
    rw [hr]

/-- Two milliseconds apart on a 2.5 GHz counter. -/
theorem elapsedSound_iff_inOneWindow_small :
    ElapsedSound 2500000000 1000000 6000000 ∧ InOneWindow 2500000000 1000000 6000000 := by
  have h : InOneWindow 2500000000 1000000 6000000 := by decide
  exact ⟨(elapsedSound_iff_inOneWindow 2500000000 1000000 6000000 (by decide) (by decide)).mpr h,
    h⟩

/-- A 1 GHz counter 18.4 seconds after it started: one cycle later the timer reads 0. -/
theorem timer_restarts :
    nsTimer 1000000000 18446744073 = 18446744073 ∧ nsTimer 1000000000 18446744074 = 0 ∧
      ¬ ElapsedSound 1000000000 18446744073 18446744074 := by
  refine ⟨by decide, by decide, ?_⟩
  intro h
  exact absurd h.mono (by decide)

end DpdkTools.Sockperf
