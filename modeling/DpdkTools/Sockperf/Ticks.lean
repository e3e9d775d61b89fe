import DpdkTools.Numerics.MulDiv
import DpdkTools.Sockperf.Channel

/-! Ticks of the device clock and nanoseconds: `device::timestamp_fix` (`dpdkx/device.hpp`) and the
transmit time that `latency_test_job::process` writes into a packet (`sockperf_cli/utils.cpp`).

Both are `mul_div` in opposite directions. Each rounds down, so a time taken there and back comes
out early, by less than one tick and one nanosecond. -/
namespace DpdkTools.Sockperf
open Integral Integral.IntegralType
set_option autoImplicit false

/-- The transmit time of a packet, in ticks. -/
def transmitTicks (clockHz sentAt : UInt64) : UInt64 := mulDiv sentAt clockHz nsPerS

/-! ## The 64-bit operands as operands of `mul_div` -/

theorem contains_uint64 (x : UInt64) : IntegralType.Contains .uint64 x.toNat := by
  have hx := x.toNat_lt
  constructor
  · exact Int.natCast_nonneg _
  · show (x.toNat : ℤ) < 2 ^ 64
    exact_mod_cast hx

def uint64Value (x : UInt64) : Value .uint64 := ⟨x.toNat, contains_uint64 x⟩

theorem contains_nsPerS : IntegralType.Contains .int32 (nsPerS.toNat : ℤ) := by
  decide

/-- The macro `NS_PER_S` is an `int`. -/
def nsPerSInt : Value .int32 := ⟨nsPerS.toNat, contains_nsPerS⟩

theorem mulDiv_toNat (x n d : UInt64) :
    (mulDiv x n d).toNat = x.toNat * n.toNat / d.toNat % 2 ^ 64 :=
  UInt64.toNat_ofNat'

section Bodies
variable {a b c : IntegralType}

/-- The 64-bit `mulDiv` is the body of `mul_div` at operands of any types with the same values. -/
theorem mulDiv_eq_body (ht : Numerics.resultType a b c = .uint64) (x n d : UInt64) (hd : d ≠ 0)
    (x' : Value a) (n' : Value b) (d' : Value c) (hx : x'.val = x.toNat) (hn : n'.val = n.toNat)
    (hd' : d'.val = d.toNat) : ((mulDiv x n d).toNat : ℤ) = Numerics.mulDiv x' n' d' := by
  have hpos : 0 < d.toNat := Nat.pos_of_ne_zero fun h => hd (UInt64.toNat_inj.mp h)
  rw [Numerics.mulDiv_uint64 ht x' n' d' (by omega) (by omega) (by omega), hx, hn, hd', mulDiv_toNat]
  push_cast
  rfl

end Bodies

/-- The nanoseconds of a clock that runs. -/
def clockNs (clockHz ts : UInt64) : UInt64 := mulDiv ts nsPerS clockHz

theorem timestampFix_eq (clockHz ts : UInt64) (h : clockHz ≠ 0) :
    timestampFix clockHz ts = some (clockNs clockHz ts) := if_neg h

theorem clockNs_eq_body (clockHz ts : UInt64) (h : clockHz ≠ 0) :
    ((clockNs clockHz ts).toNat : ℤ) =
      Numerics.mulDiv (uint64Value ts) nsPerSInt (uint64Value clockHz) :=
  mulDiv_eq_body rfl ts nsPerS clockHz h _ _ _ rfl rfl rfl

theorem transmitTicks_eq_body (clockHz sentAt : UInt64) :
    ((transmitTicks clockHz sentAt).toNat : ℤ) =
      Numerics.mulDiv (uint64Value sentAt) (uint64Value clockHz) nsPerSInt :=
  mulDiv_eq_body rfl sentAt clockHz nsPerS (by decide) _ _ _ rfl rfl rfl

/-! ## Monotonicity and the way there and back -/

theorem clockNs_toNat (clockHz ts : UInt64)
    (h : ts.toNat * nsPerS.toNat / clockHz.toNat < 2 ^ 64) :
    (clockNs clockHz ts).toNat = ts.toNat * nsPerS.toNat / clockHz.toNat := by
  rw [clockNs, mulDiv_toNat]
  exact Nat.mod_eq_of_lt h

theorem clockNs_mono (clockHz ts₁ ts₂ : UInt64) (hle : ts₁ ≤ ts₂)
    (h : ts₂.toNat * nsPerS.toNat / clockHz.toNat < 2 ^ 64) :
    clockNs clockHz ts₁ ≤ clockNs clockHz ts₂ := by
  have hnat : ts₁.toNat * nsPerS.toNat / clockHz.toNat ≤ ts₂.toNat * nsPerS.toNat / clockHz.toNat :=
    Nat.div_le_div_right (Nat.mul_le_mul_right _ (UInt64.le_iff_toNat_le.mp hle))
  rw [UInt64.le_iff_toNat_le, clockNs_toNat clockHz ts₂ h,
    clockNs_toNat clockHz ts₁ (lt_of_le_of_lt hnat h)]
  exact hnat

/-- Two divisions that round down, by the factors of one another. -/
theorem there_and_back (s k g : ℕ) (hk : 0 < k) (hg : 0 < g) :
    s * k / g * g / k ≤ s ∧ s * k < s * k / g * g / k * k + k + g := by
  have hticks : s * k / g * g ≤ s * k := Nat.div_mul_le_self _ _
  have hlost : s * k < s * k / g * g + g := by
    have h := Nat.lt_div_mul_add hg (a := s * k)
    omega
  have hback := Nat.lt_div_mul_add hk (a := s * k / g * g)
  constructor
  · calc s * k / g * g / k ≤ s * k / k := Nat.div_le_div_right hticks
      _ = s := Nat.mul_div_cancel s hk
  · omega

theorem clockNs_transmitTicks (clockHz s : UInt64) (hz : clockHz ≠ 0)
    (h : s.toNat * clockHz.toNat / nsPerS.toNat < 2 ^ 64) :
    (clockNs clockHz (transmitTicks clockHz s)).toNat =
      s.toNat * clockHz.toNat / nsPerS.toNat * nsPerS.toNat / clockHz.toNat := by
  have hpos : 0 < clockHz.toNat := Nat.pos_of_ne_zero fun h => hz (UInt64.toNat_inj.mp h)
  have hticks : (transmitTicks clockHz s).toNat = s.toNat * clockHz.toNat / nsPerS.toNat := by
    rw [transmitTicks, mulDiv_toNat]
    exact Nat.mod_eq_of_lt h
  have hle := (there_and_back s.toNat clockHz.toNat nsPerS.toNat hpos (by decide)).1
  have hs := s.toNat_lt
  rw [clockNs_toNat, hticks]
  rw [hticks]
  omega

/-- `mul_div` is the quotient modulo `2^64`; the conversion of ticks is monotone while the
nanoseconds fit; and a time sent through ticks comes back less than a tick and a nanosecond early. -/
theorem tick_conversion :
    (∀ x n d : Value .uint64, d.val ≠ 0 →
      Numerics.mulDiv x n d = x.val * n.val / d.val % 2 ^ 64) ∧
    (∀ clockHz : UInt64, 0 < clockHz → ∃ ns : UInt64 → UInt64,
      (∀ ts, timestampFix clockHz ts = some (ns ts)) ∧
      (∀ ts₁ ts₂ : UInt64, ts₁ ≤ ts₂ → ts₂.toNat * nsPerS.toNat / clockHz.toNat < 2 ^ 64 →
        ns ts₁ ≤ ns ts₂) ∧
      (∀ s : UInt64, s.toNat * clockHz.toNat / nsPerS.toNat < 2 ^ 64 →
        ns (transmitTicks clockHz s) ≤ s ∧
          (s.toNat : ℚ) - (ns (transmitTicks clockHz s)).toNat < 10 ^ 9 / clockHz.toNat + 1)) := by
  refine ⟨?_, ?_⟩
  · intro x n d hd
    have hx := x.contained.1
    have hn := n.contained.1
    have hd0 := d.contained.1
    simp only [lowest, signed, Bool.false_eq_true, ite_false] at hx hn hd0
    exact Numerics.mulDiv_uint64 rfl x n d hx hn (by omega)
  · intro clockHz hz
    have hne : clockHz ≠ 0 := by
      rintro rfl
      exact absurd hz (by decide)
    have hpos : 0 < clockHz.toNat := UInt64.lt_iff_toNat_lt.mp hz
    refine ⟨clockNs clockHz, fun ts => timestampFix_eq clockHz ts hne,
      fun ts₁ ts₂ hle h => clockNs_mono clockHz ts₁ ts₂ hle h, ?_⟩
    intro s h
    have heq := clockNs_transmitTicks clockHz s hne h
    obtain ⟨hle, hlt⟩ := there_and_back s.toNat clockHz.toNat nsPerS.toNat hpos (by decide)
    rw [UInt64.le_iff_toNat_le, heq]
    refine ⟨hle, ?_⟩
    have hg : nsPerS.toNat = 10 ^ 9 := by decide
    rw [hg] at hlt ⊢
    generalize s.toNat * clockHz.toNat / 10 ^ 9 * 10 ^ 9 / clockHz.toNat = back at hlt ⊢
    have hq : (0 : ℚ) < clockHz.toNat := by exact_mod_cast hpos
    have hltq : (s.toNat : ℚ) * clockHz.toNat < back * clockHz.toNat + clockHz.toNat + 10 ^ 9 := by
      exact_mod_cast hlt
    have hdiv : (s.toNat : ℚ) - back - 1 < 10 ^ 9 / clockHz.toNat := by
      rw [lt_div_iff₀ hq]
      linarith
    linarith

/-- At 3 Hz the second nanosecond before a full second comes back as two thirds of the second. -/
theorem tick_conversion_slow_clock : ∃ ns : UInt64,
    timestampFix 3 (transmitTicks 3 999999998) = some ns ∧ ns = 666666666 ∧ ns ≤ 999999998 := by
  obtain ⟨ns, hfix, -, hback⟩ := tick_conversion.2 3 (by decide)
  refine ⟨_, hfix (transmitTicks 3 999999998), ?_, (hback 999999998 (by decide)).1⟩
  exact Option.some.inj ((hfix (transmitTicks 3 999999998)).symm.trans (by decide))

end DpdkTools.Sockperf
