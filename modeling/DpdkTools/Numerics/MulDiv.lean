import Mathlib.Tactic.Ring
import DpdkTools.Lib.Integral

/-! `mul_div` (`dpdkx/detail/numerics.hpp`) for operands of any integral types: the body built
under `WIN32` and the other one.

Both multiply in 128 bits. The other body divides there too; the `WIN32` one takes the product
apart and divides it as a `boost::multiprecision::uint128_t`, whose operations are a parameter. -/
namespace DpdkTools.Numerics
open Integral Integral.IntegralType
set_option autoImplicit false

/-- `decltype(x * n / d)`. -/
def resultType (a b c : IntegralType) : IntegralType := common (common a b) c

/-- Conversion to `value_type`: `__int128_t` where the result type is signed, else `__uint128_t`. -/
def valueType (type : IntegralType) (v : ℤ) : ℤ :=
  if type.signed then Int.bmod v (2 ^ 128) else v % 2 ^ 128

/-- `static_cast<value_type>(x) * n`. -/
def product (type : IntegralType) (x n : ℤ) : ℤ :=
  valueType type (valueType type x * valueType type n)

section Bodies
variable {a b c : IntegralType}

/-- The body without `WIN32`. -/
def mulDiv (x : Value a) (n : Value b) (d : Value c) : ℤ :=
  let type := resultType a b c
  let res := product type x.val n.val
  type.cast (valueType type (res.tdiv (valueType type d.val)))

/-- What the body under `WIN32` uses of `boost::multiprecision::uint128_t`. An operand of a built-in
type is converted (`ofInt`) before the operation; `value` is the number represented. -/
structure Uint128 where
  Number : Type
  value : Number → ℕ
  ofInt : ℤ → Number
  shiftLeft : Number → ℕ → Number
  or : Number → Number → Number
  div : Number → Number → Number
  cast : IntegralType → Number → ℤ

/-- The library's account of its fixed-width unsigned unchecked integers: arithmetic modulo `2^128`,
negative numbers included, and a conversion that keeps the low bits for an unsigned target and
stops at the largest value of a signed one. -/
structure Uint128.Documented (mp : Uint128) : Prop where
  ofInt : ∀ v : ℤ, (mp.value (mp.ofInt v) : ℤ) = v % 2 ^ 128
  shiftLeft : ∀ (m : mp.Number) (k : ℕ), mp.value (mp.shiftLeft m k) = mp.value m * 2 ^ k % 2 ^ 128
  or : ∀ m k : mp.Number, mp.value (mp.or m k) = mp.value m ||| mp.value k
  div : ∀ m k : mp.Number, mp.value k ≠ 0 → mp.value (mp.div m k) = mp.value m / mp.value k
  castSigned : ∀ (t : IntegralType) (m : mp.Number), t.signed = true →
    mp.cast t m = min (mp.value m : ℤ) (t.limit - 1)
  castUnsigned : ∀ (t : IntegralType) (m : mp.Number), t ≠ .bool → t.signed = false →
    mp.cast t m = (mp.value m : ℤ) % t.limit

/-- The body under `WIN32`; `make_unsigned_t<type>` is as wide as the result type. -/
def mulDivWin32 (mp : Uint128) (x : Value a) (n : Value b) (d : Value c) : ℤ :=
  let type := resultType a b c
  let res := product type x.val n.val
  let l := res % 2 ^ type.width
  let high := mp.shiftLeft (mp.ofInt (type.cast (res >>> (64 : ℕ)))) 64
  mp.cast type (mp.div (mp.or high (mp.ofInt l)) (mp.ofInt d.val))

/-- `x * n / d` without rounding of the product. -/
def quotient (x : Value a) (n : Value b) (d : Value c) : ℤ := (x.val * n.val).tdiv d.val

end Bodies

/-! ## What the operands can be -/

theorem operand_left (a b c : IntegralType) (x : Value a) :
    (resultType a b c).reach ≤ x.val ∧ x.val < (resultType a b c).limit := by
  obtain ⟨hlow, hlimit⟩ := x.contained
  have hab := common_left a b
  have habc := common_left (common a b) c
  have hreach := reach_le_lowest a
  unfold resultType
  omega

theorem operand_mid (a b c : IntegralType) (n : Value b) :
    (resultType a b c).reach ≤ n.val ∧ n.val < (resultType a b c).limit := by
  obtain ⟨hlow, hlimit⟩ := n.contained
  have hab := common_right a b
  have habc := common_left (common a b) c
  have hreach := reach_le_lowest b
  unfold resultType
  omega

theorem operand_right (a b c : IntegralType) (d : Value c) :
    (resultType a b c).reach ≤ d.val ∧ d.val < (resultType a b c).limit := by
  obtain ⟨hlow, hlimit⟩ := d.contained
  have habc := common_right (common a b) c
  have hreach := reach_le_lowest c
  unfold resultType
  omega

theorem mul_bounds (low high x n : ℤ) (hlow : 0 ≤ low) (hle : low ≤ high)
    (hx : -low ≤ x ∧ x < high) (hn : -low ≤ n ∧ n < high) :
    -(low * high) ≤ x * n ∧ (x * n ≤ low * low ∨ x * n < high * high) := by
  obtain ⟨hx0, hx1⟩ := hx
  obtain ⟨hn0, hn1⟩ := hn
  rcases le_total 0 x with hx | hx <;> rcases le_total 0 n with hn | hn
  · exact ⟨by nlinarith, Or.inr (by nlinarith)⟩
  · exact ⟨by nlinarith, Or.inl (by nlinarith)⟩
  · exact ⟨by nlinarith, Or.inl (by nlinarith)⟩
  · exact ⟨by nlinarith, Or.inl (by nlinarith)⟩

/-- The types that the product and the divisor of a call can have, with their ranges. -/
inductive Ranged : IntegralType → ℤ → ℤ → Prop
  | int32 (p d : ℤ) (hp : -2 ^ 62 ≤ p ∧ p ≤ 2 ^ 62) (hd : -2 ^ 31 ≤ d ∧ d < 2 ^ 31) :
      Ranged .int32 p d
  | uint32 (p d : ℤ) (hp : -2 ^ 63 ≤ p ∧ p < 2 ^ 64) (hd : -2 ^ 31 ≤ d ∧ d < 2 ^ 32) :
      Ranged .uint32 p d
  | int64 (p d : ℤ) (hp : -2 ^ 126 ≤ p ∧ p ≤ 2 ^ 126) (hd : -2 ^ 63 ≤ d ∧ d < 2 ^ 63) :
      Ranged .int64 p d
  | uint64 (p d : ℤ) (hp : -2 ^ 127 ≤ p ∧ p < 2 ^ 128) (hd : -2 ^ 63 ≤ d ∧ d < 2 ^ 64) :
      Ranged .uint64 p d

theorem ranged (a b c : IntegralType) (x : Value a) (n : Value b) (d : Value c) :
    Ranged (resultType a b c) (x.val * n.val) d.val := by
  have hx := operand_left a b c x
  have hn := operand_mid a b c n
  have hd := operand_right a b c d
  rcases common_cases (common a b) c with h | h | h | h <;> rw [resultType, h] at hx hn hd ⊢ <;>
    simp only [reach, limit, width, signed] at hx hn hd <;> norm_num at hx hn hd
  · have hp := mul_bounds (2 ^ 31) (2 ^ 31) x.val n.val (by norm_num) (by norm_num)
      (by omega) (by omega)
    exact .int32 _ _ (by omega) (by omega)
  · have hp := mul_bounds (2 ^ 31) (2 ^ 32) x.val n.val (by norm_num) (by norm_num)
      (by omega) (by omega)
    exact .uint32 _ _ (by omega) (by omega)
  · have hp := mul_bounds (2 ^ 63) (2 ^ 63) x.val n.val (by norm_num) (by norm_num)
      (by omega) (by omega)
    exact .int64 _ _ (by omega) (by omega)
  · have hp := mul_bounds (2 ^ 63) (2 ^ 64) x.val n.val (by norm_num) (by norm_num)
      (by omega) (by omega)
    exact .uint64 _ _ (by omega) (by omega)

/-! ## Both bodies as functions of the product and the divisor -/

theorem product_eq (type : IntegralType) (x n : ℤ) :
    product type x n = valueType type (x * n) := by
  unfold product valueType
  split
  · rw [Int.bmod_mul_bmod, Int.mul_bmod_bmod]
  · exact (Int.mul_emod _ _ _).symm

theorem valueType_signed (type : IntegralType) (hs : type.signed = true) (v : ℤ)
    (hv : -2 ^ 127 ≤ v ∧ v < 2 ^ 127) : valueType type v = v := by
  rw [valueType, hs]
  apply Int.bmod_eq_of_le
  · norm_num
    omega
  · norm_num
    omega

theorem valueType_unsigned (type : IntegralType) (hs : type.signed = false) (v : ℤ) :
    valueType type v = v % 2 ^ 128 := by
  simp [valueType, hs]

theorem cast_unsigned (type : IntegralType) (hb : type ≠ .bool) (hs : type.signed = false) (v : ℤ) :
    type.cast v = v % type.limit := by
  simp [IntegralType.cast, limit, hb, hs]

/-- A signed product and divisor are exact in 128 bits, and so is their quotient. -/
theorem quotient_signed (type : IntegralType) (hs : type.signed = true) (p d : ℤ)
    (hr : Ranged type p d) :
    valueType type ((valueType type p).tdiv (valueType type d)) = p.tdiv d := by
  have hp : -2 ^ 126 ≤ p ∧ p ≤ 2 ^ 126 := by
    cases hr <;> first | omega | exact absurd hs (by decide)
  have hd : -2 ^ 63 ≤ d ∧ d < 2 ^ 63 := by
    cases hr <;> first | omega | exact absurd hs (by decide)
  have hle := Int.natAbs_tdiv_le_natAbs p d
  rw [valueType_signed type hs p (by omega), valueType_signed type hs d (by omega),
    valueType_signed type hs _ (by omega)]

/-- An unsigned one is the quotient of the residues. -/
theorem quotient_unsigned (type : IntegralType) (hs : type.signed = false) (p d : ℤ) :
    valueType type ((valueType type p).tdiv (valueType type d)) = p % 2 ^ 128 / (d % 2 ^ 128) := by
  simp only [valueType_unsigned type hs]
  have hp : 0 ≤ p % 2 ^ 128 ∧ p % 2 ^ 128 < 2 ^ 128 := by omega
  rw [Int.tdiv_eq_ediv_of_nonneg hp.1]
  apply Int.emod_eq_of_lt
  · exact Int.ediv_nonneg hp.1 (by omega)
  · exact lt_of_le_of_lt (Int.ediv_le_self _ hp.1) hp.2

/-- The product that the body under `WIN32` puts together from its two parts. -/
def rebuilt (type : IntegralType) (p : ℤ) : ℤ :=
  type.cast (valueType type p >>> (64 : ℕ)) % 2 ^ 64 * 2 ^ 64 + valueType type p % 2 ^ type.width

theorem width_le (type : IntegralType) : type.width ≤ 64 := by
  cases type <;> decide

theorem value_rebuilt (mp : Uint128) (hmp : mp.Documented) (type : IntegralType) (p : ℤ) :
    (mp.value (mp.or (mp.shiftLeft (mp.ofInt (type.cast (valueType type p >>> (64 : ℕ)))) 64)
      (mp.ofInt (valueType type p % 2 ^ type.width))) : ℤ) = rebuilt type p := by
  unfold rebuilt
  generalize type.cast (valueType type p >>> (64 : ℕ)) = high
  have hlow : 0 ≤ valueType type p % 2 ^ type.width ∧ valueType type p % 2 ^ type.width < 2 ^ 64 := by
    have hpos : (0 : ℤ) < 2 ^ type.width := by positivity
    have hle : (2 : ℤ) ^ type.width ≤ 2 ^ 64 := pow_le_pow_right₀ (by norm_num) (width_le type)
    exact ⟨Int.emod_nonneg _ (by omega), lt_of_lt_of_le (Int.emod_lt_of_pos _ hpos) hle⟩
  generalize valueType type p % 2 ^ type.width = low at hlow ⊢
  have hh := hmp.ofInt high
  have hl := hmp.ofInt low
  have hl' : mp.value (mp.ofInt low) < 2 ^ 64 := by omega
  -- the low part lies below the shifted one, so the bitwise or is a sum
  have hshift : mp.value (mp.shiftLeft (mp.ofInt high) 64) =
      (mp.value (mp.ofInt high) % 2 ^ 64) <<< 64 := by
    rw [hmp.shiftLeft, Nat.shiftLeft_eq, show (2 : ℕ) ^ 128 = 2 ^ 64 * 2 ^ 64 by norm_num,
      Nat.mul_mod_mul_right]
  rw [hmp.or, hshift, ← Nat.shiftLeft_add_eq_or_of_lt hl', Nat.shiftLeft_eq]
  push_cast
  rw [hh, hl]
  omega

/-- The result of the body under `WIN32` from the quotient of the rebuilt product. -/
def narrowed (type : IntegralType) (v : ℤ) : ℤ :=
  if type.signed then min v (type.limit - 1) else v % type.limit

theorem mulDivWin32_eq (mp : Uint128) (hmp : mp.Documented) (a b c : IntegralType) (x : Value a)
    (n : Value b) (d : Value c) (hd : d.val ≠ 0) :
    mulDivWin32 mp x n d = narrowed (resultType a b c)
      (rebuilt (resultType a b c) (x.val * n.val) / (d.val % 2 ^ 128)) := by
  have hr := ranged a b c x n d
  have hb := common_ne_bool (common a b) c
  simp only [mulDivWin32, product_eq]
  have hdiv := hmp.ofInt d.val
  have hd0 : mp.value (mp.ofInt d.val) ≠ 0 := by
    have hsmall : -2 ^ 63 ≤ d.val ∧ d.val < 2 ^ 64 := by
      generalize resultType a b c = type at hr
      generalize x.val * n.val = p at hr
      generalize d.val = e at hr ⊢
      cases hr <;> omega
    omega
  rw [narrowed, ← value_rebuilt mp hmp, ← hdiv, ← Int.natCast_ediv, ← hmp.div _ _ hd0]
  cases hs : (resultType a b c).signed with
  | true => exact hmp.castSigned _ _ hs
  | false => exact hmp.castUnsigned _ _ hb hs

theorem mulDiv_eq (a b c : IntegralType) (x : Value a) (n : Value b) (d : Value c) :
    mulDiv x n d = (resultType a b c).cast (valueType (resultType a b c)
      ((valueType (resultType a b c) (x.val * n.val)).tdiv
        (valueType (resultType a b c) d.val))) := by
  simp only [mulDiv, product_eq]

/-! ## The rebuilt product -/

theorem contains_zero (type : IntegralType) : type.Contains 0 := by
  cases type <;> decide

theorem Ranged.ne_bool {type : IntegralType} {p d : ℤ} (hr : Ranged type p d) : type ≠ .bool := by
  cases hr <;> decide

/-- The product, as a 128-bit value `v` with the high part `high`. -/
theorem rebuilt_of_parts (type : IntegralType) (p v high : ℤ) (hv : valueType type p = v)
    (hhigh : v / ((2 ^ 64 : ℕ) : ℤ) = high) :
    rebuilt type p = type.cast high % 2 ^ 64 * 2 ^ 64 + v % 2 ^ type.width := by
  rw [rebuilt, hv, Int.shiftRight_eq_div_pow, hhigh]

theorem rebuilt_wide (type : IntegralType) (hw : type.width = 64) (p d : ℤ)
    (hr : Ranged type p d) : rebuilt type p = p % 2 ^ 128 := by
  cases hr with
  | int32 _ _ hp hd => exact absurd hw (by decide)
  | uint32 _ _ hp hd => exact absurd hw (by decide)
  | int64 _ _ hp hd =>
    rw [rebuilt_of_parts .int64 p p _ (valueType_signed .int64 rfl p (by omega)) rfl]
    have hcast : IntegralType.cast .int64 (p / ((2 ^ 64 : ℕ) : ℤ)) = p / ((2 ^ 64 : ℕ) : ℤ) := by
      apply cast_of_contains
      · decide
      · constructor <;> simp only [lowest, limit, signed, width] <;> norm_num <;> omega
    rw [hcast]
    simp only [width]
    omega
  | uint64 _ _ hp hd =>
    rw [rebuilt_of_parts .uint64 p _ _ (valueType_unsigned .uint64 rfl p) rfl,
      cast_unsigned .uint64 (by decide) rfl]
    simp only [width, limit, signed, Bool.false_eq_true, ite_false]
    omega

theorem rebuilt_narrow_nonneg (type : IntegralType) (hw : type.width = 32) (p d : ℤ)
    (hr : Ranged type p d) (hp0 : 0 ≤ p) : rebuilt type p = p % 2 ^ 32 := by
  obtain ⟨hv, hhigh⟩ : valueType type p = p ∧ p / ((2 ^ 64 : ℕ) : ℤ) = 0 := by
    cases hr with
    | int64 _ _ hp hd => exact absurd hw (by decide)
    | uint64 _ _ hp hd => exact absurd hw (by decide)
    | int32 _ _ hp hd => exact ⟨valueType_signed .int32 rfl p (by omega), by omega⟩
    | uint32 _ _ hp hd => exact ⟨(valueType_unsigned .uint32 rfl p).trans (by omega), by omega⟩
  rw [rebuilt_of_parts type p p 0 hv hhigh, cast_of_contains type hr.ne_bool 0 (contains_zero type), hw]
  omega

theorem rebuilt_int32_neg (p d : ℤ) (hr : Ranged .int32 p d) (hp0 : p < 0) :
    rebuilt .int32 p = 2 ^ 128 - 2 ^ 64 + p % 2 ^ 32 := by
  cases hr with
  | int32 _ _ hp hd =>
    have hv := valueType_signed .int32 rfl p (by omega)
    rw [rebuilt_of_parts .int32 p p (-1) hv (by omega), cast_of_contains .int32 (by decide) (-1) (by decide)]
    simp only [width]
    norm_num

theorem rebuilt_uint32_neg (p d : ℤ) (hr : Ranged .uint32 p d) (hp0 : p < 0) :
    rebuilt .uint32 p = 2 ^ 96 - 2 ^ 64 + p % 2 ^ 32 := by
  cases hr with
  | uint32 _ _ hp hd =>
    have hv := valueType_unsigned .uint32 rfl p
    rw [rebuilt_of_parts .uint32 p _ (2 ^ 64 - 1) hv (by omega), cast_unsigned .uint32 (by decide) rfl]
    simp only [width, limit, signed, Bool.false_eq_true, ite_false]
    omega

/-! ## When the quotient of the rebuilt product is the right one -/

/-- The calls for which both bodies return the exact quotient, by the product `p` of the first two
operands. -/
def BodiesAgree (type : IntegralType) (p d : ℤ) : Prop :=
  (0 ≤ p ∧ 0 < d ∧ (type.width = 64 ∨ p < 2 ^ 32)) ∨
  (0 ≤ p ∧ d < 0 ∧ p < -d) ∨
  (p < 0 ∧ 0 < d ∧ type.signed = false ∧ d = type.limit - 1 ∧ p ≤ -2) ∨
  (p < 0 ∧ d < 0 ∧ (type.width = 64 ∧ p = d ∨ type = .int32 ∧ d < p))

instance (type : IntegralType) (p d : ℤ) : Decidable (BodiesAgree type p d) :=
  inferInstanceAs (Decidable (_ ∨ _ ∨ _ ∨ _))

theorem tdiv_neg_right (p d : ℤ) (hp : 0 ≤ p) : p.tdiv d = -(p / -d) := by
  rw [Int.tdiv_eq_ediv_of_nonneg hp, Int.ediv_neg, neg_neg]

theorem tdiv_neg_left (p d : ℤ) (hp : p < 0) : p.tdiv d = -(-p / d) := by
  have h : (-(-p)).tdiv d = -((-p).tdiv d) := Int.neg_tdiv (-p) d
  rw [neg_neg, Int.tdiv_eq_ediv_of_nonneg (by omega : 0 ≤ -p)] at h
  exact h

/-- A multiple of `m` less a small amount, divided by `d < m`, is a multiple of `m` only when `d`
divides one less than the multiplier and the rest of the division makes up the amount. -/
theorem sub_ediv_emod_eq_zero (m k p d : ℤ) (hp : 0 < p ∧ p < d) (hd : d < m) :
    (m * k - p) / d % m = 0 ↔ d ∣ k - 1 ∧ m - d < p := by
  have hd0 : 0 < d := by omega
  have hm0 : 0 < m := by omega
  constructor
  · intro h
    obtain ⟨j, hj⟩ := Int.dvd_of_emod_eq_zero h
    have hdm := Int.mul_ediv_add_emod (m * k - p) d
    have hr0 := Int.emod_nonneg (m * k - p) (by omega : d ≠ 0)
    have hr1 := Int.emod_lt_of_pos (m * k - p) hd0
    rw [hj] at hdm
    -- `m * (k - d * j)` is the amount and the rest together, below `2 * m`
    have hsum : m * (k - d * j) = p + (m * k - p) % d := by linarith
    have hone : k - d * j = 1 := by
      have hlow : 0 < k - d * j := by
        by_contra hcon
        nlinarith
      have hhigh : k - d * j < 2 := by
        by_contra hcon
        nlinarith
      omega
    rw [hone, mul_one] at hsum
    exact ⟨⟨j, by omega⟩, by omega⟩
  · rintro ⟨⟨j, hj⟩, hlt⟩
    have hk : m * k - p = m - p + d * (m * j) := by
      have hk1 : k = d * j + 1 := by omega
      rw [hk1]
      ring
    rw [hk, Int.add_mul_ediv_left _ _ hd0.ne', Int.ediv_eq_zero_of_lt (by omega) (by omega), zero_add]
    exact Int.mul_emod_right m j

theorem narrowed_of_contains (type : IntegralType) (v : ℤ) (hv : type.Contains v) :
    narrowed type v = v := by
  obtain ⟨hlow, hlimit⟩ := hv
  unfold narrowed
  split
  · exact min_eq_left (by omega)
  · have hlow0 : 0 ≤ v := by
      simpa [lowest, *] using hlow
    exact Int.emod_eq_of_lt hlow0 hlimit

/-- The quotient of the body without `WIN32`. -/
def wideQuotient (type : IntegralType) (p d : ℤ) : ℤ :=
  type.cast (valueType type ((valueType type p).tdiv (valueType type d)))

/-- The quotient of the body under `WIN32`. -/
def rebuiltQuotient (type : IntegralType) (p d : ℤ) : ℤ :=
  narrowed type (rebuilt type p / (d % 2 ^ 128))

theorem wideQuotient_signed (type : IntegralType) (hs : type.signed = true) (p d : ℤ)
    (hr : Ranged type p d) (hfit : type.Contains (p.tdiv d)) :
    wideQuotient type p d = p.tdiv d := by
  rw [wideQuotient, quotient_signed type hs p d hr]
  apply cast_of_contains _ _ _ hfit
  rintro rfl
  exact absurd hs (by decide)

theorem wideQuotient_unsigned (type : IntegralType) (hb : type ≠ .bool) (hs : type.signed = false)
    (p d : ℤ) : wideQuotient type p d = p % 2 ^ 128 / (d % 2 ^ 128) % type.limit := by
  rw [wideQuotient, quotient_unsigned type hs p d, cast_unsigned type hb hs]

theorem Ranged.width_cases {type : IntegralType} {p d : ℤ} (hr : Ranged type p d) :
    type.width = 64 ∨ type.width = 32 := by
  cases hr <;> decide

/-- The bounds that the ranges of all four types give. -/
theorem Ranged.bounds {type : IntegralType} {p d : ℤ} (hr : Ranged type p d) :
    (-2 ^ 127 ≤ p ∧ p < 2 ^ 128) ∧ (-2 ^ 63 ≤ d ∧ d < 2 ^ 64) ∧
      (type.signed = true → p ≤ 2 ^ 126) ∧ (type.width = 32 → d < 2 ^ 32) := by
  cases hr <;> simp only [signed, width] <;> norm_num <;> omega

section NonnegativeProduct
variable (type : IntegralType) (p d : ℤ)

theorem agree_nonneg_pos (hr : Ranged type p d) (hp : 0 ≤ p) (hd : 0 < d)
    (hfit : type.Contains (p.tdiv d)) :
    (wideQuotient type p d = p.tdiv d ∧ rebuiltQuotient type p d = p.tdiv d) ↔
      (type.width = 64 ∨ p < 2 ^ 32) := by
  obtain ⟨⟨-, hp1⟩, ⟨-, hd1⟩, -, hd32⟩ := hr.bounds
  have hmod : d % 2 ^ 128 = d := by omega
  have hpmod : p % 2 ^ 128 = p := by omega
  have hwide : wideQuotient type p d = p.tdiv d := by
    cases hs : type.signed with
    | true => exact wideQuotient_signed type hs p d hr hfit
    | false =>
      rw [wideQuotient, quotient_unsigned type hs, hpmod, hmod, ← Int.tdiv_eq_ediv_of_nonneg hp]
      exact cast_of_contains _ hr.ne_bool _ hfit
  rw [rebuiltQuotient, hmod]
  rw [Int.tdiv_eq_ediv_of_nonneg hp] at hfit hwide ⊢
  simp only [hwide, true_and]
  rcases hr.width_cases with hw | hw
  · rw [rebuilt_wide type hw p d hr, hpmod, narrowed_of_contains type _ hfit]
    simp [hw]
  · have hle : p % 2 ^ 32 ≤ p := by omega
    have hdiv : p % 2 ^ 32 / d ≤ p / d := Int.ediv_le_ediv hd hle
    have hsmall : type.Contains (p % 2 ^ 32 / d) := by
      have h0 := (contains_zero type).1
      have hnn : 0 ≤ p % 2 ^ 32 / d := Int.ediv_nonneg (by omega) hd.le
      exact ⟨by omega, lt_of_le_of_lt hdiv hfit.2⟩
    rw [rebuilt_narrow_nonneg type hw p d hr hp, narrowed_of_contains type _ hsmall]
    constructor
    · intro h
      right
      by_contra hcon
      -- the bits cut off are worth more than a divisor
      have hstep : (p % 2 ^ 32 + d * 1) / d ≤ p / d := Int.ediv_le_ediv hd (by omega)
      rw [Int.add_mul_ediv_left _ _ hd.ne'] at hstep
      omega
    · intro h
      have hp32 : p < 2 ^ 32 := by omega
      rw [Int.emod_eq_of_lt hp hp32]

theorem ediv_eq_zero_iff_lt (p e : ℤ) (hp : 0 ≤ p) (he : 0 < e) : p / e = 0 ↔ p < e := by
  have hnn : 0 ≤ p / e := Int.ediv_nonneg hp he.le
  have hlt := Int.ediv_lt_iff_lt_mul (a := p) (b := 1) he
  omega

theorem agree_nonneg_neg (hr : Ranged type p d) (hp : 0 ≤ p) (hd : d < 0)
    (hfit : type.Contains (p.tdiv d)) :
    (wideQuotient type p d = p.tdiv d ∧ rebuiltQuotient type p d = p.tdiv d) ↔ p < -d := by
  obtain ⟨⟨-, hp1⟩, ⟨hd0, -⟩, hp126, -⟩ := hr.bounds
  have hmod : d % 2 ^ 128 = 2 ^ 128 + d := by omega
  have hpmod : p % 2 ^ 128 = p := by omega
  have hzero := ediv_eq_zero_iff_lt p (-d) hp (by omega)
  have hnn : 0 ≤ p / -d := Int.ediv_nonneg hp (by omega)
  -- in an unsigned type only the quotient zero is representable
  have hsmall : type.signed = false → p < -d := by
    intro hs
    have hlow : type.lowest ≤ p.tdiv d := hfit.1
    rw [tdiv_neg_right p d hp] at hlow
    simp only [lowest, hs, Bool.false_eq_true, ite_false] at hlow
    exact hzero.mp (by omega)
  have hrebuilt : rebuiltQuotient type p d = 0 := by
    have hlt : 0 ≤ rebuilt type p ∧ rebuilt type p < 2 ^ 128 + d := by
      rcases hr.width_cases with hw | hw
      · rw [rebuilt_wide type hw p d hr, hpmod]
        cases hs : type.signed with
        | true =>
          have := hp126 hs
          omega
        | false =>
          have := hsmall hs
          omega
      · rw [rebuilt_narrow_nonneg type hw p d hr hp]
        omega
    rw [rebuiltQuotient, hmod, Int.ediv_eq_zero_of_lt hlt.1 hlt.2]
    exact narrowed_of_contains type 0 (contains_zero type)
  rw [hrebuilt]
  constructor
  · rintro ⟨-, h⟩
    rw [tdiv_neg_right p d hp] at h
    exact hzero.mp (by omega)
  · intro h
    have hq : p.tdiv d = 0 := by
      rw [tdiv_neg_right p d hp, hzero.mpr h, neg_zero]
    refine ⟨?_, hq.symm⟩
    cases hs : type.signed with
    | true => exact wideQuotient_signed type hs p d hr hfit
    | false =>
      rw [wideQuotient_unsigned type hr.ne_bool hs, hpmod, hmod,
        Int.ediv_eq_zero_of_lt hp (by omega), hq, Int.zero_emod]

end NonnegativeProduct

section NegativeProduct
variable (type : IntegralType) (p d : ℤ)

/-- A signed type gets a quotient far above its values. -/
theorem rebuiltQuotient_signed_neg_pos (hr : Ranged type p d) (hs : type.signed = true) (hp : p < 0)
    (hd : 0 < d) : rebuiltQuotient type p d = type.limit - 1 := by
  have hmod : d % 2 ^ 128 = d := by
    obtain ⟨-, ⟨-, hd1⟩, -⟩ := hr.bounds
    omega
  have hlarge : 2 ^ 127 ≤ rebuilt type p ∧ d < 2 ^ 63 ∧ type.limit ≤ 2 ^ 63 := by
    cases hr with
    | uint32 => exact absurd hs (by decide)
    | uint64 => exact absurd hs (by decide)
    | int32 _ _ hp1 hd1 =>
      rw [rebuilt_int32_neg p d (.int32 p d hp1 hd1) hp]
      exact ⟨by omega, by omega, by decide⟩
    | int64 _ _ hp1 hd1 =>
      rw [rebuilt_wide .int64 rfl p d (.int64 p d hp1 hd1)]
      exact ⟨by omega, by omega, by decide⟩
  have hquot : 2 ^ 63 ≤ rebuilt type p / d := by
    rw [Int.le_ediv_iff_mul_le hd]
    omega
  rw [rebuiltQuotient, narrowed, hs, hmod]
  exact min_eq_right (by omega)

/-- A divisor of `2^w - 1` above half of it is the number itself. -/
theorem eq_of_dvd_of_half_lt (m e : ℤ) (he : e ∣ m) (hhalf : m < 2 * e) (hm : 0 < m) : e = m := by
  obtain ⟨j, hj⟩ := he
  have he0 : 0 < e := by omega
  have hj1 : j = 1 := by
    have hlow : 0 < j := by
      by_contra hcon
      nlinarith
    have hhigh : j < 2 := by
      by_contra hcon
      nlinarith
    omega
  rw [hj, hj1, mul_one]

theorem agree_uint64_neg_pos (hr : Ranged .uint64 p d) (hp : p < 0) (hd : 0 < d) (hlt : -p < d) :
    (wideQuotient .uint64 p d = 0 ∧ rebuiltQuotient .uint64 p d = 0) ↔
      (d = 2 ^ 64 - 1 ∧ p ≤ -2) := by
  obtain ⟨⟨hp0, -⟩, ⟨-, hd1⟩, -⟩ := hr.bounds
  have hmod : d % 2 ^ 128 = d := by omega
  have hpmod : p % 2 ^ 128 = 2 ^ 64 * 2 ^ 64 - -p := by omega
  have hkey := sub_ediv_emod_eq_zero (2 ^ 64) (2 ^ 64) (-p) d (by omega) hd1
  have hlimit : IntegralType.limit .uint64 = 2 ^ 64 := rfl
  rw [wideQuotient_unsigned .uint64 (by decide) rfl, rebuiltQuotient,
    rebuilt_wide .uint64 rfl p d hr, narrowed, hmod, hpmod, hlimit]
  simp only [signed, Bool.false_eq_true, ite_false, hkey, and_self]
  constructor
  · rintro ⟨hdvd, h⟩
    have hd2 := eq_of_dvd_of_half_lt (2 ^ 64 - 1) d hdvd (by omega) (by norm_num)
    exact ⟨hd2, by omega⟩
  · rintro ⟨rfl, h⟩
    exact ⟨dvd_refl _, by omega⟩

theorem agree_uint32_neg_pos (hr : Ranged .uint32 p d) (hp : p < 0) (hd : 0 < d) (hlt : -p < d) :
    (wideQuotient .uint32 p d = 0 ∧ rebuiltQuotient .uint32 p d = 0) ↔
      (d = 2 ^ 32 - 1 ∧ p ≤ -2) := by
  obtain ⟨⟨hp0, -⟩, -, -, hd1⟩ := hr.bounds
  have hd32 := hd1 rfl
  have hmod : d % 2 ^ 128 = d := by omega
  have hpmod : p % 2 ^ 128 = 2 ^ 32 * 2 ^ 96 - -p := by omega
  have hrebuilt : rebuilt .uint32 p = 2 ^ 32 * (2 ^ 64 - 2 ^ 32 + 1) - -p := by
    rw [rebuilt_uint32_neg p d hr hp]
    omega
  have hwide := sub_ediv_emod_eq_zero (2 ^ 32) (2 ^ 96) (-p) d (by omega) hd32
  have hnarrow := sub_ediv_emod_eq_zero (2 ^ 32) (2 ^ 64 - 2 ^ 32 + 1) (-p) d (by omega) hd32
  have hlimit : IntegralType.limit .uint32 = 2 ^ 32 := rfl
  rw [wideQuotient_unsigned .uint32 (by decide) rfl, rebuiltQuotient, narrowed, hmod, hpmod,
    hrebuilt, hlimit]
  simp only [signed, Bool.false_eq_true, ite_false, hwide, hnarrow]
  constructor
  · rintro ⟨⟨hdvd, h⟩, hdvd', -⟩
    -- the two multipliers less one have the greatest common divisor `2^32 - 1`
    have hone : d ∣ 2 ^ 32 - 1 := by
      have hcomb : (2 ^ 32 - 1 : ℤ) =
          (2 ^ 96 - 1) - (2 ^ 32 + 1) * (2 ^ 64 - 2 ^ 32 + 1 - 1) := by norm_num
      rw [hcomb]
      exact Int.dvd_sub hdvd (dvd_mul_of_dvd_right hdvd' _)
    have hd2 := eq_of_dvd_of_half_lt (2 ^ 32 - 1) d hone (by omega) (by norm_num)
    exact ⟨hd2, by omega⟩
  · rintro ⟨rfl, h⟩
    exact ⟨⟨⟨2 ^ 64 + 2 ^ 32 + 1, by norm_num⟩, by omega⟩, ⟨2 ^ 32, by norm_num⟩, by omega⟩

theorem agree_neg_pos (hr : Ranged type p d) (hp : p < 0) (hd : 0 < d)
    (hfit : type.Contains (p.tdiv d)) :
    (wideQuotient type p d = p.tdiv d ∧ rebuiltQuotient type p d = p.tdiv d) ↔
      (type.signed = false ∧ d = type.limit - 1 ∧ p ≤ -2) := by
  have hq := tdiv_neg_left p d hp
  have hnn : 0 ≤ -p / d := Int.ediv_nonneg (by omega) hd.le
  cases hs : type.signed with
  | true =>
    have hlimit : 1 < type.limit := by
      cases hr <;> decide
    rw [rebuiltQuotient_signed_neg_pos type p d hr hs hp hd]
    constructor
    · rintro ⟨-, h⟩
      omega
    · rintro ⟨h, -⟩
      exact absurd h (by decide)
  | false =>
    have hlow : type.lowest ≤ p.tdiv d := hfit.1
    simp only [lowest, hs, Bool.false_eq_true, ite_false] at hlow
    have hlt : -p < d := (ediv_eq_zero_iff_lt (-p) d (by omega) hd).mp (by omega)
    have hzero : p.tdiv d = 0 := by omega
    rw [hzero]
    simp only [true_and]
    cases hr with
    | int32 => exact absurd hs (by decide)
    | int64 => exact absurd hs (by decide)
    | uint32 _ _ hp1 hd1 => exact agree_uint32_neg_pos p d (.uint32 p d hp1 hd1) hp hd hlt
    | uint64 _ _ hp1 hd1 => exact agree_uint64_neg_pos p d (.uint64 p d hp1 hd1) hp hd hlt

/-- Two negative numbers modulo `2^128` have the quotient one or zero. -/
theorem residues_ediv (hp : -2 ^ 127 ≤ p ∧ p < 0) (hd : -2 ^ 63 ≤ d ∧ d < 0) :
    p % 2 ^ 128 / (d % 2 ^ 128) = if d ≤ p then 1 else 0 := by
  have hpmod : p % 2 ^ 128 = 2 ^ 128 + p := by omega
  have hdmod : d % 2 ^ 128 = 2 ^ 128 + d := by omega
  rw [hpmod, hdmod]
  split
  · have hsub : 2 ^ 128 + p = p - d + (2 ^ 128 + d) * 1 := by ring
    rw [hsub, Int.add_mul_ediv_left _ _ (by omega), Int.ediv_eq_zero_of_lt (by omega) (by omega)]
    norm_num
  · exact Int.ediv_eq_zero_of_lt (by omega) (by omega)

/-- The exact quotient of negative numbers is what the residues give only for equal ones. -/
theorem residues_quotient_iff (hp : p < 0) (hd : d < 0) :
    (if d ≤ p then 1 else 0 : ℤ) = -p / -d ↔ p = d := by
  have hnn : 0 ≤ -p / -d := Int.ediv_nonneg (by omega) (by omega)
  have hzero := ediv_eq_zero_iff_lt (-p) (-d) (by omega) (by omega)
  constructor
  · intro h
    split at h <;> omega
  · rintro rfl
    rw [if_pos (le_refl _), Int.ediv_self (by omega)]

theorem agree_neg_neg (hr : Ranged type p d) (hp : p < 0) (hd : d < 0)
    (hfit : type.Contains (p.tdiv d)) :
    (wideQuotient type p d = p.tdiv d ∧ rebuiltQuotient type p d = p.tdiv d) ↔
      (type.width = 64 ∧ p = d ∨ type = .int32 ∧ d < p) := by
  have hq : p.tdiv d = -p / -d := by
    rw [tdiv_neg_left p d hp, Int.ediv_neg]
  have hzero := ediv_eq_zero_iff_lt (-p) (-d) (by omega) (by omega)
  have hres := residues_quotient_iff p d hp hd
  have hdmod : -2 ^ 63 ≤ d → d % 2 ^ 128 = 2 ^ 128 + d := by omega
  cases hr with
  | int32 _ _ hp1 hd1 =>
    have hr' : Ranged .int32 p d := .int32 p d hp1 hd1
    have hb : rebuiltQuotient .int32 p d = 0 := by
      rw [rebuiltQuotient, rebuilt_int32_neg p d hr' hp, hdmod (by omega),
        Int.ediv_eq_zero_of_lt (by omega) (by omega)]
      exact narrowed_of_contains _ 0 (contains_zero _)
    rw [wideQuotient_signed .int32 rfl p d hr' hfit, hb, hq]
    simp only [width, true_and, Nat.reduceEqDiff, false_and, false_or]
    omega
  | uint32 _ _ hp1 hd1 =>
    have hr' : Ranged .uint32 p d := .uint32 p d hp1 hd1
    have hb : rebuiltQuotient .uint32 p d = 0 := by
      rw [rebuiltQuotient, rebuilt_uint32_neg p d hr' hp, hdmod (by omega),
        Int.ediv_eq_zero_of_lt (by omega) (by omega)]
      exact narrowed_of_contains _ 0 (contains_zero _)
    have ha : wideQuotient .uint32 p d = if d ≤ p then 1 else 0 := by
      rw [wideQuotient_unsigned .uint32 (by decide) rfl, residues_ediv p d (by omega) (by omega)]
      split <;> rfl
    rw [ha, hb, hq, hres]
    simp only [width, Nat.reduceEqDiff, reduceCtorEq, false_and, or_self, iff_false]
    omega
  | int64 _ _ hp1 hd1 =>
    have hr' : Ranged .int64 p d := .int64 p d hp1 hd1
    have hb : rebuiltQuotient .int64 p d = if d ≤ p then 1 else 0 := by
      rw [rebuiltQuotient, rebuilt_wide .int64 rfl p d hr', residues_ediv p d (by omega) (by omega)]
      split <;> rfl
    rw [wideQuotient_signed .int64 rfl p d hr' hfit, hb, hq, hres]
    simp [width]
  | uint64 _ _ hp1 hd1 =>
    have hr' : Ranged .uint64 p d := .uint64 p d hp1 hd1
    have hb : rebuiltQuotient .uint64 p d = if d ≤ p then 1 else 0 := by
      rw [rebuiltQuotient, rebuilt_wide .uint64 rfl p d hr', residues_ediv p d (by omega) (by omega)]
      split <;> rfl
    have ha : wideQuotient .uint64 p d = if d ≤ p then 1 else 0 := by
      rw [wideQuotient_unsigned .uint64 (by decide) rfl, residues_ediv p d (by omega) (by omega)]
      split <;> rfl
    rw [ha, hb, hq, hres]
    simp [width]

end NegativeProduct

/-! ## The two bodies -/

section Bodies
variable {a b c : IntegralType}

/-- Both bodies return the exact quotient, where that fits the result type, for the calls of
`BodiesAgree` and for no others. -/
theorem bodies_exact_iff (mp : Uint128) (hmp : mp.Documented) (x : Value a) (n : Value b)
    (d : Value c) (hd : d.val ≠ 0) (hfit : (resultType a b c).Contains (quotient x n d)) :
    (mulDiv x n d = quotient x n d ∧ mulDivWin32 mp x n d = quotient x n d) ↔
      BodiesAgree (resultType a b c) (x.val * n.val) d.val := by
  have hr := ranged a b c x n d
  have hwide : mulDiv x n d = wideQuotient (resultType a b c) (x.val * n.val) d.val :=
    mulDiv_eq a b c x n d
  have hrebuilt : mulDivWin32 mp x n d =
      rebuiltQuotient (resultType a b c) (x.val * n.val) d.val :=
    mulDivWin32_eq mp hmp a b c x n d hd
  rw [hwide, hrebuilt]
  unfold quotient at hfit ⊢
  generalize x.val * n.val = p at hr hfit ⊢
  generalize d.val = e at hd hr hfit ⊢
  unfold BodiesAgree
  rcases lt_or_ge p 0 with hp | hp <;> rcases lt_or_gt_of_ne hd with he | he
  · rw [agree_neg_neg _ p e hr hp he hfit]
    simp only [not_le.mpr hp, not_lt.mpr he.le, hp, he, false_and, true_and, false_or]
  · rw [agree_neg_pos _ p e hr hp he hfit]
    simp only [not_le.mpr hp, not_lt.mpr he.le, hp, he, false_and, true_and, false_or, or_false]
  · rw [agree_nonneg_neg _ p e hr hp he hfit]
    simp only [not_lt.mpr hp, not_lt.mpr he.le, hp, he, false_and, true_and, false_or, or_false]
  · rw [agree_nonneg_pos _ p e hr hp he hfit]
    simp only [not_lt.mpr hp, not_lt.mpr he.le, hp, he, false_and, true_and, or_false]

end Bodies

/-- Numbers below `2^128` with the documented operations. -/
def uint128 : Uint128 where
  Number := ℕ
  value m := m
  ofInt v := (v % 2 ^ 128).toNat
  shiftLeft m k := m * 2 ^ k % 2 ^ 128
  or m k := m ||| k
  div m k := m / k
  cast t m := if t.signed then min (m : ℤ) (t.limit - 1) else (m : ℤ) % t.limit

theorem uint128_documented : uint128.Documented where
  ofInt v := Int.toNat_of_nonneg (by omega)
  shiftLeft m k := rfl
  or m k := rfl
  div m k hk := rfl
  castSigned t m hs := by simp [uint128, hs]
  castUnsigned t m hb hs := by simp [uint128, hs]

/-- The first case of the test: the product needs more than 64 bits. -/
theorem bodies_exact_iff_max : ∃ (x : Value .uint64) (n : Value .int32),
    x.val = 2 ^ 64 - 1 ∧ n.val = 111 ∧ mulDiv x n x = 111 ∧ mulDivWin32 uint128 x n x = 111 := by
  let x : Value .uint64 := ⟨2 ^ 64 - 1, by decide⟩
  let n : Value .int32 := ⟨111, by decide⟩
  have hquot : quotient x n x = 111 := by decide
  obtain ⟨hwide, hrebuilt⟩ := (bodies_exact_iff uint128 uint128_documented x n x (by decide)
    (by rw [hquot]; decide)).mpr (by decide)
  exact ⟨x, n, rfl, rfl, hwide.trans hquot, hrebuilt.trans hquot⟩

/-- With `int` operands the low part is 32 bits of the product, and the bits 32 to 63 are lost. -/
theorem mulDivWin32_int_loses_bits : ∃ x : Value .int32,
    x.val = 65536 ∧ (resultType .int32 .int32 .int32).Contains (quotient x x x) ∧
      mulDiv x x x = quotient x x x ∧ quotient x x x = 65536 ∧ mulDivWin32 uint128 x x x = 0 := by
  exact ⟨⟨65536, by decide⟩, rfl, by decide, by decide, by decide, by decide⟩

/-- For 64-bit unsigned arithmetic without a negative operand the body without `WIN32` is the
quotient modulo `2^64`. -/
theorem mulDiv_uint64 {a b c : IntegralType} (ht : resultType a b c = .uint64) (x : Value a)
    (n : Value b) (d : Value c) (hx : 0 ≤ x.val) (hn : 0 ≤ n.val) (hd : 0 < d.val) :
    mulDiv x n d = x.val * n.val / d.val % 2 ^ 64 := by
  have hr := ranged a b c x n d
  have hwide : mulDiv x n d = wideQuotient (resultType a b c) (x.val * n.val) d.val :=
    mulDiv_eq a b c x n d
  obtain ⟨⟨-, hp⟩, ⟨-, hd1⟩, -⟩ := hr.bounds
  have hp0 : 0 ≤ x.val * n.val := mul_nonneg hx hn
  rw [hwide, ht, wideQuotient_unsigned .uint64 (by decide) rfl, Int.emod_eq_of_lt hp0 hp,
    Int.emod_eq_of_lt hd.le (by omega)]
  rfl

end DpdkTools.Numerics
