import Mathlib.Algebra.Order.Ring.Int
import Mathlib.Tactic.Linarith

/-! The integral types of C++ up to 64 bits, by width and signedness, with the integral promotions
and the usual arithmetic conversions.

Types of the same width and signedness (`long` and `long long`, `char` and `signed char`) have the
same values and convert alike, so they share a constructor. -/
namespace DpdkTools.Integral
set_option autoImplicit false

inductive IntegralType where
  | bool
  | int8
  | uint8
  | int16
  | uint16
  | int32
  | uint32
  | int64
  | uint64
  deriving Repr, DecidableEq

namespace IntegralType

def signed : IntegralType → Bool
  | .int8 | .int16 | .int32 | .int64 => true
  | .bool | .uint8 | .uint16 | .uint32 | .uint64 => false

def width : IntegralType → ℕ
  | .bool => 1
  | .int8 | .uint8 => 8
  | .int16 | .uint16 => 16
  | .int32 | .uint32 => 32
  | .int64 | .uint64 => 64

/-- The least value of the type. -/
def lowest (t : IntegralType) : ℤ := if t.signed then -2 ^ (t.width - 1) else 0

/-- The least integer above all values of the type. -/
def limit (t : IntegralType) : ℤ := if t.signed then 2 ^ (t.width - 1) else 2 ^ t.width

def Contains (t : IntegralType) (v : ℤ) : Prop := t.lowest ≤ v ∧ v < t.limit

instance (t : IntegralType) (v : ℤ) : Decidable (t.Contains v) :=
  inferInstanceAs (Decidable (_ ∧ _))

/-- A value of the type. -/
structure Value (t : IntegralType) where
  val : ℤ
  contained : t.Contains val

/-- Conversion to the type: modulo its width, except for `bool`. -/
def cast (t : IntegralType) (v : ℤ) : ℤ :=
  if t = .bool then if v = 0 then 0 else 1
  else if t.signed then Int.bmod v (2 ^ t.width)
  else v % 2 ^ t.width

/-- The integral promotions. -/
def promote : IntegralType → IntegralType
  | .uint32 => .uint32
  | .int64 => .int64
  | .uint64 => .uint64
  | _ => .int32

/-- The usual arithmetic conversions: the type of `a * b` and of `a / b`. -/
def common (a b : IntegralType) : IntegralType :=
  if a.promote.signed = b.promote.signed then
    if a.promote.width < b.promote.width then b.promote else a.promote
  else if a.promote.signed then
    if b.promote.width < a.promote.width then a.promote else b.promote
  else
    if a.promote.width < b.promote.width then b.promote else a.promote

/-! ## Ranges under the conversions -/

/-- How far below zero an operand of an operation in the type can be: signed operands of the same
width meet in the unsigned type. -/
def reach (t : IntegralType) : ℤ := -2 ^ (t.width - 1)

theorem reach_le_lowest (t : IntegralType) : t.reach ≤ t.lowest := by
  cases t <;> decide

theorem common_left (a b : IntegralType) :
    (common a b).reach ≤ a.reach ∧ a.limit ≤ (common a b).limit := by
  cases a <;> cases b <;> decide

theorem common_right (a b : IntegralType) :
    (common a b).reach ≤ b.reach ∧ b.limit ≤ (common a b).limit := by
  cases a <;> cases b <;> decide

/-- Arithmetic happens in one of four types. -/
theorem common_cases (a b : IntegralType) :
    common a b = .int32 ∨ common a b = .uint32 ∨ common a b = .int64 ∨ common a b = .uint64 := by
  cases a <;> cases b <;> decide

theorem common_ne_bool (a b : IntegralType) : common a b ≠ .bool := by
  rcases common_cases a b with h | h | h | h <;> rw [h] <;> decide

theorem width_pos (t : IntegralType) : 0 < t.width := by
  cases t <;> decide

theorem cast_of_contains (t : IntegralType) (ht : t ≠ .bool) (v : ℤ) (hv : t.Contains v) :
    t.cast v = v := by
  obtain ⟨hlow, hlimit⟩ := hv
  rw [cast, if_neg ht]
  cases hs : t.signed with
  | true =>
    rw [lowest, hs, if_pos rfl] at hlow
    rw [limit, hs, if_pos rfl] at hlimit
    -- a signed type takes half of the residues on either side of zero
    have hhalf : (2 : ℤ) ^ t.width = 2 ^ (t.width - 1) * 2 := by
      rw [← pow_succ, Nat.sub_add_cancel (width_pos t)]
    rw [if_pos rfl]
    apply Int.bmod_eq_of_le_mul_two
    · push_cast
      linarith
    · push_cast
      linarith
  | false =>
    rw [lowest, hs, if_neg Bool.false_ne_true] at hlow
    rw [limit, hs, if_neg Bool.false_ne_true] at hlimit
    rw [if_neg Bool.false_ne_true]
    exact Int.emod_eq_of_lt hlow hlimit

end IntegralType

end DpdkTools.Integral
