import Mathlib.Algebra.Ring.Nat
import Mathlib.Data.List.TakeWhile

/-! Numbers written with digits: the value of a digit string in any base, the decimal numbers among
all texts, and that the digits of a number have its value. -/
namespace DpdkTools.Numerals
set_option autoImplicit false

/-- The value of digits in base `b`, where `digit` tells what a character stands for. -/
def value (b : ℕ) (digit : Char → ℕ) (cs : List Char) : ℕ := cs.foldl (fun n c => b * n + digit c) 0

def decDigit (c : Char) : ℕ := c.toNat - '0'.toNat

def hexDigit (c : Char) : ℕ := if c.isDigit then c.toNat - '0'.toNat else c.toNat - 'a'.toNat + 10

/-- The number that a text of decimal digits alone denotes. -/
def decimal? (cs : List Char) : Option ℕ :=
  if cs ≠ [] ∧ cs.all Char.isDigit then some (value 10 decDigit cs) else none

theorem value_concat (b : ℕ) (digit : Char → ℕ) (cs : List Char) (c : Char) :
    value b digit (cs ++ [c]) = b * value b digit cs + digit c := by
  rw [value, List.foldl_append]
  rfl

/-! ## The digits of a number -/

theorem value_toDigits (b : ℕ) (digit : Char → ℕ) (hb : 1 < b)
    (hdigit : ∀ d < b, digit (Nat.digitChar d) = d) (n : ℕ) :
    value b digit (Nat.toDigits b n) = n := by
  induction n using Nat.strongRecOn with
  | _ n ih =>
    by_cases hlt : n < b
    · rw [Nat.toDigits_of_lt_base hlt]
      change b * 0 + digit (Nat.digitChar n) = n
      rw [Nat.mul_zero, Nat.zero_add, hdigit n hlt]
    · have hdiv : n / b < n := Nat.div_lt_self (by omega) hb
      have hmod : n % b < b := Nat.mod_lt n (by omega)
      rw [Nat.toDigits_of_base_le hb (by omega), value_concat, ih (n / b) hdiv, hdigit _ hmod]
      exact Nat.div_add_mod n b

theorem decDigit_digitChar : ∀ d < 10, decDigit (Nat.digitChar d) = d := by decide

theorem hexDigit_digitChar : ∀ d < 16, hexDigit (Nat.digitChar d) = d := by decide

theorem decimal?_toDigits (n : ℕ) : decimal? (Nat.toDigits 10 n) = some n := by
  have hall : (Nat.toDigits 10 n).all Char.isDigit = true := by
    rw [List.all_eq_true]
    intro c hc
    exact Nat.isDigit_of_mem_toDigits (by decide) (by decide) hc
  rw [decimal?, if_pos ⟨Nat.toDigits_ne_nil, hall⟩,
    value_toDigits 10 decDigit (by decide) decDigit_digitChar n]

theorem hexValue_toDigits (n : ℕ) : value 16 hexDigit (Nat.toDigits 16 n) = n :=
  value_toDigits 16 hexDigit (by decide) hexDigit_digitChar n

/-! ## Reading digits from the front -/

theorem takeWhile_isDigit (cs : List Char) (n : ℕ) (h : decimal? cs = some n) :
    cs.takeWhile Char.isDigit = cs ∧ cs ≠ [] ∧ value 10 decDigit cs = n := by
  unfold decimal? at h
  split_ifs at h with hdec
  obtain ⟨hne, hall⟩ := hdec
  refine ⟨?_, hne, Option.some.inj h⟩
  rw [List.takeWhile_eq_self_iff]
  exact List.all_eq_true.mp hall

theorem decimal?_of_takeWhile (cs : List Char) (hne : cs.takeWhile Char.isDigit ≠ [])
    (hlen : cs.length ≤ (cs.takeWhile Char.isDigit).length) :
    decimal? cs = some (value 10 decDigit (cs.takeWhile Char.isDigit)) := by
  have hself : cs.takeWhile Char.isDigit = cs :=
    (List.takeWhile_prefix Char.isDigit).eq_of_length_le hlen
  have hall : cs.all Char.isDigit = true := by
    rw [List.all_eq_true]
    exact List.takeWhile_eq_self_iff.mp hself
  rw [hself] at hne
  rw [decimal?, if_pos ⟨hne, hall⟩, hself]

end DpdkTools.Numerals
