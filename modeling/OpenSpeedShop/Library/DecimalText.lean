import Mathlib.Algebra.Group.Nat.Defs
import Mathlib.Data.List.Basic
import Mathlib.Data.Nat.Log

/-!
Decimal numerals: what their digits denote, and what the leading digits of one
denote as a fraction.
-/

namespace DecimalText

open Nat (toDigits)

def value (digits : List Char) : Nat := Nat.ofDigitChars 10 digits 0

def number? (text : List Char) : Option Nat :=
  if text ≠ [] ∧ text.all Char.isDigit then some (value text) else none

variable {number count width : Nat}

theorem isDigit_of_mem {char : Char} (member : char ∈ toDigits 10 number) : char.isDigit = true :=
  Nat.isDigit_of_mem_toDigits (by decide) (by decide) member

theorem number?_toDigits (number : Nat) : number? (toDigits 10 number) = some number := by
  have all : (toDigits 10 number).all Char.isDigit = true :=
    List.all_eq_true.mpr fun _ member => isDigit_of_mem member
  rw [number?, if_pos ⟨Nat.toDigits_ne_nil, all⟩, value, Nat.ofDigitChars_ten_toDigits]

theorem value_lt {digits : List Char} (all : ∀ char ∈ digits, char.isDigit = true) :
    value digits < 10 ^ digits.length := by
  unfold value
  induction digits with
  | nil => exact Nat.one_pos
  | cons digit rest ih =>
    have own := Char.isDigit_iff_toNat.mp (all digit List.mem_cons_self)
    have later := ih fun char member => all char (List.mem_cons_of_mem digit member)
    have low : '0'.toNat = 48 := rfl
    have high : digit.toNat ≤ 57 := own.2
    have bound : 10 ^ rest.length * (digit.toNat - '0'.toNat) ≤ 10 ^ rest.length * 9 :=
      Nat.mul_le_mul_left _ (by omega)
    rw [Nat.ofDigitChars_cons, Nat.ofDigitChars_eq_ofDigitChars_zero, List.length_cons,
      Nat.pow_succ, Nat.mul_zero, Nat.zero_add]
    omega

theorem value_take_toDigits : value ((toDigits 10 number).take count) =
    number / 10 ^ ((toDigits 10 number).length - count) := by
  induction number using Nat.strongRecOn with
  | ind number ih =>
    by_cases whole : (toDigits 10 number).length ≤ count
    · rw [List.take_of_length_le whole, Nat.sub_eq_zero_of_le whole, Nat.pow_zero, Nat.div_one,
        value, Nat.ofDigitChars_ten_toDigits]
    · by_cases small : number < 10
      · rw [Nat.toDigits_of_lt_base small, List.length_singleton] at whole ⊢
        have zero : count = 0 := by omega
        rw [zero, List.take_zero, Nat.pow_one, Nat.div_eq_of_lt small]
        exact Nat.ofDigitChars_nil
      · have step := Nat.toDigits_of_base_le (b := 10) (by decide) (Nat.le_of_not_lt small)
        have shorter := ih (number / 10) (by omega)
        rw [step, List.length_append, List.length_singleton] at whole ⊢
        have inside : count ≤ (toDigits 10 (number / 10)).length := by omega
        rw [List.take_append_of_le_length inside, shorter, Nat.div_div_eq_div_mul,
          Nat.sub_add_comm inside, Nat.pow_succ, Nat.mul_comm]

theorem pow_le_of_length (positive : 0 < number) : 10 ^ ((toDigits 10 number).length - 1) ≤ number := by
  by_cases single : (toDigits 10 number).length - 1 = 0
  · rw [single]
    exact positive
  · refine Nat.le_of_not_lt fun small => ?_
    have shorter := (Nat.length_toDigits_le_iff (by decide) (Nat.pos_of_ne_zero single)).mpr small
    omega

theorem leading_eq_iff (positive : 0 < number) (shown : 0 < count)
    (short : count ≤ (toDigits 10 number).length) (fits : number < 10 ^ width) :
    number / 10 ^ ((toDigits 10 number).length - count) = number * 10 ^ count / 10 ^ width ↔
      (toDigits 10 number).length = width := by
  have wide : 0 < width := by
    refine Nat.pos_of_ne_zero fun zero => ?_
    rw [zero, Nat.pow_zero] at fits
    omega
  have bound := (Nat.length_toDigits_le_iff (by decide) wide).mpr fits
  generalize length : (toDigits 10 number).length = digits at short bound ⊢
  have whole : 10 ^ width = 10 ^ (digits - count) * 10 ^ (width - digits) * 10 ^ count := by
    rw [← Nat.pow_add, ← Nat.pow_add]
    congr 1
    omega
  rw [whole, Nat.mul_div_mul_right _ _ (Nat.pow_pos (by decide)), ← Nat.div_div_eq_div_mul]
  have leads : 0 < number / 10 ^ (digits - count) := by
    have smaller : 10 ^ (digits - count) ≤ 10 ^ (digits - 1) :=
      Nat.pow_le_pow_right (by decide) (by omega)
    have least := pow_le_of_length positive
    rw [length] at least
    exact Nat.div_pos (Nat.le_trans smaller least) (Nat.pow_pos (by decide))
  constructor
  · intro same
    refine Nat.le_antisymm bound (Nat.le_of_not_lt fun narrow => ?_)
    have several : 1 < 10 ^ (width - digits) := Nat.one_lt_pow (by omega) (by decide)
    have smaller := Nat.div_lt_self leads several
    omega
  · rintro rfl
    rw [Nat.sub_self, Nat.pow_zero, Nat.div_one]

end DecimalText
