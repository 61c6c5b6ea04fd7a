import OpenSpeedShop.Daemon.RawDataScanCore
import Mathlib.Data.List.TakeWhile

/-!
What the watcher makes of the names that the runtime gives to raw data files.
-/

namespace OpenSpeedShop

namespace Text

theorem eraseLast_append {needle : Text} (nonempty : needle ≠ []) (text : Text) :
    eraseLast needle (text ++ needle) = text := by
  induction text with
  | nil =>
    cases needle with
    | nil => exact absurd rfl nonempty
    | cons char rest =>
      have shorter : ¬ (char :: rest) <:+: rest := by
        intro inside
        have bound := inside.length_le
        rw [List.length_cons] at bound
        omega
      rw [List.nil_append, eraseLast, if_neg shorter, if_pos (List.prefix_refl _), List.drop_length]
  | cons char rest ih =>
    rw [List.cons_append, eraseLast, if_pos (List.suffix_append rest needle).isInfix, ih]

variable {separator : Char} {tail : Text}

theorem takeWhile_reverse (plain : separator ∉ tail) (front : Text) :
    (front ++ separator :: tail).reverse.takeWhile (· ≠ separator) = tail.reverse := by
  rw [List.reverse_append, List.reverse_cons, List.append_assoc, List.takeWhile_append_of_pos]
  · simp
  · intro char member
    refine decide_eq_true fun same => plain ?_
    rw [← same]
    exact List.mem_reverse.mp member

theorem afterLast_append (plain : separator ∉ tail)
    (front : Text) : afterLast separator (front ++ separator :: tail) = tail := by
  rw [afterLast, takeWhile_reverse plain, List.reverse_reverse]

theorem beforeLast_append (plain : separator ∉ tail)
    (front : Text) : beforeLast separator (front ++ separator :: tail) = some front := by
  have dropped : (front ++ separator :: tail).reverse.dropWhile (· ≠ separator) =
      separator :: front.reverse := by
    rw [List.reverse_append, List.reverse_cons, List.append_assoc, List.dropWhile_append_of_pos]
    · simp
    · intro char member
      refine decide_eq_true fun same => plain ?_
      rw [← same]
      exact List.mem_reverse.mp member
  rw [beforeLast, dropped]
  simp

theorem hyphen_not_mem_toDigits (number : Nat) : '-' ∉ Nat.toDigits 10 number := by
  intro member
  have digit := Nat.isDigit_of_mem_toDigits (by decide) (by decide) member
  exact absurd digit (by decide)

theorem scanNumber_toDigits {number : Nat} (fits : number < 2 ^ 63) :
    scanNumber (Nat.toDigits 10 number) = (number : Int) := by
  have digits : ∀ char ∈ Nat.toDigits 10 number, char.isDigit = true :=
    fun char member => Nat.isDigit_of_mem_toDigits (by decide) (by decide) member
  have all : (Nat.toDigits 10 number).takeWhile Char.isDigit = Nat.toDigits 10 number :=
    List.takeWhile_eq_self_iff.mpr digits
  have value : Nat.ofDigitChars 10 (Nat.toDigits 10 number) 0 = number :=
    Nat.ofDigitChars_ten_toDigits
  cases isDigits : Nat.toDigits 10 number with
  | nil => exact absurd isDigits Nat.toDigits_ne_nil
  | cons first rest =>
    rw [isDigits] at digits all value
    have digit := Char.isDigit_iff_toNat.mp (digits first List.mem_cons_self)
    have low : 48 ≤ first.toNat := digit.1
    have notSpace : isSpace first = false := by
      unfold isSpace
      simp only [Bool.or_eq_false_iff, Bool.and_eq_false_iff, decide_eq_false_iff_not]
      omega
    unfold scanNumber
    rw [List.dropWhile_cons_of_neg (by rw [notSpace]; decide)]
    split
    · rename_i minus
      obtain ⟨rfl, -⟩ := List.cons.inj minus
      exact absurd low (by decide)
    · rename_i plus
      obtain ⟨rfl, -⟩ := List.cons.inj plus
      exact absurd low (by decide)
    · change min (2 ^ 63 - 1)
        ((Nat.ofDigitChars 10 ((first :: rest).takeWhile Char.isDigit) 0 : Nat) : Int) = number
      rw [all, value]
      omega

end Text

namespace Daemon

namespace Watcher

theorem threadOf_path {file : DataFile} (threaded : file.tid ≠ 0) (pid : file.pid < 2 ^ 31)
    (tid : file.tid.toNat < 2 ^ 63) : getPidFromFilename file.path.name = some (file.pid : Int) ∧
      getTidFromFilename file.path.name = file.tid := by
  have name : Text.eraseLast dataSuffix file.path.name =
      (file.executable ++ '-' :: Nat.toDigits 10 file.pid) ++ '-' :: Nat.toDigits 10 file.tid.toNat := by
    unfold DataFile.path
    rw [if_neg threaded]
    exact Text.eraseLast_append (by decide) _
  unfold getPidFromFilename getTidFromFilename
  rw [name, Text.beforeLast_append (Text.hyphen_not_mem_toDigits _),
    Text.afterLast_append (Text.hyphen_not_mem_toDigits _), Option.map_some,
    Text.afterLast_append (Text.hyphen_not_mem_toDigits _), Text.scanNumber_toDigits (by omega),
    Text.scanNumber_toDigits tid]
  constructor
  · rw [Option.some.injEq, Int.bmod_def]
    omega
  · have same : ((file.tid.toNat : Int) % 2 ^ 64).toNat = file.tid.toNat := by omega
    rw [same, UInt64.ofNat_toNat]

end Watcher

end Daemon

end OpenSpeedShop
