import Mathlib.Algebra.GroupWithZero.Nat
import Mathlib.Data.List.Basic

/-! Numbers as bytes, lowest byte first, and records of words of eight bytes. -/

namespace LittleEndian

def write : (count number : Nat) → List UInt8
  | 0, _ => []
  | count + 1, number => UInt8.ofNat number :: write count (number / 256)

def value : List UInt8 → Nat
  | [] => 0
  | byte :: rest => byte.toNat + 256 * value rest

@[simp] theorem length_write (count number : Nat) : (write count number).length = count := by
  induction count generalizing number with
  | zero => rfl
  | succ count ih => rw [write, List.length_cons, ih]

theorem value_write (count number : Nat) : value (write count number) = number % 256 ^ count := by
  induction count generalizing number with
  | zero => simp [write, value, Nat.mod_one]
  | succ count ih =>
    have low : (UInt8.ofNat number).toNat = number % 256 := UInt8.toNat_ofNat'
    rw [write, value, ih, low, Nat.pow_succ, Nat.mul_comm (256 ^ count) 256, Nat.mod_mul]

def writeWords (words : List UInt64) : List UInt8 :=
  words.flatMap fun word => write 8 word.toNat

def readWords : (count : Nat) → List UInt8 → List UInt64
  | 0, _ => []
  | count + 1, bytes => UInt64.ofNat (value (bytes.take 8)) :: readWords count (bytes.drop 8)

theorem length_writeWords (words : List UInt64) : (writeWords words).length = 8 * words.length := by
  induction words with
  | nil => rfl
  | cons word rest ih =>
    rw [writeWords, List.flatMap_cons, List.length_append, length_write, List.length_cons]
    rw [writeWords] at ih
    omega

theorem readWords_writeWords (words : List UInt64) (rest : List UInt8) :
    readWords words.length (writeWords words ++ rest) = words := by
  induction words with
  | nil => rfl
  | cons word more ih =>
    have whole : value (write 8 word.toNat) = word.toNat := by
      rw [value_write]
      exact Nat.mod_eq_of_lt word.toNat_lt
    rw [writeWords, List.flatMap_cons, List.append_assoc, List.length_cons, readWords,
      List.take_left' (length_write _ _), List.drop_left' (length_write _ _), whole]
    exact congrArg₂ _ (UInt64.ofNat_toNat) ih

end LittleEndian
