import Mathlib.Algebra.GroupWithZero.Nat
import Mathlib.Data.List.Basic

/-!
Words of four bytes, highest byte first, at the head of a list of bytes.
-/

namespace BigEndianWords

def value (b₀ b₁ b₂ b₃ : UInt8) : Nat :=
  b₀.toNat * 2 ^ 24 + b₁.toNat * 2 ^ 16 + b₂.toNat * 2 ^ 8 + b₃.toNat

def read : List UInt8 → Option (Nat × List UInt8)
  | b₀ :: b₁ :: b₂ :: b₃ :: rest => some (value b₀ b₁ b₂ b₃, rest)
  | _ => none

def write (number : Nat) : List UInt8 :=
  [UInt8.ofNat (number / 2 ^ 24), UInt8.ofNat (number / 2 ^ 16), UInt8.ofNat (number / 2 ^ 8),
    UInt8.ofNat number]

def All (condition : Nat → Prop) : List UInt8 → Prop
  | [] => True
  | b₀ :: b₁ :: b₂ :: b₃ :: rest => condition (value b₀ b₁ b₂ b₃) ∧ All condition rest
  | _ => False

@[simp] theorem length_write (number : Nat) : (write number).length = 4 := rfl

variable {number : Nat}

theorem read_write (fits : number < 2 ^ 32) (rest : List UInt8) :
    read (write number ++ rest) = some (number, rest) := by
  have bytes : value (UInt8.ofNat (number / 2 ^ 24)) (UInt8.ofNat (number / 2 ^ 16))
      (UInt8.ofNat (number / 2 ^ 8)) (UInt8.ofNat number) = number := by
    simp only [value, UInt8.toNat_ofNat']
    omega
  simp only [write, List.cons_append, List.nil_append, read, bytes]

theorem read_eq_none {bytes : List UInt8} : read bytes = none ↔ bytes.length < 4 := by
  match bytes with
  | [] | [_] | [_, _] | [_, _, _] => simp [read]
  | _ :: _ :: _ :: _ :: _ => simp [read]

variable {bytes rest : List UInt8}

theorem length_of_read (found : read bytes = some (number, rest)) : bytes.length = rest.length + 4 := by
  match bytes with
  | [] | [_] | [_, _] | [_, _, _] => simp [read] at found
  | _ :: _ :: _ :: _ :: _ =>
    obtain ⟨-, rfl⟩ := Prod.mk.inj (Option.some.inj found)
    rfl

theorem eq_drop_of_read (found : read bytes = some (number, rest)) : rest = bytes.drop 4 := by
  match bytes with
  | [] | [_] | [_, _] | [_, _, _] => simp [read] at found
  | _ :: _ :: _ :: _ :: _ =>
    obtain ⟨-, rfl⟩ := Prod.mk.inj (Option.some.inj found)
    rfl

theorem read_append (found : read bytes = some (number, rest)) (more : List UInt8) :
    read (bytes ++ more) = some (number, rest ++ more) := by
  match bytes with
  | [] | [_] | [_, _] | [_, _, _] => simp [read] at found
  | _ :: _ :: _ :: _ :: _ =>
    obtain ⟨rfl, rfl⟩ := Prod.mk.inj (Option.some.inj found)
    rfl

variable {condition : Nat → Prop}

theorem all_of_read (found : read bytes = some (number, rest)) :
    All condition bytes ↔ condition number ∧ All condition rest := by
  match bytes with
  | [] | [_] | [_, _] | [_, _, _] => simp [read] at found
  | _ :: _ :: _ :: _ :: _ =>
    obtain ⟨rfl, rfl⟩ := Prod.mk.inj (Option.some.inj found)
    rfl

theorem eq_nil_of_all {bytes : List UInt8} (short : bytes.length < 4) : All condition bytes ↔ bytes = [] := by
  match bytes with
  | [] | [_] | [_, _] | [_, _, _] => simp [All]
  | _ :: _ :: _ :: _ :: rest =>
    simp only [List.length_cons] at short
    omega

end BigEndianWords
