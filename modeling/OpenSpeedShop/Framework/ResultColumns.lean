import OpenSpeedShop.Framework.AddressBitmapCore
import OpenSpeedShop.Library.OffsetBinary

/-!
The columns of the active row of a statement, named by numbers from one to the number of columns; a
column of another type is converted by SQLite.
-/

namespace OpenSpeedShop

inductive Column
  | integer (value : Int64)
  | blob (contents : List UInt8)
deriving DecidableEq

namespace Column

def isSpace (byte : UInt8) : Bool := byte = 32 || (9 ≤ byte && byte ≤ 13)

def isDigit (byte : UInt8) : Bool := 48 ≤ byte && byte ≤ 57

def digits (text : List UInt8) : Nat :=
  (text.takeWhile isDigit).foldl (fun value byte => 10 * value + (byte.toNat - 48)) 0

/-- `CAST(blob AS INTEGER)`: the longest prefix that reads as an integer, which is
clamped to the range of the type. -/
def castToInteger (contents : List UInt8) : Int64 :=
  let value : Int := match contents.dropWhile isSpace with
    | 45 :: rest => -digits rest
    | 43 :: rest => digits rest
    | text => digits text
  Int64.ofInt (max (-2 ^ 63) (min (2 ^ 63 - 1) value))

def toInt64 : Column → Int64
  | .integer value => value
  | .blob contents => castToInteger contents

def toBlob : Column → List UInt8
  | .integer value => (toString value.toInt).toUTF8.toList
  | .blob contents => contents

end Column

namespace Database

/-- `Assert(index > 0); Assert(index <= sqlite3_column_count(...));` -/
def resultColumn (row : List Column) (index : Nat) : Result Column :=
  if index = 0 then .error .assertion
  else
    match row[index - 1]? with
    | some column => .ok column
    | none => .error .assertion

def getResultAsAddress (row : List Column) (index : Nat) : Result Address := do
  let column ← resultColumn row index
  return OffsetBinary.decode column.toInt64

def getResultAsBlob (row : List Column) (index : Nat) : Result (List UInt8) := do
  let column ← resultColumn row index
  return column.toBlob

def getResultAsTime (row : List Column) (index : Nat) : Result Time := do
  let column ← resultColumn row index
  return OffsetBinary.decode column.toInt64

theorem resultColumn_of_length_lt {row : List Column} {index : Nat} (missing : row.length < index) :
    resultColumn row index = .error .assertion := by
  have outside : row[index - 1]? = none := List.getElem?_eq_none (by omega)
  rw [resultColumn, outside]
  split <;> rfl

def signedOffset : Int64 := Int64.maxValue + 1

def storedAddress (value : Address) : Int64 := value.toInt64 - signedOffset

def storedTime (value : Time) : Int64 := value.toInt64 - signedOffset

/-- `Assert(index > 0); Assert(index <= sqlite3_bind_parameter_count(...));` -/
def bindColumn (arguments : List Column) (index : Nat) (column : Column) : Result (List Column) :=
  if 0 < index ∧ index ≤ arguments.length then .ok (arguments.set (index - 1) column)
  else .error .assertion

def bindAddress (arguments : List Column) (index : Nat) (value : Address) : Result (List Column) :=
  bindColumn arguments index (.integer (storedAddress value))

def bindTime (arguments : List Column) (index : Nat) (value : Time) : Result (List Column) :=
  bindColumn arguments index (.integer (storedTime value))

theorem storedAddress_eq (value : Address) : storedAddress value = OffsetBinary.encode value := rfl

theorem storedTime_eq (value : Time) : storedTime value = OffsetBinary.encode value := rfl

variable (before after : List Column) (slot column : Column)

theorem bindColumn_slot :
    bindColumn (before ++ slot :: after) (before.length + 1) column = .ok (before ++ column :: after) := by
  have inside : 0 < before.length + 1 ∧ before.length + 1 ≤ (before ++ slot :: after).length := by
    rw [List.length_append, List.length_cons]
    omega
  rw [bindColumn, if_pos inside, Nat.add_sub_cancel,
    List.set_append_right _ _ (Nat.le_refl _), Nat.sub_self, List.set_cons_zero]

theorem resultColumn_slot : resultColumn (before ++ column :: after) (before.length + 1) = .ok column := by
  rw [resultColumn, if_neg (Nat.succ_ne_zero _), Nat.add_sub_cancel,
    List.getElem?_append_right (Nat.le_refl _), Nat.sub_self]
  rfl

/-- What is bound to an argument is read from the column of that argument, and the columns are
in the order of the addresses or times. -/
theorem bound_values_ordered :
    (∀ (before after : List Column) (slot : Column) (value : Address),
      (bindAddress (before ++ slot :: after) (before.length + 1) value >>= fun bound =>
        getResultAsAddress bound (before.length + 1)) = .ok value) ∧
    (∀ (before after : List Column) (slot : Column) (value : Time),
      (bindTime (before ++ slot :: after) (before.length + 1) value >>= fun bound =>
        getResultAsTime bound (before.length + 1)) = .ok value) ∧
    (∀ first second : Address, first < second ↔ storedAddress first < storedAddress second) ∧
    ∀ first second : Time, first < second ↔ storedTime first < storedTime second := by
  have read (value : UInt64) :
      OffsetBinary.decode (Column.integer (OffsetBinary.encode value)).toInt64 = value :=
    OffsetBinary.decode_encode value
  refine ⟨fun before after slot value => ?_, fun before after slot value => ?_,
    fun first second => ?_, fun first second => ?_⟩
  · rw [bindAddress, bindColumn_slot, storedAddress_eq]
    change getResultAsAddress _ _ = _
    rw [getResultAsAddress, resultColumn_slot]
    exact congrArg Except.ok (read value)
  · rw [bindTime, bindColumn_slot, storedTime_eq]
    change getResultAsTime _ _ = _
    rw [getResultAsTime, resultColumn_slot]
    exact congrArg Except.ok (read value)
  · rw [storedAddress_eq, storedAddress_eq, OffsetBinary.encode_lt_encode]
  · rw [storedTime_eq, storedTime_eq, OffsetBinary.encode_lt_encode]

end Database

end OpenSpeedShop
