import OpenSpeedShop.Library.Fallible
import OpenSpeedShop.Library.OuterJoin
import Mathlib.Algebra.GroupWithZero.Nat
import Mathlib.Algebra.Ring.Int.Defs

/-!
Merging the partial views of a comparison. `ltCR` orders the right most columns; two are one identifier
when neither precedes the other. Reading behind a list, or through a wrong cast, has no outcome.
-/

namespace OpenSpeedShop.CustomView

inductive ResultType
  | address | uint | int | float | string | rawString | time | duration | interval
deriving DecidableEq

inductive CommandResult (Double : Type)
  | address (value : UInt64)
  | uint (value : UInt64)
  | int (value : Int64)
  | float (value : Double)
  | string (value : String)
  | rawString (value : String)
  | time (value : UInt64)
  | duration (value : Int64)
  | interval (value : Double)
deriving DecidableEq

section

variable {Double : Type} [Zero Double] [Sub Double] [LE Double] [DecidableLE Double]

namespace CommandResult

def type : CommandResult Double → ResultType
  | address _ => .address
  | uint _ => .uint
  | int _ => .int
  | float _ => .float
  | string _ => .string
  | rawString _ => .rawString
  | time _ => .time
  | duration _ => .duration
  | interval _ => .interval

def null : ResultType → CommandResult Double
  | .address => address 0
  | .uint => uint 0
  | .int => int 0
  | .float => float 0
  | .string => string ""
  | .rawString => rawString ""
  | .time => time 0
  | .duration => duration 0
  | .interval => interval 0

def initOfType (value : CommandResult Double) : CommandResult Double := null value.type

def absDiff {Number : Type} [Sub Number] [LE Number] [DecidableLE Number] (a b : Number) : Number :=
  if a ≥ b then a - b else b - a

def absDiffValue : CommandResult Double → CommandResult Double → Option (CommandResult Double)
  | address a, address b => some (address (absDiff a b))
  | uint a, uint b => some (uint (absDiff a b))
  | int a, int b => some (int (absDiff a b))
  | float a, float b => some (float (absDiff a b))
  | duration a, duration b => some (duration (absDiff a b))
  | _, _ => none

end CommandResult

def ResultType.isNumeric : ResultType → Bool
  | .address | .uint | .int | .float | .duration => true
  | .string | .rawString | .time | .interval => false

def columnAbsDiff (delta a : CommandResult Double) : Option (CommandResult Double) :=
  if a.type.isNumeric then
    if delta.type.isNumeric then delta.absDiffValue a else some a
  else some delta

/-- `CommandResult_Columns` and `CommandResult_Enders`: the values and the right
most column. -/
structure Row (Double Id : Type) where
  columns : List (CommandResult Double)
  last : Id
deriving DecidableEq

/-- A view that was generated. Every row has a value for each column, of the type
of the column or the blank string, and an identifier of its own. -/
structure View (Double Id : Type) where
  header : List String
  lastHeader : String
  types : List ResultType
  rows : List (Row Double Id)
  enders : List (Row Double Id)
  sized : header.length = types.length
  nonempty : types ≠ []
  typed : ∀ row ∈ rows, List.Forall₂ (fun value type => value.type = type ∨ value = .string "")
    row.columns types
  complete : ∀ row ∈ enders, row.columns.length = types.length
  distinct : (rows.map Row.last).Nodup
  distinctEnders : (enders.map Row.last).Nodup

structure SelectionTarget (Double Id : Type) where
  headerPrefix : String
  partialView : Option (View Double Id)

structure Comparison (Double Id : Type) where
  first : SelectionTarget Double Id
  others : List (SelectionTarget Double Id)
  computeDelta : Bool
  difference : computeDelta = true → ∃ other, others = [other] ∧
    first.partialView.isSome = true ∧ other.partialView.isSome = true

structure Report (Double Id : Type) where
  header : List String
  rows : List (Row Double Id)
  enders : List (Row Double Id)
deriving DecidableEq

variable {Id : Type}

namespace SelectionTarget

def header (set : SelectionTarget Double Id) : List String :=
  match set.partialView with
  | none => []
  | some view => view.header

def numColumns (set : SelectionTarget Double Id) : Nat := set.header.length

def rows (set : SelectionTarget Double Id) : List (Row Double Id) :=
  match set.partialView with
  | none => []
  | some view => view.rows

def enders (set : SelectionTarget Double Id) : List (Row Double Id) :=
  match set.partialView with
  | none => []
  | some view => view.enders

end SelectionTarget

def prefixed (headerPrefix s : String) : String :=
  match headerPrefix.toList.getLast? with
  | none => s
  | some last =>
    if last = ' ' then String.ofList headerPrefix.toList.dropLast ++ ", " ++ s
    else headerPrefix ++ s

/-- The loop over the columns of one set. The first column of all gets the
difference before it. -/
def addHeaders (headerPrefix : String) : (header : List String) → List String × Bool → List String × Bool
  | [], state => state
  | s :: rest, (headers, diffColumnNeeded) =>
    let delta := if diffColumnNeeded then ["Difference Between " ++ s] else []
    addHeaders headerPrefix rest (headers ++ delta ++ [prefixed headerPrefix s], false)

variable [DecidableEq Id]

namespace Comparison

variable (comparison : Comparison Double Id)

def sets : List (SelectionTarget Double Id) := comparison.first :: comparison.others

def headers : List String :=
  (comparison.sets.foldl (fun state set => addHeaders set.headerPrefix set.header state)
    ([], comparison.computeDelta)).1

def lastHeader : Option String :=
  comparison.sets.findSome? fun set => set.partialView.map View.lastHeader

def deltaColumns : Nat := if comparison.computeDelta then 1 else 0

def masters : List Id × List (List (Nat × Row Double Id)) :=
  OuterJoin.enterTables Row.last (comparison.first.rows.map Row.last)
    (comparison.others.map SelectionTarget.rows)

def enderMasters : List Id × List (List (Nat × Row Double Id)) :=
  OuterJoin.enterTables Row.last (comparison.first.enders.map Row.last)
    (comparison.others.map SelectionTarget.enders)

end Comparison

/-- The entries of `Base_Column_Type` for one set: the first value of its first
row, once for each column. Without a row the search runs past the end. -/
def baseColumns (extra : Nat) (set : SelectionTarget Double Id) : Option (List (CommandResult Double)) :=
  match set.partialView with
  | none => some []
  | some view => do
      let row ← view.rows.head?
      let D ← row.columns.head?
      return List.replicate (extra + view.header.length) D

def Comparison.baseColumnType (comparison : Comparison Double Id) : Option (List (CommandResult Double)) := do
  let first ← baseColumns comparison.deltaColumns comparison.first
  let others ← Fallible.gather (baseColumns 0) comparison.others
  return first ++ others

def changeDelta (computeDelta : Bool) (columns : List (CommandResult Double))
    (a : Option (CommandResult Double)) : Option (List (CommandResult Double)) :=
  if computeDelta then
    match columns, a with
    | delta :: rest, some a => (columnAbsDiff delta a).map (· :: rest)
    | _, _ => none
  else some columns

def firstColumns (computeDelta : Bool) (base : List (CommandResult Double)) (numColumns : Nat) :
    Option (Row Double Id) → List (CommandResult Double)
  | some row => (if computeDelta then row.columns.take 1 else []) ++ row.columns.take numColumns
  | none => (base.take ((if computeDelta then 1 else 0) + numColumns)).map CommandResult.initOfType

/-- The columns of a further set. The place holders start with the first column
of all. -/
def addColumns (computeDelta : Bool) (base : List (CommandResult Double))
    (columns : List (CommandResult Double)) (set : Nat × Option (Row Double Id)) :
    Option (List (CommandResult Double)) :=
  match set.2 with
  | some row => do
      let changed ← changeDelta computeDelta columns row.columns.head?
      return changed ++ row.columns.take set.1
  | none => some (columns ++ (base.take set.1).map CommandResult.initOfType)

def addEnders (computeDelta : Bool) (base : List (CommandResult Double))
    (state : List (CommandResult Double) × Nat) (set : Nat × Option (Row Double Id)) :
    Option (List (CommandResult Double) × Nat) :=
  let (columns, nextColumn) := state
  match set.2 with
  | some row => do
      let changed ← changeDelta computeDelta columns row.columns.head?
      return (changed ++ row.columns.take set.1, nextColumn + (if computeDelta then 1 else 0) + set.1)
  | none => some (columns ++ ((base.drop nextColumn).take set.1).map CommandResult.initOfType,
      nextColumn + set.1)

namespace Comparison

variable (comparison : Comparison Double Id)

def entriesAt (maps : List (List (Nat × Row Double Id))) (place : Nat) : List (Nat × Option (Row Double Id)) :=
  List.zipWith (fun set entries => (set.numColumns, entries.lookup place)) comparison.others maps

def mergeRow (base : List (CommandResult Double)) (place : Nat) (last : Id) : Option (Row Double Id) := do
  let columns := firstColumns comparison.computeDelta base comparison.first.numColumns
    comparison.first.rows[place]?
  let merged ← (comparison.entriesAt comparison.masters.2 place).foldlM
    (addColumns comparison.computeDelta base) columns
  return ⟨merged, last⟩

def mergeEnder (base : List (CommandResult Double)) (place : Nat) (last : Id) : Option (Row Double Id) := do
  let columns := firstColumns comparison.computeDelta base comparison.first.numColumns
    comparison.first.enders[place]?
  let merged ← (comparison.entriesAt comparison.enderMasters.2 place).foldlM
    (addEnders comparison.computeDelta base)
    (columns, comparison.deltaColumns + comparison.first.numColumns)
  return ⟨merged.1, last⟩

def mergeAll (merge : Nat → Id → Option (Row Double Id)) (master : List Id) : Option (List (Row Double Id)) :=
  master.zipIdx.mapM fun (last, place) => merge place last

def generateCustomView : Option (Option (Report Double Id)) :=
  match comparison.lastHeader with
  | none => some none
  | some lastHeader => do
      let base ← comparison.baseColumnType
      let rows ← mergeAll (comparison.mergeRow base) comparison.masters.1
      let enders ← mergeAll (comparison.mergeEnder base) comparison.enderMasters.1
      return some ⟨comparison.headers ++ [lastHeader], rows, enders⟩

end Comparison

end

end OpenSpeedShop.CustomView
