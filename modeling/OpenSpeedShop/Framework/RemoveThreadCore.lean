import OpenSpeedShop.Framework.DatabaseSchema
import Mathlib.Data.List.Dedup
import Mathlib.Data.List.Sort

/-! Removing a thread from an experiment. -/

namespace OpenSpeedShop

open Sql Schema Schema.ExperimentDatabase

namespace RemoveThread

/-- The plugins of the collectors: whether one can be instantiated for a unique identifier, and
whether it stops the collection in a thread without an exception. -/
structure Plugins where
  instantiates : String → Bool
  stops : String → Bool

inductive Exception
  | collectorUnavailable (uniqueId : String)
  | notStopped (uniqueId : String)

def collectorsOf (database : ExperimentDatabase) (thread : Int) (isPostponed : Bool) : List Int :=
  let rows := database.collecting.filter fun row =>
    both (equal row.thread (some thread)) (some (row.isPostponed = isPostponed)) = some true
  (rows.map fun row => row.collector.getD 0).dedup.insertionSort (· ≤ ·)

def getCollectors (database : ExperimentDatabase) (thread : Int) : List Int :=
  collectorsOf database thread false

def getPostponedCollectors (database : ExperimentDatabase) (thread : Int) : List Int :=
  collectorsOf database thread true

def uniqueIdOf (database : ExperimentDatabase) (collector : Int) : String :=
  let found := (database.collectors.filter fun row => row.id = collector).getLast?
  (found.bind (·.uniqueId)).getD ""

/-- `WHERE collector = ? AND thread = ?` -/
def isPair (collector thread : Int) (row : CollectingRow) : Truth :=
  both (equal row.collector (some collector)) (equal row.thread (some thread))

def stopCollecting (plugins : Plugins) (thread : Int) (database : ExperimentDatabase)
    (collector : Int) : Except Exception ExperimentDatabase :=
  let uniqueId := uniqueIdOf database collector
  if !plugins.instantiates uniqueId then .error (.collectorUnavailable uniqueId)
  else
    match (database.collecting.filter fun row => isPair collector thread row = some true).getLast? with
    | none => .ok database
    | some last =>
      let stopped := { database with
        collecting := deleteWhere (isPair collector thread) database.collecting }
      if !last.isPostponed && !plugins.stops uniqueId then .error (.notStopped uniqueId)
      else .ok stopped

def deleteThread (thread : Int) (database : ExperimentDatabase) : ExperimentDatabase :=
  let threads := deleteWhere (fun row => equal (some row.id) (some thread)) database.threads
  let addressSpaces :=
    deleteWhere (fun row => equal row.thread (some thread)) database.addressSpaces
  let data := deleteWhere (fun row => equal row.thread (some thread)) database.data
  let used := addressSpaces.map (·.linkedObject)
  let linkedObjects :=
    deleteWhere (fun row => notIn (some row.id) used) database.linkedObjects
  let functions := deleteWhere (fun row => notIn row.linkedObject used) database.functions
  let functionRanges :=
    deleteWhere (fun row => notIn row.symbol (functions.map fun row => some row.id)) database.functionRanges
  let loops := deleteWhere (fun row => notIn row.linkedObject used) database.loops
  let loopRanges :=
    deleteWhere (fun row => notIn row.symbol (loops.map fun row => some row.id)) database.loopRanges
  let statements := deleteWhere (fun row => notIn row.linkedObject used) database.statements
  let statementRanges :=
    deleteWhere (fun row => notIn row.symbol (statements.map fun row => some row.id)) database.statementRanges
  let files :=
    deleteWhere (fun row => both (notIn (some row.id) (linkedObjects.map (·.file)))
      (notIn (some row.id) (statements.map (·.file)))) database.files
  { database with
    threads := threads
    addressSpaces := addressSpaces
    data := data
    linkedObjects := linkedObjects
    functions := functions
    functionRanges := functionRanges
    loops := loops
    loopRanges := loopRanges
    statements := statements
    statementRanges := statementRanges
    files := files }

def removeThread (plugins : Plugins) (thread : Int) (database : ExperimentDatabase) :
    Except Exception ExperimentDatabase := do
  let database ← (getCollectors database thread).foldlM (stopCollecting plugins thread) database
  let database ← (getPostponedCollectors database thread).foldlM (stopCollecting plugins thread) database
  return deleteThread thread database

inductive Remains (database : ExperimentDatabase) (thread : Int) : Row → Prop
  | reachable {row : Row} (reached : database.Reachable (· ≠ thread) row) : Remains database thread row
  | collector (row : CollectorRow) : Remains database thread (.collector row)
  | view (row : ViewRow) : Remains database thread (.view row)

structure NoneOf (database : ExperimentDatabase) (thread : Int) : Prop where
  threads : ∀ row ∈ database.threads, row.id ≠ thread
  addressSpaces : ∀ row ∈ database.addressSpaces, row.thread ≠ some thread
  collecting : ∀ row ∈ database.collecting, row.thread ≠ some thread
  data : ∀ row ∈ database.data, row.thread ≠ some thread

open Classical in
structure Removed (before after : ExperimentDatabase) (thread : Int) : Prop where
  intact : after.Intact
  noneOf : NoneOf after thread
  needed : ∀ row, after.Has row → IsSymbol row → after.Reachable (fun _ => True) row
  unchanged : after = before.restrict (Remains before thread)

def Plugins.Serve (plugins : Plugins) (uniqueId : String) : Prop :=
  plugins.instantiates uniqueId ∧ plugins.stops uniqueId

end RemoveThread

end OpenSpeedShop
