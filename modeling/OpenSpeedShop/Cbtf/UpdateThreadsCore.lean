import OpenSpeedShop.Framework.DatabaseSchema
import OpenSpeedShop.Framework.SymbolTableCore

/-!
The front end of the component based tool framework: names of attached threads are queued, and written
to the only experiment in one transaction.
-/

namespace OpenSpeedShop.Cbtf

structure ThreadName where
  host : String
  pid : Int32
  posixThreadId : Bool × UInt64
  mpiRank : Int32
  ompTid : Int32
deriving DecidableEq

inductive ThreadState
  | disconnected
  | connecting
  | nonexistent
  | running
  | suspended
  | terminated
deriving DecidableEq

/-- Threads are given by their row numbers, since there is only one experiment. -/
structure ThreadTable where
  dmThreadToState : List (Int32 × ThreadState)
  dmThreadToCallbacks : List Int32
deriving DecidableEq

def ThreadTable.addThread (table : ThreadTable) (thread : Int32) : Option ThreadTable :=
  if thread ∉ table.dmThreadToState.map Prod.fst ∧ thread ∉ table.dmThreadToCallbacks then
    some ⟨table.dmThreadToState ++ [(thread, .disconnected)], table.dmThreadToCallbacks ++ [thread]⟩
  else none

def encodePosixThreadId (tid : UInt64) : Int := (OffsetBinary.encode tid).toInt

def lastId (rows : List Schema.ThreadRow) : Int32 :=
  (rows.getLast?.map fun row => Int32.ofInt row.id).getD (-1)

def hasId (thread : Int32) (row : Schema.ThreadRow) : Sql.Truth :=
  Sql.equal (some row.id) (some thread.toInt)

def isPlaceholder (name : ThreadName) (row : Schema.ThreadRow) : Sql.Truth :=
  Sql.both (Sql.both (Sql.equal row.host (some name.host)) (Sql.equal row.pid (some name.pid.toInt)))
    (Sql.isNull row.posixTid)

def isExisting (name : ThreadName) (row : Schema.ThreadRow) : Sql.Truth :=
  Sql.both (Sql.both (Sql.both (Sql.both (Sql.equal row.host (some name.host))
    (Sql.equal row.pid (some name.pid.toInt)))
    (Sql.equal row.posixTid (some (encodePosixThreadId name.posixThreadId.2))))
    (Sql.equal row.mpiRank (some name.mpiRank.toInt)))
    (Sql.equal row.openmpTid (some name.ompTid.toInt))

/-- `UPDATE Threads SET mpi_rank = ? WHERE id = ?;`, for a name that has a rank. -/
def setMPIRank (thread : Int32) (name : ThreadName) (rows : List Schema.ThreadRow) : List Schema.ThreadRow :=
  if name.mpiRank ≥ 0 then
    Sql.update (hasId thread) (fun row => { row with mpiRank := some name.mpiRank.toInt }) rows
  else rows

def reusePlaceholder (thread : Int32) (name : ThreadName) (rows : List Schema.ThreadRow) :
    List Schema.ThreadRow :=
  if name.posixThreadId.1 then
    let rows := Sql.update (hasId thread)
      (fun row => { row with posixTid := some (encodePosixThreadId name.posixThreadId.2) }) rows
    let rows := setMPIRank thread name rows
    if name.ompTid ≥ 0 then
      Sql.update (hasId thread) (fun row => { row with openmpTid := some name.ompTid.toInt }) rows
    else rows
  else rows

def insertedRow (id : Int) (name : ThreadName) : Schema.ThreadRow where
  id := id
  command := none
  host := some name.host
  pid := some name.pid.toInt
  posixTid := some (encodePosixThreadId name.posixThreadId.2)
  openmpTid := some name.ompTid.toInt
  mpiRank := none
  mpiImpl := none

def updateThread (experiment : List Schema.ThreadRow × ThreadTable) (name : ThreadName) :
    Option (List Schema.ThreadRow × ThreadTable) := do
  let (rows, theTable) := experiment
  let placeholder := lastId (Sql.select (isPlaceholder name) rows)
  if placeholder ≠ -1 then return (reusePlaceholder placeholder name rows, theTable)
  else
    let existing := lastId (Sql.select (isExisting name) rows)
    if existing ≠ -1 then return (rows, theTable)
    else
      let id := nextId (rows.map Schema.ThreadRow.id)
      let thread := Int32.ofInt id
      let theTable ← theTable.addThread thread
      return (setMPIRank thread name (rows ++ [insertedRow id name]), theTable)

structure State where
  threadvec : List ThreadName
  database : Option (List Schema.ThreadRow)
  theTable : ThreadTable

def updateThreads (state : State) : Option State :=
  if state.threadvec.isEmpty then some state
  else
    match state.database with
    | none => some state
    | some rows => do
        let (rows, theTable) ← state.threadvec.foldlM updateThread (rows, state.theTable)
        return ⟨[], some rows, theTable⟩

def attachedToThreads (state : State) (names : List ThreadName) : Option State :=
  updateThreads { state with threadvec := state.threadvec ++ names }

/-- What tells threads apart, with nothing for what a thread does not have. -/
structure Identity where
  host : Option String
  pid : Option Int
  posixTid : Option Int
  mpiRank : Option Int
  openmpTid : Option Int
deriving DecidableEq

def ThreadName.identity (name : ThreadName) : Identity where
  host := some name.host
  pid := some name.pid.toInt
  posixTid := if name.posixThreadId.1 then some (encodePosixThreadId name.posixThreadId.2) else none
  mpiRank := if name.mpiRank ≥ 0 then some name.mpiRank.toInt else none
  openmpTid := some name.ompTid.toInt

def identityOf (row : Schema.ThreadRow) : Identity :=
  ⟨row.host, row.pid, row.posixTid, row.mpiRank, row.openmpTid⟩

/-- One row for each distinct name, which has its values, and one entry of the table for
each row that was inserted. -/
structure OneRowEach (names : List ThreadName) (before : List Schema.ThreadRow) (rows : List Schema.ThreadRow)
    (theTable : ThreadTable) : Prop where
  oneRow : ∀ name ∈ names, (rows.filter fun row => identityOf row = name.identity).length = 1
  oneEntry : ∀ row ∈ rows, row.id ∉ before.map Schema.ThreadRow.id →
    (theTable.dmThreadToState.filter fun entry => entry.1.toInt = row.id).length = 1

end OpenSpeedShop.Cbtf
