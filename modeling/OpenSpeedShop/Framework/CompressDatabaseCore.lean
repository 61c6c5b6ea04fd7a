import OpenSpeedShop.Framework.ResultColumns
import OpenSpeedShop.Framework.ThreadLookupCore
import OpenSpeedShop.Library.LinearProbing

/-!
Compressing a database: the sampled addresses of each executable are gathered in a hash table and looked
up in its threads, and the symbols at none of them are deleted.
-/

namespace OpenSpeedShop

open Fallible

structure LinkedObjectRow where
  id : Int
  file : Int32
  isExecutable : Bool
deriving DecidableEq

structure ExperimentTables extends SymbolTables where
  threads : List Int
  linkedObjects : List LinkedObjectRow
deriving DecidableEq

structure PCBuffer where
  length : UInt16
  pc : Nat → UInt64
  hashTable : Nat → Nat

namespace PCBuffer

def size : Nat := 1024 * 1024

def hashTableSize : Nat := size + size / 4

def empty : PCBuffer := ⟨0, fun _ => 0, fun _ => 0⟩

def stops (pc : UInt64) (buffer : PCBuffer) (bucket : Nat) : Bool :=
  !(buffer.hashTable bucket > 0 && buffer.pc (buffer.hashTable bucket - 1) != pc)

def holds (pc : UInt64) (buffer : PCBuffer) (bucket : Nat) : Bool :=
  buffer.hashTable bucket > 0 && buffer.pc (buffer.hashTable bucket - 1) == pc

def add (pc : UInt64) (buffer : PCBuffer) (bucket : Nat) : PCBuffer where
  length := buffer.length + 1
  pc := Function.update buffer.pc buffer.length.toNat pc
  hashTable := Function.update buffer.hashTable bucket (buffer.length.toNat + 1)

def update (pc : UInt64) (buffer : PCBuffer) : Result (Bool × PCBuffer) :=
  match LinearProbing.scan hashTableSize (stops pc buffer) hashTableSize
      ((pc >>> 4).toNat % hashTableSize) with
  | none => .error .endlessLoop
  | some bucket =>
    if holds pc buffer bucket then return (false, buffer)
    else
      let buffer := buffer.add pc bucket
      return (buffer.length.toNat = size, buffer)

def addAll (pcs : List UInt64) (buffer : PCBuffer) : Result PCBuffer :=
  pcs.foldlM (fun buffer pc => do return (← buffer.update pc).2) buffer

def addresses (buffer : PCBuffer) : List Address :=
  (List.range buffer.length.toNat).map buffer.pc

/-- `length = 0; memset(hash_table, 0, sizeof(hash_table));` -/
def clear (buffer : PCBuffer) : PCBuffer :=
  { buffer with length := 0, hashTable := fun _ => 0 }

end PCBuffer

namespace Thread

def getLinkedObjectAt (databases : DatabasePtr → SymbolTables) (thread : Entry)
    (address : Address) (time : Time) : Result (Option Entry) :=
  match spacesAt (databases thread.dmDatabase) thread address time with
  | [] => return none
  | [space] => return some ⟨thread.dmDatabase, space.linkedObject.toInt⟩
  | _ => throw (.entryOverlapping "AddressSpaces")

def spacesEver (tables : SymbolTables) (thread : Entry) (address : Address) : List AddressSpaceRow :=
  tables.addressSpaces.filter fun row =>
    row.thread.toInt = thread.dmEntry && between address row.addrBegin row.addrEnd

def onlyFunctionAt (tables : ObjectTables String) (space : AddressSpaceRow) (address : Address) :
    Result (Option Int) := do
  let offset ← Address.sub address (OffsetBinary.decode space.addrBegin)
  (rangesAt tables space.linkedObject offset.toUInt64).foldlM (fun function row => do
    let bitmap ← row.2.bitmap
    let valid ← bitmap.getValue offset.toUInt64
    if valid then
      check function.isNone (.entryOverlapping "Functions")
      return some row.1
    else return function) none

def getFunctionAndStatementsAt (databases : DatabasePtr → SymbolTables) (thread : Entry)
    (address : Address) : Result (Option Entry × Finset Entry) := do
  let tables := databases thread.dmDatabase
  match spacesEver tables thread address with
  | [] => return (none, ∅)
  | [space] => do
      let function ← onlyFunctionAt tables.functions space address
      let statements ← objectsAt tables.statements space address
      return (function.map fun id => ⟨thread.dmDatabase, id⟩,
        (statements.map fun id => ⟨thread.dmDatabase, id⟩).toFinset)
  | _ => throw (.entryOverlapping "AddressSpaces")

def getExecutable (databases : DatabasePtr → ExperimentTables) (thread : Entry) (time : Time) : Option Entry :=
  let tables := databases thread.dmDatabase
  let spaces := tables.addressSpaces.filter fun space =>
    space.thread.toInt = thread.dmEntry && between time space.timeBegin space.timeEnd
  let executables := spaces.flatMap fun space => tables.linkedObjects.filter fun row =>
    space.linkedObject.toInt = row.id && row.isExecutable
  executables.head?.map fun row => ⟨thread.dmDatabase, row.id⟩

end Thread

def AddressRange.lessThan (self other : AddressRange) : Bool :=
  if self.dmBegin < other.dmBegin then true
  else if self.dmBegin > other.dmBegin then false
  else self.dmEnd < other.dmEnd

namespace Function

def getMangledName (databases : DatabasePtr → SymbolTables) (function : Entry) : String :=
  let rows := (databases function.dmDatabase).functions.objects.filter fun row =>
    row.id = function.dmEntry
  (rows.getLast?.map (·.columns)).getD ""

def getName (demangle : String → Option String) (databases : DatabasePtr → SymbolTables)
    (function : Entry) : String :=
  let mangled := getMangledName databases function
  (demangle mangled).getD mangled

def rangeColumns (row : RangeRow) : List Column :=
  [.integer row.addrBegin, .integer row.addrEnd, .blob row.validBitmap]

/-- `if(is_first || (*i < range)) { is_first = true; range = *i; }` -/
def replaceRange (state : Bool × AddressRange) (i : AddressRange) : Bool × AddressRange :=
  if state.1 || AddressRange.lessThan i state.2 then (true, i) else state

def getAddressRange (databases : DatabasePtr → SymbolTables) (function : Entry) : Result AddressRange := do
  let rows := rangesOf (databases function.dmDatabase).functions function.dmEntry
  let final ← rows.foldlM (fun state row => do
    let addrBegin ← Database.getResultAsAddress (rangeColumns row.2) 2
    let addrEnd ← Database.getResultAsAddress (rangeColumns row.2) 3
    let range ← Interval.make addrBegin addrEnd
    let blob ← Database.getResultAsBlob (rangeColumns row.2) 4
    let bitmap ← AddressBitmap.ofBlob range blob
    let ranges ← bitmap.getContiguousRanges true
    return ranges.foldl replaceRange state) (true, default)
  return final.2

end Function

namespace ThreadGroup

def linkedObjectsIn (database : DatabasePtr) (tables : ExperimentTables) (group : List Entry) : List Int32 :=
  (tables.addressSpaces.filter fun row => ⟨database, row.thread.toInt⟩ ∈ group).map (·.linkedObject)

def symbolsIn {Columns : Type} (select : SymbolTables → ObjectTables Columns)
    (database : DatabasePtr) (tables : ExperimentTables) (group : List Entry) : Finset Entry :=
  (((select tables.toSymbolTables).objects.filter fun row =>
    row.linkedObject ∈ linkedObjectsIn database tables group).map fun row => ⟨database, row.id⟩).toFinset

def getFunctions := @symbolsIn _ SymbolTables.functions

def getStatements := @symbolsIn _ SymbolTables.statements

end ThreadGroup

/-- What is read besides the tables: the demangler, the time, and for each collector the
addresses that its implementation finds in the blobs of a thread. -/
structure Environment where
  demangle : String → Option String
  now : Time
  collectors : List (Entry → List UInt64)

namespace ExperimentTables

def databases (tables : ExperimentTables) (_ : DatabasePtr) : SymbolTables :=
  tables.toSymbolTables

def getThreads (tables : ExperimentTables) (database : DatabasePtr) : List Entry :=
  (tables.threads.dedup.insertionSort (· ≤ ·)).map fun id => ⟨database, id⟩

/-- `DELETE FROM Functions WHERE id = ?;` -/
def deleteFunctions (tables : ExperimentTables) (functions : Finset Entry) : ExperimentTables :=
  { tables with functions := { tables.functions with
      objects := tables.functions.objects.filter fun row =>
        row.id ∉ functions.image Entry.dmEntry } }

/-- `DELETE FROM Statements WHERE id = ?;` and then the ranges of no statement. -/
def deleteStatements (tables : ExperimentTables) (statements : Finset Entry) :
    ExperimentTables :=
  let objects := tables.statements.objects.filter fun row =>
    row.id ∉ statements.image Entry.dmEntry
  { tables with statements := {
      objects := objects
      ranges := tables.statements.ranges.filter fun range =>
        range.object.toInt ∈ objects.map ObjectRow.id } }

def deleteFiles (tables : ExperimentTables) : ExperimentTables :=
  { tables with files := tables.files.filter fun row =>
      row.id ∈ tables.linkedObjects.map (·.file.toInt) ∨
        row.id ∈ tables.statements.objects.map (·.columns.file.toInt) }

def deleteLinkedObjects (tables : ExperimentTables) : ExperimentTables :=
  { tables with linkedObjects := tables.linkedObjects.filter fun row =>
      row.id ∈ tables.functions.objects.map (·.linkedObject.toInt) ∨
        row.id ∈ tables.statements.objects.map (·.linkedObject.toInt) }

def deleteAddressSpaces (tables : ExperimentTables) : ExperimentTables :=
  { tables with addressSpaces := tables.addressSpaces.filter fun row =>
      row.linkedObject.toInt ∈ tables.linkedObjects.map (·.id) ∨
        row.linkedObject ∈ tables.statements.objects.map (·.linkedObject) }

end ExperimentTables

namespace CompressDatabase

structure Marked where
  expaf : Finset String
  expFuncs : Finset Entry
  expas : Finset Entry

/-- Marks the function at an address where its name is new, and gives the range whose first
and last addresses are looked at, too. -/
def markFunction (environment : Environment) (tables : ExperimentTables) (marked : Marked) :
    (function : Option Entry) → Result (AddressRange × Marked)
  | none => return (default, marked)
  | some function =>
    let name := Function.getName environment.demangle tables.databases function
    if name ∈ marked.expaf then return (default, marked)
    else do
      let range ← Function.getAddressRange tables.databases function
      return (range, { marked with
        expaf := insert name marked.expaf
        expFuncs := insert function marked.expFuncs })

def examineThread (environment : Environment) (tables : ExperimentTables) (address : Address)
    (thread : Entry) (marked : Marked) : Result (Bool × Marked) := do
  let _ ← Thread.getLinkedObjectAt tables.databases thread address environment.now
  let (function, statements) ← Thread.getFunctionAndStatementsAt tables.databases thread address
  let (frange, marked) ← markFunction environment tables marked function
  let atBegin ← Thread.getStatementsAt tables.databases thread frange.dmBegin environment.now
  let atEnd ← Thread.getStatementsAt tables.databases thread frange.dmEnd environment.now
  return (function.isSome,
    { marked with expas := marked.expas ∪ (statements ∪ (atBegin ∪ atEnd)) })

def examineAddress (environment : Environment) (tables : ExperimentTables) (address : Address) :
    (threads : List Entry) → Marked → Result Marked
  | [], marked => return marked
  | thread :: rest, marked => do
      let (foundFunc, marked) ← examineThread environment tables address thread marked
      if foundFunc then return marked
      else examineAddress environment tables address rest marked

def examine (environment : Environment) (tables : ExperimentTables) (threads : List Entry)
    (addresses : List Address) (marked : Marked) : Result Marked :=
  addresses.foldlM (fun marked address => examineAddress environment tables address threads marked) marked

structure Gathered where
  buffer : PCBuffer
  hasSampledData : Bool
  totalPcs : Nat

def gatherThread (environment : Environment) (gathered : Gathered) (thread : Entry) : Result Gathered :=
  match environment.collectors with
  | [] => .error .outOfBounds
  | first :: _ => do
      let buffer ← gathered.buffer.addAll (first thread)
      if buffer.length.toNat = gathered.totalPcs then return { gathered with buffer := buffer }
      else return ⟨buffer, true, buffer.length.toNat⟩

def gather (environment : Environment) (threads : List Entry) (buffer : PCBuffer) : Result Gathered :=
  threads.foldlM (gatherThread environment) ⟨buffer, false, 0⟩

structure State where
  tables : ExperimentTables
  buffer : PCBuffer
  marked : Marked
  tgrpFunctions : Finset Entry
  tgrpStatements : Finset Entry

def State.prune (state : State) : State :=
  let tgrpFunctions := state.tgrpFunctions \ state.marked.expFuncs
  let tgrpStatements := state.tgrpStatements \ state.marked.expas
  { state with
    tables := ((state.tables.deleteFunctions tgrpFunctions).deleteStatements tgrpStatements).deleteFiles
    tgrpFunctions := tgrpFunctions
    tgrpStatements := tgrpStatements }

def compressExecutable (environment : Environment) (state : State) (threads : List Entry) : Result State := do
  let gathered ← gather environment threads state.buffer
  let marked ← examine environment state.tables threads gathered.buffer.addresses state.marked
  let state := { state with buffer := gathered.buffer.clear, marked := marked }
  return if gathered.hasSampledData then state.prune else state

def compressExecutables (environment : Environment) :
    (executables : List (List Entry)) → State → State × Result Unit
  | [], state => (state, return ())
  | threads :: rest, state =>
    match compressExecutable environment state threads with
    | .error failure => (state, .error failure)
    | .ok state => compressExecutables environment rest state

/-- The threads of each executable, in the order of the executables. A thread without one
gives a null linked object, which has no path. -/
def executables (environment : Environment) (database : DatabasePtr)
    (tables : ExperimentTables) : Result (List (List Entry)) := do
  let threads := tables.getThreads database
  let executableOf := fun thread => Thread.getExecutable (fun _ => tables) thread environment.now
  check (threads.all fun thread => (executableOf thread).isSome) .assertion
  let exesUsedInExp := ((threads.filterMap executableOf).map Entry.dmEntry).dedup
  return (exesUsedInExp.insertionSort (· ≤ ·)).map fun exe =>
    threads.filter fun thread => executableOf thread = some ⟨database, exe⟩

def start (database : DatabasePtr) (tables : ExperimentTables) : State where
  tables := tables
  buffer := .empty
  marked := ⟨∅, ∅, ∅⟩
  tgrpFunctions := ThreadGroup.getFunctions database tables (tables.getThreads database)
  tgrpStatements := ThreadGroup.getStatements database tables (tables.getThreads database)

def compressDB (environment : Environment) (database : DatabasePtr) (tables : ExperimentTables) :
    ExperimentTables × Result Unit :=
  match executables environment database tables with
  | .error failure => (tables, .error failure)
  | .ok executables =>
    match compressExecutables environment executables (start database tables) with
    | (state, .error failure) => (state.tables, .error failure)
    | (state, .ok ()) =>
      (state.tables.deleteLinkedObjects.deleteFiles.deleteAddressSpaces, return ())

end CompressDatabase

end OpenSpeedShop
