import OpenSpeedShop.Framework.CompressDatabaseCore

/-!
The cache of the functions of linked objects, and what changes the tables behind it: storing objects and
symbols, removing threads and compressing.
-/

namespace OpenSpeedShop

open Fallible

def Time.theBeginning : Time := 0

def Time.theEnd : Time := 0xffffffffffffffff

structure LoadedObject where
  dmPath : String
  dmIsExecutable : Bool
deriving DecidableEq

abbrev AddressSpace := List (AddressRange × LoadedObject)

namespace ExperimentTables

def findLinkedObject (tables : ExperimentTables) (path : String) : Int32 :=
  let found := tables.linkedObjects.flatMap fun object =>
    (tables.files.filter fun file => object.file.toInt = file.id && file.path = path).map
      fun _ => Int32.ofInt object.id
  found.getLast?.getD (-1)

def createLinkedObject (tables : ExperimentTables) (object : LoadedObject) : Int32 × ExperimentTables :=
  let file := nextId (tables.files.map FileRow.id)
  let id := nextId (tables.linkedObjects.map LinkedObjectRow.id)
  (Int32.ofInt id, { tables with
    files := tables.files ++ [⟨file, object.dmPath⟩]
    linkedObjects := tables.linkedObjects ++ [⟨id, Int32.ofInt file, object.dmIsExecutable⟩] })

def storeEntry (thread : Int) (timeBegin : Time) (tables : ExperimentTables)
    (entry : AddressRange × LoadedObject) : Result ExperimentTables := do
  let existing := tables.findLinkedObject entry.2.dmPath
  let (linkedObject, tables) ←
    if existing = -1 then do
      let _ ← Address.sub entry.1.dmEnd entry.1.dmBegin
      pure (tables.createLinkedObject entry.2)
    else pure (existing, tables)
  return { tables with addressSpaces := tables.addressSpaces ++ [{
    thread := Int32.ofInt thread
    timeBegin := OffsetBinary.encode timeBegin
    timeEnd := OffsetBinary.encode Time.theEnd
    addrBegin := OffsetBinary.encode entry.1.dmBegin
    addrEnd := OffsetBinary.encode entry.1.dmEnd
    linkedObject := linkedObject }] }

def updateThread (addressSpace : AddressSpace) (thread : Int) (tables : ExperimentTables) :
    Result ExperimentTables :=
  addressSpace.foldlM (storeEntry thread Time.theBeginning) tables

def endIntervals (thread : Int) (when : Time) (tables : ExperimentTables) : ExperimentTables :=
  { tables with addressSpaces := tables.addressSpaces.map fun row =>
      if row.thread.toInt = thread ∧ row.timeEnd = OffsetBinary.encode Time.theEnd then
        { row with timeEnd := OffsetBinary.encode when }
      else row }

def updateThreadAt (addressSpace : AddressSpace) (when : Time) (updateInterval : Bool)
    (thread : Int) (tables : ExperimentTables) : Result ExperimentTables :=
  let known := tables.addressSpaces.any fun row => row.thread.toInt = thread
  let timeBegin := if known then when else Time.theBeginning
  let tables := if updateInterval then tables.endIntervals thread when else tables
  addressSpace.foldlM (storeEntry thread timeBegin) tables

def updateThreads (addressSpace : AddressSpace) (when : Time) (updateInterval : Bool)
    (threads : List Int) (tables : ExperimentTables) : Result ExperimentTables :=
  threads.foldlM (fun tables thread => tables.updateThreadAt addressSpace when updateInterval thread) tables

def processAndStore (symbolTable : SymbolTable) (linkedObject : Int32)
    (tables : ExperimentTables) : Result ExperimentTables := do
  let symbols ← symbolTable.processAndStore linkedObject tables.toSymbolTables
  return { tables with toSymbolTables := symbols }

end ExperimentTables

def ObjectTables.deleteUnused {Columns : Type} (tables : ObjectTables Columns)
    (used : List Int32) : ObjectTables Columns :=
  let objects := tables.objects.filter fun row => row.linkedObject ∈ used
  { objects := objects
    ranges := tables.ranges.filter fun range => range.object.toInt ∈ objects.map ObjectRow.id }

def ExperimentTables.removeThread (thread : Int) (tables : ExperimentTables) : ExperimentTables :=
  let addressSpaces := tables.addressSpaces.filter fun row => row.thread.toInt ≠ thread
  let used := addressSpaces.map (·.linkedObject)
  ExperimentTables.deleteFiles { tables with
    threads := tables.threads.filter fun row => row ≠ thread
    addressSpaces := addressSpaces
    linkedObjects := tables.linkedObjects.filter fun row => row.id ∈ used.map Int32.toInt
    functions := tables.functions.deleteUnused used
    loops := tables.loops.deleteUnused used
    statements := tables.statements.deleteUnused used }

namespace ExtentGroup

def getIntersectionWithGroup (nthElement : NthElement) (fuel : Nat) (self : ExtentGroup)
    (extents : List Extent) : Option (Finset Nat × ExtentGroup) :=
  extents.foldlM (fun found extent => do
    let (subset, self) ← found.2.getIntersectionWith nthElement fuel extent
    return (found.1 ∪ subset, self)) (∅, self)

end ExtentGroup

def ExtentTable.objectsAt {Group Object : Type} [DecidableEq Object]
    (table : ExtentTable Group Object) (group : Group) (intersection : Finset Nat) :
    Option (Finset Object) :=
  if ∀ index ∈ intersection, (table.getObject group index).isSome then
    some (intersection.biUnion fun index => (table.getObject group index).toFinset)
  else none

namespace FunctionCache

abbrev Cache := ExtentTable Entry Entry

def rangesIn {Columns : Type} (tables : ObjectTables Columns) (linkedObject : Int) : List (Int × RangeRow) :=
  tables.ranges.flatMap fun range =>
    (tables.objects.filter fun row =>
      row.id = range.object.toInt && row.linkedObject.toInt = linkedObject).map fun row => (row.id, range)

def rowExtents (database : DatabasePtr) (row : Int × RangeRow) : Result (List (Entry × Extent)) := do
  let ranges ← row.2.contiguous
  return ranges.map fun range =>
    (⟨database, row.1⟩, ⟨⟨Time.theBeginning, Time.theEnd⟩, range⟩)

def addLinkedObject (databases : DatabasePtr → ExperimentTables) (linkedObject : Entry)
    (cache : Cache) : Result Cache := do
  let tables := databases linkedObject.dmDatabase
  let extents ← collect (rowExtents linkedObject.dmDatabase) (rangesIn tables.functions linkedObject.dmEntry)
  return extents.foldl (fun cache entry => cache.addExtent linkedObject entry.1 entry.2) cache

def getFunctions (nthElement : NthElement) (databases : DatabasePtr → ExperimentTables)
    (linkedObject : Entry) (extents : List Extent) (cache : Cache) :
    Option (Finset Entry × Cache) := do
  let cache ←
    if (cache.getExtents linkedObject).extents.isEmpty then
      (addLinkedObject databases linkedObject cache).toOption
    else some cache
  let cached := cache.getExtents linkedObject
  let (intersection, cached) ← cached.getIntersectionWithGroup nthElement (2 * cached.extents.length) extents
  let functions ← cache.objectsAt linkedObject intersection
  return (functions, cache.setExtents linkedObject cached)

def removeDatabase (databases : DatabasePtr → ExperimentTables) (database : DatabasePtr)
    (cache : Cache) : Cache :=
  (databases database).linkedObjects.foldl (fun cache row => cache.removeExtents ⟨database, row.id⟩) cache

structure State where
  databases : DatabasePtr → ExperimentTables
  theCache : Cache

def State.opened (databases : DatabasePtr → ExperimentTables) : State :=
  ⟨databases, ExtentTable.empty⟩

def State.setTables (state : State) (database : DatabasePtr) (tables : ExperimentTables) : State :=
  { state with databases := Function.update state.databases database tables }

inductive Call
  | updateThread (addressSpace : AddressSpace) (thread : Entry)
  | updateThreads (addressSpace : AddressSpace) (when : Time) (updateInterval : Bool)
      (database : DatabasePtr) (threads : List Int)
  | processAndStore (symbolTable : SymbolTable) (database : DatabasePtr) (linkedObject : Int32)
  | removeThread (thread : Entry)
  | compressDB (environment : Environment) (database : DatabasePtr)
  | getFunctions (linkedObject : Entry) (extents : List Extent)
  | removeDatabase (database : DatabasePtr)

def afterCompression : (ended : ExperimentTables × Result Unit) → Option ExperimentTables
  | (tables, .ok ()) => some tables
  | (tables, .error (.entryOverlapping _)) => some tables
  | (_, .error .assertion) => none
  | (_, .error .endlessLoop) => none
  | (_, .error .outOfBounds) => none

def Call.step (nthElement : NthElement) (state : State) : Call → Option State
  | .updateThread addressSpace thread => do
      let tables ← ((state.databases thread.dmDatabase).updateThread addressSpace thread.dmEntry).toOption
      return state.setTables thread.dmDatabase tables
  | .updateThreads addressSpace when updateInterval database threads => do
      let tables ← ((state.databases database).updateThreads addressSpace when updateInterval threads).toOption
      return state.setTables database tables
  | .processAndStore symbolTable database linkedObject => do
      let tables ← ((state.databases database).processAndStore symbolTable linkedObject).toOption
      return state.setTables database tables
  | .removeThread thread =>
    return state.setTables thread.dmDatabase ((state.databases thread.dmDatabase).removeThread thread.dmEntry)
  | .compressDB environment database => do
      let tables ← afterCompression
        (CompressDatabase.compressDB environment database (state.databases database))
      return state.setTables database tables
  | .getFunctions linkedObject extents => do
      let (_, cache) ←
        FunctionCache.getFunctions nthElement state.databases linkedObject extents state.theCache
      return { state with theCache := cache }
  | .removeDatabase database =>
    return { state with
      theCache := FunctionCache.removeDatabase state.databases database state.theCache }

end FunctionCache

end OpenSpeedShop
