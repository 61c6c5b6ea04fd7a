import OpenSpeedShop.Framework.ExtentTable
import OpenSpeedShop.Framework.SymbolTableCore

/-!
Looking symbols up in the threads that use their linked objects: those at an address and a time,
the extents of one in a thread, and those of many in all threads of a group.
-/

namespace OpenSpeedShop

open Fallible

/-- `? >= begin AND ? < end` -/
def between (value : UInt64) (first last : Int64) : Bool :=
  OffsetBinary.encode value ≥ first && OffsetBinary.encode value < last

def RangeRow.bitmap (row : RangeRow) : Result AddressBitmap := do
  let range ← Interval.make (OffsetBinary.decode row.addrBegin) (OffsetBinary.decode row.addrEnd)
  AddressBitmap.ofBlob range row.validBitmap

namespace Thread

def spacesAt (tables : SymbolTables) (thread : Entry) (address : Address) (time : Time) :
    List AddressSpaceRow :=
  tables.addressSpaces.filter fun row =>
    row.thread.toInt = thread.dmEntry && between time row.timeBegin row.timeEnd &&
      between address row.addrBegin row.addrEnd

def rangesAt {Columns : Type} (tables : ObjectTables Columns) (linkedObject : Int32)
    (address : Address) : List (Int × RangeRow) :=
  tables.ranges.flatMap fun range =>
    (tables.objects.filter fun row =>
      row.id = range.object.toInt && row.linkedObject = linkedObject &&
        between address range.addrBegin range.addrEnd).map fun row => (row.id, range)

def objectsAt {Columns : Type} (tables : ObjectTables Columns) (space : AddressSpaceRow)
    (address : Address) : Result (List Int) := do
  let offset ← Address.sub address (OffsetBinary.decode space.addrBegin)
  collect (fun row => do
    let bitmap ← row.2.bitmap
    let valid ← bitmap.getValue offset.toUInt64
    return if valid then [row.1] else [])
    (rangesAt tables space.linkedObject offset.toUInt64)

/-- The search for the linked object stops at its first row. Of several functions
the last one is returned: their overlap is not reported. -/
def getFunctionAt (databases : DatabasePtr → SymbolTables) (thread : Entry) (address : Address)
    (time : Time) : Result (Option Entry) := do
  let tables := databases thread.dmDatabase
  match spacesAt tables thread address time with
  | [] => return none
  | space :: _ => do
      let found ← objectsAt tables.functions space address
      return found.getLast?.map fun id => ⟨thread.dmDatabase, id⟩

def getLoopsAt (databases : DatabasePtr → SymbolTables) (thread : Entry) (address : Address)
    (time : Time) : Result (Finset Entry) := do
  let tables := databases thread.dmDatabase
  match spacesAt tables thread address time with
  | [] => return ∅
  | [space] => do
      let found ← objectsAt tables.loops space address
      return (found.map fun id => ⟨thread.dmDatabase, id⟩).toFinset
  | _ => throw (.entryOverlapping "AddressSpaces")

def getStatementsAt (databases : DatabasePtr → SymbolTables) (thread : Entry) (address : Address)
    (time : Time) : Result (Finset Entry) := do
  let tables := databases thread.dmDatabase
  match spacesAt tables thread address time with
  | [] => return ∅
  | space :: _ => do
      let found ← objectsAt tables.statements space address
      return (found.map fun id => ⟨thread.dmDatabase, id⟩).toFinset

end Thread

def rangesOf {Columns : Type} (tables : ObjectTables Columns) (object : Int) : List (Int32 × RangeRow) :=
  tables.ranges.flatMap fun range =>
    (tables.objects.filter fun row => row.id = range.object.toInt && row.id = object).map
      fun row => (row.linkedObject, range)

def RangeRow.contiguous (row : RangeRow) : Result (List AddressRange) := do
  let bitmap ← row.bitmap
  bitmap.getContiguousRanges true

def extentOfUse (interval : TimeInterval) (addrBegin : Address) (range : AddressRange) : Result Extent := do
  let first ← Address.add addrBegin range.dmBegin
  let last ← Address.add addrBegin range.dmEnd
  let range ← Interval.make first last
  return ⟨interval, range⟩

def AddressSpaceRow.interval (row : AddressSpaceRow) : Result TimeInterval :=
  Interval.make (OffsetBinary.decode row.timeBegin) (OffsetBinary.decode row.timeEnd)

def usesOf (tables : SymbolTables) (thread : Int) (linkedObject : Int32) : List AddressSpaceRow :=
  tables.addressSpaces.filter fun row => row.thread.toInt = thread && row.linkedObject = linkedObject

def usedRange (use : AddressSpaceRow) (range : AddressRange) : Result (List Extent) := do
  let interval ← use.interval
  let extent ← extentOfUse interval (OffsetBinary.decode use.addrBegin) range
  return [extent]

def rowExtents (tables : SymbolTables) (thread : Int) (row : Int32 × RangeRow) : Result (List Extent) := do
  let ranges ← row.2.contiguous
  collect (fun use => collect (usedRange use) ranges) (usesOf tables thread row.1)

def extentIn {Columns : Type} (select : SymbolTables → ObjectTables Columns)
    (databases : DatabasePtr → SymbolTables) (object thread : Entry) : Result ExtentGroup := do
  check (object.dmDatabase = thread.dmDatabase) .assertion
  let tables := databases object.dmDatabase
  let extents ← collect (rowExtents tables thread.dmEntry) (rangesOf (select tables) object.dmEntry)
  return extents.foldl ExtentGroup.pushBack (ExtentGroup.new 0)

def Function.getExtentIn := extentIn SymbolTables.functions

def Loop.getExtentIn := extentIn SymbolTables.loops

def Statement.getExtentIn := extentIn SymbolTables.statements

structure EntrySet where
  entries : List Entry
  nodup : entries.Nodup

namespace ThreadGroup

def occurrence (group : List Entry) (database : DatabasePtr) (row : AddressSpaceRow) :
    Result (List ((Int × Int32) × Extent)) :=
  if ⟨database, row.thread.toInt⟩ ∈ group then do
    let interval ← row.interval
    let range ← Interval.make (OffsetBinary.decode row.addrBegin) (OffsetBinary.decode row.addrEnd)
    return [((row.thread.toInt, row.linkedObject), ⟨interval, range⟩)]
  else return []

def occurrencesOf (linkedObjects : List ((Int × Int32) × Extent)) (key : Int × Int32) : List Extent :=
  (linkedObjects.filter fun entry => entry.1 = key).map Prod.snd

def constrainedRange (domain : Extent) (thread object : Entry) (use : Extent)
    (range : AddressRange) : Result (List (Entry × Entry × Extent)) := do
  let extent ← extentOfUse use.dmInterval use.dmRange.dmBegin range
  let constrained := extent.inter domain
  return if constrained.isEmpty then [] else [(thread, object, constrained)]

def constrainedIn (linkedObjects : List ((Int × Int32) × Extent)) (domain : Extent)
    (object : Entry) (linkedObject : Int32) (ranges : List AddressRange) (thread : Entry) :
    Result (List (Entry × Entry × Extent)) :=
  collect (fun use => collect (constrainedRange domain thread object use) ranges)
    (occurrencesOf linkedObjects (thread.dmEntry, linkedObject))

def constrainedRow (linkedObjects : List ((Int × Int32) × Extent)) (group : List Entry)
    (domain : Extent) (object : Entry) (row : Int32 × RangeRow) :
    Result (List (Entry × Entry × Extent)) := do
  let ranges ← row.2.contiguous
  collect (constrainedIn linkedObjects domain object row.1 ranges) group

def constrained {Columns : Type} (tables : ObjectTables Columns)
    (linkedObjects : List ((Int × Int32) × Extent)) (group : List Entry) (domain : Extent)
    (object : Entry) : Result (List (Entry × Entry × Extent)) :=
  collect (constrainedRow linkedObjects group domain object) (rangesOf tables object.dmEntry)

def extentsOf {Columns : Type} (select : SymbolTables → ObjectTables Columns)
    (databases : DatabasePtr → SymbolTables) (group objects : EntrySet) (domain : Extent) :
    Result (ExtentTable Entry Entry) :=
  match group.entries with
  | [] => return ExtentTable.empty
  | first :: _ => do
      let database := first.dmDatabase
      check (group.entries.all fun thread => thread.dmDatabase = database) .assertion
      check (objects.entries.all fun object => object.dmDatabase = database) .assertion
      let tables := databases database
      let linkedObjects ← collect (occurrence group.entries database) tables.addressSpaces
      let entries ← collect (constrained (select tables) linkedObjects group.entries domain) objects.entries
      return entries.foldl (fun table entry => table.addExtent entry.1 entry.2.1 entry.2.2) ExtentTable.empty

def getExtentsOfFunctions := @extentsOf _ SymbolTables.functions

def getExtentsOfLoops := @extentsOf _ SymbolTables.loops

def getExtentsOfStatements := @extentsOf _ SymbolTables.statements

end ThreadGroup

end OpenSpeedShop
