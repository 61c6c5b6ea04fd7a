import OpenSpeedShop.Framework.AddressBitmapCore
import OpenSpeedShop.Library.OffsetBinary
import Mathlib.Data.List.MinMax

/-!
The tables of an experiment database that hold address spaces and symbols, and the symbol table
of a linked object, stored as address ranges with bitmaps.
-/

namespace OpenSpeedShop

open Fallible

/-- Columns that name a thread, a linked object or a symbol are only ever bound
from integers. -/
structure AddressSpaceRow where
  thread : Int32
  timeBegin : Int64
  timeEnd : Int64
  addrBegin : Int64
  addrEnd : Int64
  linkedObject : Int32
deriving DecidableEq

/-- A row of table `Functions`, `Loops` or `Statements`. -/
structure ObjectRow (Columns : Type) where
  id : Int
  linkedObject : Int32
  columns : Columns
deriving DecidableEq

/-- A row of table `FunctionRanges`, `LoopRanges` or `StatementRanges`. -/
structure RangeRow where
  object : Int32
  addrBegin : Int64
  addrEnd : Int64
  validBitmap : List UInt8
deriving DecidableEq

structure ObjectTables (Columns : Type) where
  objects : List (ObjectRow Columns)
  ranges : List RangeRow
deriving DecidableEq

structure FileRow where
  id : Int
  path : String
deriving DecidableEq

structure StatementColumns where
  file : Int32
  line : Int32
  column : Int32
deriving DecidableEq

structure SymbolTables where
  addressSpaces : List AddressSpaceRow
  functions : ObjectTables String
  loops : ObjectTables Int64
  files : List FileRow
  statements : ObjectTables StatementColumns
deriving DecidableEq

def nextId (ids : List Int) : Int :=
  match ids.max? with
  | some highest => highest + 1
  | none => 1

theorem lt_nextId {ids : List Int} {id : Int} (member : id ∈ ids) : id < nextId ids := by
  unfold nextId
  cases highest : ids.max? with
  | none =>
    rw [List.max?_eq_none_iff] at highest
    simp [highest] at member
  | some highest =>
    have bound := (List.max?_eq_some_iff.mp ‹_›).2 id member
    dsimp only
    omega

theorem nextId_snoc (ids : List Int) : nextId (ids ++ [nextId ids]) = nextId ids + 1 := by
  have last : (ids ++ [nextId ids]).max? = some (nextId ids) := by
    refine List.max?_eq_some_iff.mpr ⟨by simp, fun id member => ?_⟩
    rcases List.mem_append.mp member with earlier | here
    · exact (lt_nextId earlier).le
    · rw [List.mem_singleton.mp here]
  rw [nextId, last]

namespace ObjectTables

variable {Columns : Type}

def insertObject (tables : ObjectTables Columns) (linkedObject : Int32) (columns : Columns) :
    Int32 × ObjectTables Columns :=
  let id := nextId (tables.objects.map ObjectRow.id)
  (Int32.ofInt id, { tables with objects := tables.objects ++ [⟨id, linkedObject, columns⟩] })

def insertRange (tables : ObjectTables Columns) (object : Int32) (validBitmap : AddressBitmap) :
    Result (ObjectTables Columns) := do
  let blob ← validBitmap.getBlob
  return { tables with
    ranges := tables.ranges ++ [⟨object, OffsetBinary.encode validBitmap.dmRange.dmBegin,
      OffsetBinary.encode validBitmap.dmRange.dmEnd, blob⟩] }

end ObjectTables

structure AddressSet where
  addresses : List Address
  sorted : addresses.Pairwise (· < ·)

namespace AddressSet

def empty : AddressSet := ⟨[], List.Pairwise.nil⟩

def insertSorted (address : Address) : List Address → List Address
  | [] => [address]
  | first :: rest =>
    if first < address then first :: insertSorted address rest
    else if address < first then address :: first :: rest
    else first :: rest

theorem mem_insertSorted {address other : Address} {addresses : List Address} :
    other ∈ insertSorted address addresses ↔ other = address ∨ other ∈ addresses := by
  induction addresses with
  | nil => simp [insertSorted]
  | cons first rest ih =>
    rw [insertSorted]
    split
    · rw [List.mem_cons, ih, List.mem_cons]
      exact or_left_comm
    · rename_i notBelow
      split
      · simp
      · rename_i notAbove
        have same : address = first := le_antisymm (not_lt.mp notBelow) (not_lt.mp notAbove)
        simp [same]

theorem insertSorted_sorted (address : Address) {addresses : List Address}
    (sorted : addresses.Pairwise (· < ·)) : (insertSorted address addresses).Pairwise (· < ·) := by
  induction addresses with
  | nil => exact List.pairwise_singleton _ _
  | cons first rest ih =>
    obtain ⟨above, sortedRest⟩ := List.pairwise_cons.mp sorted
    rw [insertSorted]
    split
    · rename_i below
      refine List.pairwise_cons.mpr ⟨fun other member => ?_, ih sortedRest⟩
      rcases mem_insertSorted.mp member with rfl | later
      · exact below
      · exact above other later
    · split
      · rename_i lower
        refine List.pairwise_cons.mpr ⟨fun other member => ?_, sorted⟩
        rcases List.mem_cons.mp member with rfl | later
        · exact lower
        · exact lower.trans (above other later)
      · exact sorted

def insert (self : AddressSet) (address : Address) : AddressSet :=
  ⟨insertSorted address self.addresses, insertSorted_sorted address self.sorted⟩

def take (self : AddressSet) (place : Nat) : AddressSet :=
  ⟨self.addresses.take place, self.sorted.sublist (List.take_sublist _ _)⟩

def drop (self : AddressSet) (place : Nat) : AddressSet :=
  ⟨self.addresses.drop place, self.sorted.sublist (List.drop_sublist _ _)⟩

end AddressSet

structure StatementEntry where
  dmPath : String
  dmLine : Int32
  dmColumn : Int32
deriving DecidableEq

namespace StatementEntry

def less (self other : StatementEntry) : Bool :=
  if self.dmPath < other.dmPath then true
  else if other.dmPath < self.dmPath then false
  else if self.dmLine < other.dmLine then true
  else if other.dmLine < self.dmLine then false
  else self.dmColumn < other.dmColumn

end StatementEntry

def Address.less (self other : Address) : Bool := self < other

structure SymbolTable where
  dmRange : AddressRange
  dmFunctions : List (AddressRange × String)
  dmLoops : List (Address × List AddressRange)
  dmStatements : List (StatementEntry × List AddressRange)

namespace SymbolTable

def new (range : AddressRange) : SymbolTable := ⟨range, [], [], []⟩

def accept (self : SymbolTable) (dmBegin dmEnd : Address) : Result (Option AddressRange) :=
  if dmEnd ≤ dmBegin then return none
  else do
    let range ← Interval.make dmBegin dmEnd
    let contained ← self.dmRange.doesContainRange range
    return if contained then some range else none

def addFunction (self : SymbolTable) (dmBegin dmEnd : Address) (name : String) : Result SymbolTable := do
  match ← self.accept dmBegin dmEnd with
  | none => return self
  | some range =>
    if (OrderedMap.find? AddressRange.less range self.dmFunctions).isSome then return self
    else return { self with
      dmFunctions := OrderedMap.insert AddressRange.less range name self.dmFunctions }

def addLoop (self : SymbolTable) (dmBegin dmEnd head : Address) : Result SymbolTable := do
  match ← self.accept dmBegin dmEnd with
  | none => return self
  | some range =>
    return { self with
      dmLoops := OrderedMap.upsert Address.less head [] (· ++ [range]) self.dmLoops }

def addStatement (self : SymbolTable) (dmBegin dmEnd : Address) (path : String)
    (line column : Int32) : Result SymbolTable := do
  match ← self.accept dmBegin dmEnd with
  | none => return self
  | some range =>
    return { self with
      dmStatements := OrderedMap.upsert StatementEntry.less ⟨path, line, column⟩ []
        (· ++ [range]) self.dmStatements }

inductive Call
  | addFunction (dmBegin dmEnd : Address) (name : String)
  | addLoop (dmBegin dmEnd head : Address)
  | addStatement (dmBegin dmEnd : Address) (path : String) (line column : Int32)
deriving DecidableEq

def Call.perform (self : SymbolTable) : Call → Result SymbolTable
  | .addFunction dmBegin dmEnd name => SymbolTable.addFunction self dmBegin dmEnd name
  | .addLoop dmBegin dmEnd head => SymbolTable.addLoop self dmBegin dmEnd head
  | .addStatement dmBegin dmEnd path line column =>
    SymbolTable.addStatement self dmBegin dmEnd path line column

def Call.step (self : SymbolTable) (call : Call) : Option SymbolTable :=
  (call.perform self).toOption

def partitioningCriteria : Int64 := 8 * (4 + 2 * 8)

def widestGap : (addresses : List Address) → (place : Nat) → (widest : Nat × Int64) → Result (Nat × Int64)
  | prev :: current :: rest, place, widest => do
      let range ← Interval.make prev current
      let gap := (range.getWidth - 1).toInt64
      widestGap (current :: rest) (place + 1) (if gap > widest.2 then (place, gap) else widest)
  | _, _, widest => return widest

def partitionQueue : (fuel : Nat) → (queue result : List AddressSet) → Result (List AddressSet)
  | 0, _, _ => .error .endlessLoop
  | _ + 1, [], result => return result
  | fuel + 1, i :: queue, result =>
    if i.addresses.length = 0 then partitionQueue fuel queue result
    else if i.addresses.length = 1 then partitionQueue fuel queue (result ++ [i])
    else do
      let widest ← widestGap i.addresses 1 (0, 0)
      if widest.2 > partitioningCriteria then
        partitionQueue fuel (queue ++ [i.take widest.1, i.drop widest.1]) result
      else partitionQueue fuel queue (result ++ [i])

def partitionAddressSet (addresses : AddressSet) : Result (List AddressSet) :=
  partitionQueue (2 * addresses.addresses.length + 2) [addresses] []

def populate (range : AddressRange) (addresses : List Address) : Result AddressBitmap :=
  addresses.foldlM (fun bitmap address => bitmap.setValue address true) (AddressBitmap.ofRange range)

def storeFunction (dmRange : AddressRange) (linkedObject : Int32) (tables : ObjectTables String)
    (entry : AddressRange × String) : Result (ObjectTables String) := do
  let addrBegin ← Address.sub entry.1.dmBegin dmRange.dmBegin
  let addrEnd ← Address.sub entry.1.dmEnd dmRange.dmBegin
  let range ← Interval.make addrBegin.toUInt64 addrEnd.toUInt64
  let validBitmap ← populate range (AddressRange.addresses range)
  let (function, tables) := tables.insertObject linkedObject entry.2
  tables.insertRange function validBitmap

def relativeAddresses (dmRange : AddressRange) (ranges : List AddressRange) : Result AddressSet :=
  (ranges.flatMap AddressRange.addresses).foldlM (fun addresses k => do
    let address ← Address.sub k dmRange.dmBegin
    return addresses.insert address.toUInt64) AddressSet.empty

def storeAddressSet {Columns : Type} (object : Int32) (tables : ObjectTables Columns)
    (addresses : AddressSet) : Result (ObjectTables Columns) :=
  match addresses.addresses.head?, addresses.addresses.getLast? with
  | some first, some last => do
      let range ← Interval.make first (Address.addOffset last 1)
      let validBitmap ← populate range addresses.addresses
      tables.insertRange object validBitmap
  | _, _ => .error .outOfBounds

def storeEntry {Columns : Type} (dmRange : AddressRange) (linkedObject : Int32)
    (columns : Columns) (ranges : List AddressRange) (tables : ObjectTables Columns) :
    Result (ObjectTables Columns) := do
  let (object, tables) := tables.insertObject linkedObject columns
  let addresses ← relativeAddresses dmRange ranges
  let addressSets ← partitionAddressSet addresses
  addressSets.foldlM (storeAddressSet object) tables

def storeLoop (dmRange : AddressRange) (linkedObject : Int32) (tables : ObjectTables Int64)
    (entry : Address × List AddressRange) : Result (ObjectTables Int64) := do
  let head ← Address.sub entry.1 dmRange.dmBegin
  storeEntry dmRange linkedObject (OffsetBinary.encode head.toUInt64) entry.2 tables

def findFile (files : List FileRow) (path : String) : Int32 :=
  ((files.filter fun file => file.path = path).map fun file => Int32.ofInt file.id).getLast?.getD (-1)

def storeStatement (dmRange : AddressRange) (linkedObject : Int32)
    (tables : List FileRow × ObjectTables StatementColumns)
    (entry : StatementEntry × List AddressRange) :
    Result (List FileRow × ObjectTables StatementColumns) := do
  let existing := findFile tables.1 entry.1.dmPath
  let id := nextId (tables.1.map FileRow.id)
  let (file, files) :=
    if existing = -1 then (Int32.ofInt id, tables.1 ++ [⟨id, entry.1.dmPath⟩])
    else (existing, tables.1)
  let statements ← storeEntry dmRange linkedObject ⟨file, entry.1.dmLine, entry.1.dmColumn⟩ entry.2 tables.2
  return (files, statements)

def processAndStore (self : SymbolTable) (linkedObject : Int32) (tables : SymbolTables) :
    Result SymbolTables := do
  let functions ← self.dmFunctions.foldlM (storeFunction self.dmRange linkedObject) tables.functions
  let loops ← self.dmLoops.foldlM (storeLoop self.dmRange linkedObject) tables.loops
  let (files, statements) ← self.dmStatements.foldlM (storeStatement self.dmRange linkedObject)
    (tables.files, tables.statements)
  return { tables with
    functions := functions, loops := loops, files := files, statements := statements }

end SymbolTable

end OpenSpeedShop
