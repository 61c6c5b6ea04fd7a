import OpenSpeedShop.Framework.FunctionCacheCore
import OpenSpeedShop.Library.Runs

/-!
The end of an experiment of a component network: symbol tables are built for the sampled linked objects,
filled and stored, and unneeded rows are deleted. It begins with the tables of `process_addressspace`. A
failed assertion or an exception leaves no result.
-/

namespace OpenSpeedShop

open Fallible

namespace Cbtf

/-- The threads that the rows of `Data` and of `Collecting` name, beside the other tables. -/
structure Tables extends ExperimentTables where
  data : List Int32
  collecting : List Int32

namespace LinkedObject

def getAddressRange (tables : ExperimentTables) (linkedObject : Int32) : Option (List AddressRange) := do
  guard (linkedObject.toInt ∈ tables.linkedObjects.map LinkedObjectRow.id)
  let rows := tables.addressSpaces.filter fun row => row.linkedObject = linkedObject
  let addressrange ← rows.foldlM (fun addressrange row => do
    let range ← (Interval.make (OffsetBinary.decode row.addrBegin) (OffsetBinary.decode row.addrEnd)).toOption
    return OrderedMap.insert AddressRange.less range () addressrange) []
  return addressrange.map Prod.fst

def getPath (tables : ExperimentTables) (linkedObject : Int32) : Option String := do
  let rows := tables.linkedObjects.filter fun row => row.id = linkedObject.toInt
  let paths := rows.flatMap fun row =>
    (tables.files.filter fun file => row.file.toInt = file.id).map FileRow.path
  let path ← paths.foldlM (fun path next => if path = "" then some next else none) ""
  if path = "" then none else some path

end LinkedObject

def getLinkedObjects (tables : ExperimentTables) : List Int32 :=
  ((tables.addressSpaces.filter fun row => row.thread.toInt ∈ tables.threads).map
    (·.linkedObject)).dedup.insertionSort fun first second => first.toInt ≤ second.toInt

abbrev SymbolTableMap := List (AddressRange × SymbolTable × Int32)

structure Found where
  linkedobjs : List String
  symtabmap : SymbolTableMap

def examineRange (sampled : List Address) (tables : ExperimentTables) (linkedObject : Int32)
    (found : Found) (range : AddressRange) : Option Found :=
  if sampled.any fun address => range.doesContain address then do
    let path ← LinkedObject.getPath tables linkedObject
    if path ∈ found.linkedobjs then return found
    else return {
      linkedobjs := path :: found.linkedobjs
      symtabmap := OrderedMap.insert AddressRange.less range
        (SymbolTable.new range, linkedObject) found.symtabmap }
  else return found

def examineObject (sampled : List Address) (tables : ExperimentTables) (found : Found)
    (linkedObject : Int32) : Option Found := do
  let addrRange ← LinkedObject.getAddressRange tables linkedObject
  addrRange.foldlM (examineRange sampled tables linkedObject) found

def symbolTables (sampled : List Address) (tables : ExperimentTables) : Option SymbolTableMap := do
  let found ← (getLinkedObjects tables).foldlM (examineObject sampled tables) ⟨[], []⟩
  return found.symtabmap

/-- What the symbol readers add to the table of a linked object over a range of it: all of
its functions, and its loops and statements. -/
abbrev Readers := Int32 → AddressRange → List SymbolTable.Call

def resolve (readers : Readers) (symtabmap : SymbolTableMap) : Option SymbolTableMap :=
  symtabmap.mapM fun entry => do
    let symbolTable ← Runs.run SymbolTable.Call.step entry.2.1 (readers entry.2.2 entry.1)
    return (entry.1, symbolTable, entry.2.2)

abbrev Functions := List (AddressRange × String)

structure Seen where
  existingfunctions : Functions
  allfuncs : Functions

def lookUp (seen : Seen) (function : AddressRange × String) : Seen :=
  match OrderedMap.find? AddressRange.less function.1 seen.allfuncs with
  | none =>
    { seen with allfuncs :=
        OrderedMap.insert AddressRange.less function.1 function.2 seen.allfuncs }
  | some _ =>
    { seen with existingfunctions :=
        OrderedMap.insert AddressRange.less function.1 function.2 seen.existingfunctions }

def removeFunctions (symbolTable : SymbolTable) (other : Functions) : SymbolTable :=
  { symbolTable with dmFunctions := other.foldl (fun functions i =>
      match OrderedMap.find? AddressRange.less i.1 functions with
      | none => functions
      | some it => functions.erase it) symbolTable.dmFunctions }

def storeTable (state : Functions × ExperimentTables) (entry : AddressRange × SymbolTable × Int32) :
    Option (Functions × ExperimentTables) := do
  let seen := entry.2.1.dmFunctions.foldl lookUp ⟨[], state.1⟩
  let symbolTable := removeFunctions entry.2.1 seen.existingfunctions
  let tables ← (state.2.processAndStore symbolTable entry.2.2).toOption
  return (seen.allfuncs, tables)

def cleanUp (tables : Tables) : Tables :=
  let threads := tables.threads.filter fun id => id ∈ tables.data.map Int32.toInt
  let pruned := ({ tables.toExperimentTables with
    threads := threads }).deleteLinkedObjects.deleteFiles.deleteAddressSpaces
  { tables with toExperimentTables := { pruned with
      addressSpaces := pruned.addressSpaces.filter fun row => row.thread.toInt ∈ threads } }

def finalize (readers : Readers) (sampled : List Address) (allfuncs : Functions) (tables : Tables) :
    Option (Functions × Tables) := do
  let symtabmap ← symbolTables sampled tables.toExperimentTables
  let symtabmap ← resolve readers symtabmap
  let (allfuncs, stored) ← symtabmap.foldlM storeTable (allfuncs, tables.toExperimentTables)
  return (allfuncs, cleanUp { tables with toExperimentTables := stored })

end Cbtf

end OpenSpeedShop
