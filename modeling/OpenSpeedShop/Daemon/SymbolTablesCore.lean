import OpenSpeedShop.Daemon.ThreadTableCore
import OpenSpeedShop.Framework.AddressBitmapCore

/-!
The symbol tables that a daemon sends to the front end. What Dyninst knows of the
modules of a process, and the names of the threads, are part of each call.
-/

namespace OpenSpeedShop.Daemon

open EntryMap (lookup assign)

structure BPatchFunction where
  getMangledName : String
  basicBlocks : List (Address × Address)
deriving DecidableEq

structure StatementEntry where
  dmPath : String
  dmLine : Int
  dmColumn : Int
deriving DecidableEq

structure BPatchStatement where
  entry : StatementEntry
  startAddr : Address
  endAddr : Address
deriving DecidableEq

structure BPatchModule where
  getFullName : String
  isSharedLib : Bool
  getBaseAddr : Address
  getSize : UInt64
  procedures : List BPatchFunction
  statements : List BPatchStatement
deriving DecidableEq

structure BPatchImage where
  getProgramFileName : String
  modules : List BPatchModule
deriving DecidableEq

def BPatchModule.range? (module : BPatchModule) : Option AddressRange :=
  Interval.make? module.getBaseAddr (module.getBaseAddr + module.getSize)

def defaultModule : String := "DEFAULT_MODULE"

def BPatchImage.linkedObject (image : BPatchImage) (module : BPatchModule) : String :=
  if module.isSharedLib then module.getFullName else image.getProgramFileName

structure SymbolTable where
  dmLinkedObject : String
  dmRange : AddressRange
  dmFunctions : List (String × List AddressRange)
  dmStatements : List (StatementEntry × List AddressRange)
deriving DecidableEq

/-- A piece of code relative to the beginning of its module, unless it is empty or not
inside of the module. -/
def relativeRange (moduleRange : AddressRange) (piece : Address × Address) : Option AddressRange :=
  if piece.2 ≤ piece.1 then none
  else if piece.1 < moduleRange.dmBegin ∨ piece.1 ≥ moduleRange.dmEnd ∨
      piece.2 ≤ moduleRange.dmBegin ∨ piece.2 > moduleRange.dmEnd then none
  else some ⟨piece.1 - moduleRange.dmBegin, piece.2 - moduleRange.dmBegin⟩

def addSymbol {Symbol : Type} [DecidableEq Symbol] (moduleRange : AddressRange)
    (symbols : List (Symbol × List AddressRange)) (symbol : Symbol × List (Address × Address)) :
    List (Symbol × List AddressRange) :=
  assign symbol.1 ((lookup symbol.1 symbols).getD [] ++ symbol.2.filterMap (relativeRange moduleRange)) symbols

def BPatchModule.functionPieces (module : BPatchModule) : List (String × List (Address × Address)) :=
  module.procedures.map fun function => (function.getMangledName, function.basicBlocks)

def BPatchModule.statementPieces (module : BPatchModule) : List (StatementEntry × List (Address × Address)) :=
  module.statements.map fun statement =>
    (statement.entry, [(statement.startAddr, statement.endAddr)])

namespace SymbolTable

def new (linkedObject : String) (range : AddressRange) : SymbolTable :=
  ⟨linkedObject, range, [], []⟩

def setLinkedObject (linkedObject : String) (table : SymbolTable) : SymbolTable :=
  { table with dmLinkedObject := linkedObject }

def addModule (module : BPatchModule) (moduleRange : AddressRange) (table : SymbolTable) : SymbolTable where
  dmLinkedObject := table.dmLinkedObject
  dmRange := table.dmRange
  dmFunctions := module.functionPieces.foldl (addSymbol moduleRange) table.dmFunctions
  dmStatements := module.statementPieces.foldl (addSymbol moduleRange) table.dmStatements

end SymbolTable

structure SymbolTableMessage where
  experiments : List Int
  linkedObject : String
  symbolTable : SymbolTable
deriving DecidableEq

structure SentSymbols where
  sentFiles : List (String × Int)
  messages : List SymbolTableMessage
deriving DecidableEq

def sentFor (file : String) (experiment : Int) (messages : List SymbolTableMessage) :
    List SymbolTableMessage :=
  messages.filter fun message =>
    message.linkedObject = file && message.experiments.contains experiment

namespace SentSymbols

def empty : SentSymbols := ⟨[], []⟩

def getUnsent (sent : SentSymbols) (file : String) (experiments : List Int) : List Int :=
  experiments.filter fun experiment => (file, experiment) ∉ sent.sentFiles

def Consistent (sent : SentSymbols) : Prop :=
  ∀ file experiment, (sentFor file experiment sent.messages).length =
    if (file, experiment) ∈ sent.sentFiles then 1 else 0

def addSent (file : String) (experiments : List Int) (sentFiles : List (String × Int)) :
    Option (List (String × Int)) :=
  if ∀ entry ∈ sentFiles, entry.1 = file → entry.2 ∉ experiments then
    some (sentFiles ++ experiments.map fun experiment => (file, experiment))
  else none

def send (sent : SentSymbols) (table : SymbolTable × List Int) : Option SentSymbols :=
  if table.2 = [] then some sent
  else do
    let sentFiles ← addSent table.1.dmLinkedObject table.2 sent.sentFiles
    return ⟨sentFiles, sent.messages ++ [⟨table.2, table.1.dmLinkedObject, table.1⟩]⟩

end SentSymbols

def experimentGroup (threads : List ThreadName) : List Int :=
  (threads.map ThreadName.experiment).dedup

abbrev SymbolTableMap := List (AddressRange × SymbolTable × List Int)

section

variable (sent : SentSymbols) (experiments : List Int)

def newTable (linkedObject : String) (range : AddressRange) : SymbolTable × List Int :=
  (SymbolTable.new linkedObject range, sent.getUnsent linkedObject experiments)

def rename (linkedObject : String) (table : SymbolTable × List Int) : SymbolTable × List Int :=
  if table.1.dmLinkedObject = defaultModule ∧ linkedObject ≠ defaultModule then
    (table.1.setLinkedObject linkedObject, sent.getUnsent linkedObject experiments)
  else table

def useModule (linkedObject : String) (range : AddressRange) (module : BPatchModule)
    (table : SymbolTable × List Int) : SymbolTable × List Int :=
  let table := rename sent experiments linkedObject table
  if table.2 ≠ [] then (table.1.addModule module range, table.2) else table

def addToTables (image : BPatchImage) (tables : SymbolTableMap) (module : BPatchModule) :
    Option SymbolTableMap := do
  let linkedObject := image.linkedObject module
  let range ← module.range?
  return OrderedMap.upsert AddressRange.less range (newTable sent experiments linkedObject range)
    (useModule sent experiments linkedObject range module) tables

end

def sendSymbolsForThread (threads : List ThreadName) (image : BPatchImage) (sent : SentSymbols) :
    Option SentSymbols := do
  let tables ← image.modules.foldlM (addToTables sent (experimentGroup threads) image) []
  tables.foldlM (fun sent entry => sent.send entry.2) sent

def addWithRange (table : SymbolTable) (module : BPatchModule) : Option SymbolTable := do
  let range ← module.range?
  return if range = table.dmRange then table.addModule module range else table

def dynLibrary (threads : List ThreadName) (image : BPatchImage) (module : BPatchModule)
    (isLoad : Bool) (sent : SentSymbols) : Option SentSymbols :=
  let linkedObject := module.getFullName
  if linkedObject = defaultModule then some sent
  else if isLoad then do
    let range ← module.range?
    let unsent := sent.getUnsent linkedObject (experimentGroup threads)
    if unsent = [] then some sent
    else do
      let symbolTable ← image.modules.foldlM addWithRange (SymbolTable.new linkedObject range)
      sent.send (symbolTable, unsent)
  else some sent

inductive SymbolCall
  | sendSymbolsForThread (threads : List ThreadName) (image : BPatchImage)
  | dynLibrary (threads : List ThreadName) (image : BPatchImage) (module : BPatchModule) (isLoad : Bool)
deriving DecidableEq

def SymbolCall.step (sent : SentSymbols) : SymbolCall → Option SentSymbols
  | .sendSymbolsForThread threads image => Daemon.sendSymbolsForThread threads image sent
  | .dynLibrary threads image module isLoad => Daemon.dynLibrary threads image module isLoad sent

end OpenSpeedShop.Daemon
