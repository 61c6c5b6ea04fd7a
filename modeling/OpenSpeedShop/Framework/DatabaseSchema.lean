import OpenSpeedShop.Library.Sql

/-!
The tables of an experiment database, when their foreign keys are intact, and
which rows the threads of an experiment lead to.
-/

namespace OpenSpeedShop.Schema

abbrev Key := Option Int

abbrev Bytes := List UInt8

structure ThreadRow where
  id : Int
  command : Option String
  host : Option String
  pid : Option Int
  posixTid : Option Int
  openmpTid : Option Int
  mpiRank : Option Int
  mpiImpl : Option String

structure AddressSpaceRow where
  id : Int
  thread : Key
  timeBegin : Option Int
  timeEnd : Option Int
  addrBegin : Option Int
  addrEnd : Option Int
  linkedObject : Key

structure LinkedObjectRow where
  id : Int
  addrBegin : Option Int
  addrEnd : Option Int
  file : Key
  isExecutable : Option Int

structure FunctionRow where
  id : Int
  linkedObject : Key
  name : Option String

structure LoopRow where
  id : Int
  linkedObject : Key
  addrHead : Option Int

structure StatementRow where
  id : Int
  linkedObject : Key
  file : Key
  line : Option Int
  column : Option Int

/-- A row of `FunctionRanges`, `LoopRanges` or `StatementRanges`. -/
structure SymbolRangeRow where
  symbol : Key
  addrBegin : Option Int
  addrEnd : Option Int
  validBitmap : Option Bytes

structure FileRow where
  id : Int
  path : Option String
  checksum : Option Bytes
  contents : Option Bytes

structure CollectorRow where
  id : Int
  uniqueId : Option String
  parameterData : Option Bytes

structure CollectingRow where
  collector : Key
  thread : Key
  isPostponed : Bool

structure DataRow where
  id : Int
  collector : Key
  thread : Key
  timeBegin : Option Int
  timeEnd : Option Int
  addrBegin : Option Int
  addrEnd : Option Int
  data : Option Bytes

structure ViewRow where
  id : Int
  viewCmd : Option String
  viewData : Option Bytes

structure ExperimentDatabase where
  threads : List ThreadRow
  addressSpaces : List AddressSpaceRow
  linkedObjects : List LinkedObjectRow
  functions : List FunctionRow
  functionRanges : List SymbolRangeRow
  loops : List LoopRow
  loopRanges : List SymbolRangeRow
  statements : List StatementRow
  statementRanges : List SymbolRangeRow
  files : List FileRow
  collectors : List CollectorRow
  collecting : List CollectingRow
  data : List DataRow
  views : List ViewRow

namespace ExperimentDatabase

variable (database : ExperimentDatabase)

def Names (key : Key) (ids : List Int) : Prop := ∃ id ∈ ids, key = some id

def threadIds : List Int := database.threads.map (·.id)

def linkedObjectIds : List Int := database.linkedObjects.map (·.id)

def functionIds : List Int := database.functions.map (·.id)

def loopIds : List Int := database.loops.map (·.id)

def statementIds : List Int := database.statements.map (·.id)

def fileIds : List Int := database.files.map (·.id)

def collectorIds : List Int := database.collectors.map (·.id)

structure Intact : Prop where
  spaceThread : ∀ row ∈ database.addressSpaces, Names row.thread database.threadIds
  spaceObject : ∀ row ∈ database.addressSpaces, Names row.linkedObject database.linkedObjectIds
  objectFile : ∀ row ∈ database.linkedObjects, Names row.file database.fileIds
  functionObject : ∀ row ∈ database.functions, Names row.linkedObject database.linkedObjectIds
  functionRange : ∀ row ∈ database.functionRanges, Names row.symbol database.functionIds
  loopObject : ∀ row ∈ database.loops, Names row.linkedObject database.linkedObjectIds
  loopRange : ∀ row ∈ database.loopRanges, Names row.symbol database.loopIds
  statementObject : ∀ row ∈ database.statements, Names row.linkedObject database.linkedObjectIds
  statementFile : ∀ row ∈ database.statements, Names row.file database.fileIds
  statementRange : ∀ row ∈ database.statementRanges, Names row.symbol database.statementIds
  collectingCollector : ∀ row ∈ database.collecting, Names row.collector database.collectorIds
  collectingThread : ∀ row ∈ database.collecting, Names row.thread database.threadIds
  dataCollector : ∀ row ∈ database.data, Names row.collector database.collectorIds
  dataThread : ∀ row ∈ database.data, Names row.thread database.threadIds

end ExperimentDatabase

inductive Row
  | thread (row : ThreadRow)
  | addressSpace (row : AddressSpaceRow)
  | linkedObject (row : LinkedObjectRow)
  | function (row : FunctionRow)
  | functionRange (row : SymbolRangeRow)
  | loop (row : LoopRow)
  | loopRange (row : SymbolRangeRow)
  | statement (row : StatementRow)
  | statementRange (row : SymbolRangeRow)
  | file (row : FileRow)
  | collector (row : CollectorRow)
  | collecting (row : CollectingRow)
  | data (row : DataRow)
  | view (row : ViewRow)

namespace ExperimentDatabase

def Has (database : ExperimentDatabase) : Row → Prop
  | .thread row => row ∈ database.threads
  | .addressSpace row => row ∈ database.addressSpaces
  | .linkedObject row => row ∈ database.linkedObjects
  | .function row => row ∈ database.functions
  | .functionRange row => row ∈ database.functionRanges
  | .loop row => row ∈ database.loops
  | .loopRange row => row ∈ database.loopRanges
  | .statement row => row ∈ database.statements
  | .statementRange row => row ∈ database.statementRanges
  | .file row => row ∈ database.files
  | .collector row => row ∈ database.collectors
  | .collecting row => row ∈ database.collecting
  | .data row => row ∈ database.data
  | .view row => row ∈ database.views

/-- One row belongs to another, or is named by it: what is needed to use the one in a thread
takes the other. -/
inductive LeadsTo : Row → Row → Prop
  | addressSpace {thread : ThreadRow} {row : AddressSpaceRow}
      (key : row.thread = some thread.id) : LeadsTo (.thread thread) (.addressSpace row)
  | collecting {thread : ThreadRow} {row : CollectingRow}
      (key : row.thread = some thread.id) : LeadsTo (.thread thread) (.collecting row)
  | data {thread : ThreadRow} {row : DataRow}
      (key : row.thread = some thread.id) : LeadsTo (.thread thread) (.data row)
  | linkedObject {space : AddressSpaceRow} {row : LinkedObjectRow}
      (key : space.linkedObject = some row.id) : LeadsTo (.addressSpace space) (.linkedObject row)
  | function {object : LinkedObjectRow} {row : FunctionRow}
      (key : row.linkedObject = some object.id) : LeadsTo (.linkedObject object) (.function row)
  | functionRange {function : FunctionRow} {row : SymbolRangeRow}
      (key : row.symbol = some function.id) : LeadsTo (.function function) (.functionRange row)
  | loop {object : LinkedObjectRow} {row : LoopRow}
      (key : row.linkedObject = some object.id) : LeadsTo (.linkedObject object) (.loop row)
  | loopRange {loop : LoopRow} {row : SymbolRangeRow}
      (key : row.symbol = some loop.id) : LeadsTo (.loop loop) (.loopRange row)
  | statement {object : LinkedObjectRow} {row : StatementRow}
      (key : row.linkedObject = some object.id) : LeadsTo (.linkedObject object) (.statement row)
  | statementRange {statement : StatementRow} {row : SymbolRangeRow}
      (key : row.symbol = some statement.id) : LeadsTo (.statement statement) (.statementRange row)
  | objectFile {object : LinkedObjectRow} {row : FileRow}
      (key : object.file = some row.id) : LeadsTo (.linkedObject object) (.file row)
  | statementFile {statement : StatementRow} {row : FileRow}
      (key : statement.file = some row.id) : LeadsTo (.statement statement) (.file row)

inductive Reachable (database : ExperimentDatabase) (remaining : Int → Prop) : Row → Prop
  | thread {row : ThreadRow} (member : row ∈ database.threads) (remains : remaining row.id) :
      Reachable database remaining (.thread row)
  | step {first next : Row} (reached : Reachable database remaining first)
      (leads : LeadsTo first next) (has : database.Has next) : Reachable database remaining next

def IsSymbol : Row → Prop
  | .linkedObject _ | .function _ | .functionRange _ | .loop _ | .loopRange _ | .statement _
  | .statementRange _ | .file _ => True
  | .thread _ | .addressSpace _ | .collector _ | .collecting _ | .data _ | .view _ => False

def restrict (database : ExperimentDatabase) (keep : Row → Prop) [DecidablePred keep] :
    ExperimentDatabase where
  threads := database.threads.filter fun row => keep (.thread row)
  addressSpaces := database.addressSpaces.filter fun row => keep (.addressSpace row)
  linkedObjects := database.linkedObjects.filter fun row => keep (.linkedObject row)
  functions := database.functions.filter fun row => keep (.function row)
  functionRanges := database.functionRanges.filter fun row => keep (.functionRange row)
  loops := database.loops.filter fun row => keep (.loop row)
  loopRanges := database.loopRanges.filter fun row => keep (.loopRange row)
  statements := database.statements.filter fun row => keep (.statement row)
  statementRanges := database.statementRanges.filter fun row => keep (.statementRange row)
  files := database.files.filter fun row => keep (.file row)
  collectors := database.collectors.filter fun row => keep (.collector row)
  collecting := database.collecting.filter fun row => keep (.collecting row)
  data := database.data.filter fun row => keep (.data row)
  views := database.views.filter fun row => keep (.view row)

end ExperimentDatabase

end OpenSpeedShop.Schema
