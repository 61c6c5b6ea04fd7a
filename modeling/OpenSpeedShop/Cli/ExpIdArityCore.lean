import Mathlib.Data.Int.Basic

/-!
The grammar of a command line as syntax trees, and the actions of its rules on the parse
result, as far as experiment ids and targets are concerned.
-/

namespace OpenSpeedShop.ExpIdArity

inductive CommandType
  | headError
  | expAttach | expClone | expClose | expCompare | expCont | expCreate | expData | expDetach
  | expDisable | expEnable | expFocus | expGo | expPause | expRestore | expSave | expSetargs
  | expSetparam | expStatus | expView
  | view
  | cViewClusters | cViewCreate | cViewDelete | cViewInfo | cView
  | listGeneric
  | clearBreak | echo | exit | help | history | info | log | openGui | playback | record
  | setbreak | wait
deriving DecidableEq

inductive ParseRange
  | point (num : Int)
  | range (start stop : Int)
deriving DecidableEq

inductive HostName
  | name (name : String)
  | address (num : Int)
deriving DecidableEq

structure ParseTarget where
  used : Bool
  hostList : List HostName
  fileList : List String
  pidList : List ParseRange
  threadList : List ParseRange
  rankList : List ParseRange
deriving DecidableEq

def ParseTarget.new : ParseTarget := ⟨false, [], [], [], [], []⟩

structure ParseResult where
  commandType : CommandType
  experimentIdList : List ParseRange
  curTarget : ParseTarget
  targetList : List ParseTarget
  redirect : Option String
  append : Option String
  errorSet : Bool
  errorList : List String
deriving DecidableEq

def ParseResult.new : ParseResult := ⟨.headError, [], .new, [], none, none, false, []⟩

def toInt (num : Int) : Int := num.bmod 4294967296

namespace ParseResult

def setError (result : ParseResult) (name : String) : ParseResult :=
  { result with errorSet := true, errorList := result.errorList ++ [name] }

def setCommandType (result : ParseResult) (type : CommandType) : ParseResult :=
  { result with commandType := type }

/-- `void pushExpIdPoint(int num)` -/
def pushExpIdPoint (result : ParseResult) (num : Int) : ParseResult :=
  { result with experimentIdList := result.experimentIdList ++ [.point (toInt num)] }

/-- `void pushExpIdRange(int num1, int num2)` -/
def pushExpIdRange (result : ParseResult) (num1 num2 : Int) : ParseResult :=
  { result with
    experimentIdList := result.experimentIdList ++ [.range (toInt num1) (toInt num2)] }

def countRange (count : Int) : ParseRange → Int
  | .point _ => toInt (count + 1)
  | .range start stop => toInt (count + ((stop - start) + 1))

def expIdCount (result : ParseResult) : Int := result.experimentIdList.foldl countRange 0

def onlyOneExpId : String := "Only one expId allowed"

def keepTarget (result : ParseResult) : ParseResult :=
  if result.curTarget.used then
    { result with targetList := result.targetList ++ [result.curTarget], curTarget := .new }
  else result

def pushParseTarget (result : ParseResult) : ParseResult :=
  let result := result.keepTarget
  match result.commandType with
  | .expCompare => result
  | _ => if result.expIdCount > 1 then result.setError onlyOneExpId else result

end ParseResult

/-- `list : item | list COMMA item` -/
inductive CommaList (Item : Type)
  | one (item : Item)
  | comma (list : CommaList Item) (item : Item)

/-- `NUMBER` and `NUMBER COLON NUMBER` -/
inductive NumberRange
  | number (num : Int)
  | colon (num1 num2 : Int)

inductive TargetElement
  | hostListSpec (list : CommaList HostName)
  | fileListSpec (list : CommaList String)
  | pidListSpec (list : CommaList NumberRange)
  | threadListSpec (list : CommaList NumberRange)
  | rankListSpec (list : CommaList NumberRange)

/-- `target : target_element | target target_element` -/
inductive Target
  | one (element : TargetElement)
  | more (target : Target) (element : TargetElement)

/-- `target_list : target | target_list SEMICOLON target` -/
inductive TargetList
  | one (target : Target)
  | semicolon (list : TargetList) (target : Target)

inductive OtherArgument
  | modifierListSpec | expTypeList | instrumentorListSpec | expMetricListSpec
  | expFormatListSpec | viewIdListSpec | viewTypeList | expIntervalListSpec | linenoRangeSpec
  | argsSpec | param | addressDescription | number | name | helpArg
deriving DecidableEq

inductive Argument
  | expIdListSpec (list : CommaList NumberRange)
  | targetList (list : TargetList)
  | target (target : Target)
  | fileSpec (name : String)
  | fileName (name : String)
  | other (kind : OtherArgument)

inductive ArgumentKind
  | expIdListSpec | targetList | target | fileSpec | fileName
  | other (kind : OtherArgument)
deriving DecidableEq

def Argument.kind : Argument → ArgumentKind
  | expIdListSpec _ => .expIdListSpec
  | targetList _ => .targetList
  | target _ => .target
  | fileSpec _ => .fileSpec
  | fileName _ => .fileName
  | other kind => .other kind

def someOf (elements kinds : List ArgumentKind) : Bool :=
  !kinds.isEmpty && kinds.all (elements.contains ·)

def atMostOneOf (elements kinds : List ArgumentKind) : Bool :=
  match kinds with
  | [] => true
  | [kind] => elements.contains kind
  | _ => false

def exactlyOneOf (elements kinds : List ArgumentKind) : Bool :=
  match kinds with
  | [kind] => elements.contains kind
  | _ => false

def setViewElement : List ArgumentKind :=
  [.expIdListSpec, .other .modifierListSpec, .other .expMetricListSpec,
    .other .expFormatListSpec, .targetList, .other .viewIdListSpec, .other .viewTypeList,
    .other .expIntervalListSpec]

def accepts (command : CommandType) (kinds : List ArgumentKind) : Bool :=
  match command with
  | .headError => false
  | .expAttach => kinds = [] || someOf
      [.expIdListSpec, .other .modifierListSpec, .targetList, .other .expTypeList] kinds
  | .expClone => kinds = [] || someOf [.expIdListSpec] kinds
  | .expClose => kinds ∈ [[], [.expIdListSpec], [.other .modifierListSpec],
      [.other .modifierListSpec, .expIdListSpec], [.expIdListSpec, .other .modifierListSpec],
      [.other .modifierListSpec, .other .modifierListSpec],
      [.other .modifierListSpec, .other .modifierListSpec, .expIdListSpec],
      [.expIdListSpec, .other .modifierListSpec, .other .modifierListSpec],
      [.other .modifierListSpec, .expIdListSpec, .other .modifierListSpec]]
  | .expCreate => kinds = [] || someOf
      [.other .modifierListSpec, .targetList, .other .expTypeList, .other .instrumentorListSpec] kinds
  | .expCompare => someOf setViewElement kinds
  | .expDetach => kinds = [] || someOf [.expIdListSpec, .targetList, .other .expTypeList] kinds
  | .expCont | .expDisable | .expEnable | .expGo | .expPause | .info =>
    atMostOneOf [.expIdListSpec, .other .modifierListSpec] kinds
  | .expFocus => atMostOneOf [.expIdListSpec] kinds
  | .expRestore => exactlyOneOf [.fileSpec, .fileName] kinds
  | .expSave => kinds ∈ [[.fileSpec], [.expIdListSpec, .fileSpec], [.fileSpec, .expIdListSpec],
      [.fileSpec, .other .modifierListSpec], [.other .modifierListSpec, .fileSpec],
      [.expIdListSpec, .fileSpec, .other .modifierListSpec],
      [.expIdListSpec, .other .modifierListSpec, .fileSpec],
      [.fileSpec, .expIdListSpec, .other .modifierListSpec],
      [.fileSpec, .other .modifierListSpec, .expIdListSpec],
      [.other .modifierListSpec, .expIdListSpec, .fileSpec],
      [.other .modifierListSpec, .fileSpec, .expIdListSpec]]
  | .expSetargs => kinds ∈ [[.other .argsSpec], [.expIdListSpec, .other .argsSpec]]
  | .expSetparam => kinds ∈ [[.other .param], [.expIdListSpec, .other .param]]
  | .expStatus | .wait => kinds ∈ [[], [.expIdListSpec], [.other .modifierListSpec],
      [.other .modifierListSpec, .expIdListSpec], [.expIdListSpec, .other .modifierListSpec]]
  | .expView | .expData | .cViewClusters | .cViewCreate =>
    kinds = [] || someOf setViewElement kinds
  | .cViewDelete | .cViewInfo =>
    atMostOneOf [.other .viewIdListSpec, .other .modifierListSpec] kinds
  | .cView | .view => someOf setViewElement kinds
  | .listGeneric => someOf [.expIdListSpec, .other .modifierListSpec, .targetList,
      .other .expTypeList, .other .linenoRangeSpec] kinds
  | .clearBreak => exactlyOneOf [.other .number] kinds
  | .echo => exactlyOneOf [.other .name] kinds
  | .exit | .openGui => kinds = []
  | .help => kinds = [] || someOf [.other .helpArg] kinds ||
      kinds.head? = some (.other .modifierListSpec) && kinds.tail.all ([.other .helpArg].contains ·)
  | .history => atMostOneOf [.other .number] kinds
  | .log | .record => atMostOneOf [.fileSpec] kinds
  | .playback => exactlyOneOf [.fileSpec] kinds
  | .setbreak => kinds ∈ [[.other .addressDescription],
      [.expIdListSpec, .other .addressDescription], [.other .addressDescription, .expIdListSpec],
      [.target, .other .addressDescription], [.other .addressDescription, .target],
      [.expIdListSpec, .target, .other .addressDescription],
      [.expIdListSpec, .other .addressDescription, .target],
      [.target, .expIdListSpec, .other .addressDescription],
      [.target, .other .addressDescription, .expIdListSpec],
      [.other .addressDescription, .expIdListSpec, .target],
      [.other .addressDescription, .target, .expIdListSpec]]

structure CommandDesc where
  type : CommandType
  arguments : List Argument
  accepted : accepts type (arguments.map Argument.kind) = true

inductive Redirection
  | none
  | redirect (name : String)
  | append (name : String)

inductive CommandLine
  | endLine
  | command (desc : CommandDesc) (redirection : Redirection)

def CommaList.run {Item : Type} (action : ParseResult → Item → ParseResult)
    (result : ParseResult) : CommaList Item → ParseResult
  | one item => action result item
  | comma list item => action (list.run action result) item

def onTarget (push : ParseTarget → ParseTarget) (result : ParseResult) : ParseResult :=
  { result with curTarget := { push result.curTarget with used := true } }

def pushHostPoint (result : ParseResult) (host : HostName) : ParseResult :=
  onTarget (fun target => { target with hostList := target.hostList ++ [host] }) result

def pushFilePoint (result : ParseResult) (name : String) : ParseResult :=
  onTarget (fun target => { target with fileList := target.fileList ++ [name] }) result

def NumberRange.targetRange : NumberRange → ParseRange
  | number num => .range num num
  | colon num1 num2 => .range num1 num2

def pushPidRange (result : ParseResult) (range : NumberRange) : ParseResult :=
  onTarget (fun target => { target with pidList := target.pidList ++ [range.targetRange] }) result

def pushThreadRange (result : ParseResult) (range : NumberRange) : ParseResult :=
  onTarget (fun target => { target with threadList := target.threadList ++ [range.targetRange] }) result

def pushRankRange (result : ParseResult) (range : NumberRange) : ParseResult :=
  onTarget (fun target => { target with rankList := target.rankList ++ [range.targetRange] }) result

def expIdRange (result : ParseResult) : NumberRange → ParseResult
  | .number num => result.pushExpIdPoint num
  | .colon num1 num2 => result.pushExpIdRange num1 num2

def TargetElement.run (result : ParseResult) : TargetElement → ParseResult
  | hostListSpec list => list.run pushHostPoint result
  | fileListSpec list => list.run pushFilePoint result
  | pidListSpec list => list.run pushPidRange result
  | threadListSpec list => list.run pushThreadRange result
  | rankListSpec list => list.run pushRankRange result

def Target.run (result : ParseResult) : Target → ParseResult
  | one element => element.run result
  | more target element => element.run (target.run result)

def TargetList.run (result : ParseResult) : TargetList → ParseResult
  | one target => target.run result
  | semicolon list target => target.run (list.run result).pushParseTarget

def Argument.run (result : ParseResult) : Argument → ParseResult
  | expIdListSpec list => list.run expIdRange result
  | targetList list => list.run result
  | target only => only.run result
  | fileSpec name => pushFilePoint result name
  | fileName name => pushFilePoint result name
  | other _ => result

def CommandDesc.run (desc : CommandDesc) (result : ParseResult) : ParseResult :=
  (desc.arguments.foldl Argument.run result).setCommandType desc.type

def Redirection.run (result : ParseResult) : Redirection → ParseResult
  | none => result
  | redirect name => { result with redirect := some name }
  | append name => { result with append := some name }

def CommandLine.parse : CommandLine → ParseResult
  | endLine => .new
  | command desc redirection => (redirection.run (desc.run .new)).pushParseTarget

end OpenSpeedShop.ExpIdArity
