import OpenSpeedShop.Library.CheckedVector

/-!
Metric expressions: the instructions that a view makes of them, and their evaluation across the
rows of a report. The arithmetic of `SS_CommandResult.cxx` is a parameter.
-/

namespace OpenSpeedShop.MetricExpressions

inductive ExpressionOperation
  | error | const | header | uminus | abs | add | sub | mult | div | mod | min | max | sqrt
  | stdev | percent | condexp | aAdd | aMult | aMin | aMax | uint | int | float | ratio
deriving DecidableEq

def canAccumulate : ExpressionOperation → Bool
  | .aAdd | .aMult | .aMin | .aMax => true
  | _ => false

/-- The classes derived from `CommandResult`, and what the functions on them compute.
`none` is a null pointer. -/
structure Arithmetic (Number Value : Type) where
  ofInt : Int → Value
  ofFloat : Number → Value
  sameType : Value → Value → Bool
  accumulateValue : Value → Value → Value
  accumulateMin : Value → Value → Value
  accumulateMax : Value → Value → Value
  calculateUminus : Option Value → Option Value
  calculateAbs : Option Value → Option Value
  calculateAdd : Option Value → Option Value → Option Value
  calculateSub : Option Value → Option Value → Option Value
  calculateMult : Option Value → Option Value → Option Value
  calculateDiv : Option Value → Option Value → Option Value
  calculateMod : Option Value → Option Value → Option Value
  calculateMin : Option Value → Option Value → Option Value
  calculateMax : Option Value → Option Value → Option Value
  calculateSqrt : Option Value → Option Value
  calculateStdDev : Option Value → Option Value → Option Value → Option Value
  calculatePercent : Option Value → Option Value → Option Value
  calculateCondexp : Option Value → Option Value → Option Value → Option Value
  convertToUint : Option Value → Option Value
  convertToInt : Option Value → Option Value
  convertToFloat : Option Value → Option Value
  calculateRatio : Option Value → Option Value → Option Value

namespace Arithmetic

variable {Number Value : Type} (arithmetic : Arithmetic Number Value)

def calculateAAdd : Option Value → Option Value → Option Value
  | none, b => b
  | some a, none => some a
  | some a, some b =>
    if arithmetic.sameType a b then some (arithmetic.accumulateValue a b)
    else arithmetic.calculateAdd (some a) (some b)

def calculateAMult : Option Value → Option Value → Option Value
  | none, b => b
  | some a, none => some a
  | some a, some b => arithmetic.calculateAdd (some a) (some b)

def calculateAMin : Option Value → Option Value → Option Value
  | none, b => b
  | some a, none => some a
  | some a, some b =>
    if arithmetic.sameType a b then some (arithmetic.accumulateMin a b)
    else arithmetic.calculateMin (some a) (some b)

def calculateAMax : Option Value → Option Value → Option Value
  | none, b => b
  | some a, none => some a
  | some a, some b =>
    if arithmetic.sameType a b then some (arithmetic.accumulateMax a b)
    else arithmetic.calculateMax (some a) (some b)

def calculateExpression (op : ExpressionOperation) (a b c : Option Value) : Option Value :=
  match op with
  | .error => none
  | .uminus => arithmetic.calculateUminus a
  | .abs => arithmetic.calculateAbs a
  | .add => arithmetic.calculateAdd a b
  | .sub => arithmetic.calculateSub a b
  | .mult => arithmetic.calculateMult a b
  | .div => arithmetic.calculateDiv a b
  | .mod => arithmetic.calculateMod a b
  | .min => arithmetic.calculateMin a b
  | .max => arithmetic.calculateMax a b
  | .sqrt => arithmetic.calculateSqrt a
  | .stdev => arithmetic.calculateStdDev a b c
  | .percent => arithmetic.calculatePercent a b
  | .condexp => arithmetic.calculateCondexp a b c
  | .aAdd => arithmetic.calculateAAdd a b
  | .aMult => arithmetic.calculateAMult a b
  | .aMin => arithmetic.calculateAMin a b
  | .aMax => arithmetic.calculateAMax a b
  | .uint => arithmetic.convertToUint a
  | .int => arithmetic.convertToInt a
  | .float => arithmetic.convertToFloat a
  | .ratio => arithmetic.calculateRatio a b
  | .const | .header => none

end Arithmetic

inductive ParseVal (Number : Type)
  | string (name : String)
  | number (num : Int)
  | double (val : Number)

def ParseVal.name {Number : Type} : ParseVal Number → String
  | string name => name
  | number _ => ""
  | double _ => ""

structure ParseRangeValue (Number : Type) where
  startRange : ParseVal Number
  endRange : ParseVal Number
  isRange : Bool

inductive ParseRange (Number : Type)
  | range (value : ParseRangeValue Number)
  | expression (operation : ExpressionOperation) (operands : List (ParseRange Number))

inductive ViewOpCode
  | defineTotalMetric | defineTotalTmp | defineByThreadMetric | requireFieldEqual
  | displayMetric | displayByThreadMetric | displayTmp | displayPercentColumn
  | displayPercentTmp | displayAverageTmp | displayStdDeviationTmp | displayFlopsTmp
  | displayRatioTmp | displayRatioPercentTmp | displayInverseRatioPercentTmp
  | displaySummary | displaySummaryOnly | sortAscending | expression | add | min | max
  | summaryMax | stackExpand | setConstString | setConstInt | setConstFloat
deriving DecidableEq

structure ViewInstruction (Value : Type) where
  opCode : ViewOpCode
  expressionOp : ExpressionOperation
  tmpResult : Int
  tmpIndex1 : Int
  tmpIndex2 : Int
  tmpIndex3 : Int
  constValue : Option Value
deriving DecidableEq

namespace ViewInstruction

variable {Value : Type}

def displayTmp (column temp : Int) : ViewInstruction Value :=
  ⟨.displayTmp, .error, column, temp, -1, -1, none⟩

def ofExpression (op : ExpressionOperation) (result tmp1 tmp2 tmp3 : Int) : ViewInstruction Value :=
  ⟨.expression, op, result, tmp1, tmp2, tmp3, none⟩

def constant (opCode : ViewOpCode) (result : Int) (value : Value) : ViewInstruction Value :=
  ⟨opCode, .error, result, -1, -1, -1, some value⟩

def setsConst (vp : ViewInstruction Value) : Bool :=
  vp.opCode = .setConstString ∨ vp.opCode = .setConstInt ∨ vp.opCode = .setConstFloat

def maxTemp (vp : ViewInstruction Value) : Int :=
  match vp.opCode with
  | .displayTmp | .displayPercentTmp | .defineTotalTmp => vp.tmpIndex1
  | .displayAverageTmp | .displayFlopsTmp | .displayRatioTmp | .displayRatioPercentTmp
  | .displayInverseRatioPercentTmp => max vp.tmpIndex1 vp.tmpIndex2
  | .displayStdDeviationTmp => max (max vp.tmpIndex1 vp.tmpIndex2) vp.tmpIndex3
  | .expression => vp.tmpResult
  | _ => -1

end ViewInstruction

def findMaxTemp {Value : Type} (iv : List (ViewInstruction Value)) : Int :=
  iv.foldl (fun maxTemp vp => max maxTemp vp.maxTemp) (-1)

def lowerString (name : String) : String :=
  String.ofList (name.toList.map Char.toLower)

/-- What a view has when its expressions are met: the instructions of its own, the last
of the temps that it defines itself, and the temps of the metrics it can show. -/
structure View (Value : Type) where
  name : String
  predefined : List (ViewInstruction Value)
  lastPredefinedTemp : Int
  metricMap : List (String × Int)
  /-- The view itself gives only instructions about its own temps. -/
  predefined_temps : ∀ vp ∈ predefined, vp.opCode ≠ .expression ∧ vp.setsConst = false ∧
    vp.maxTemp ≤ lastPredefinedTemp
  metric_temps : ∀ metric ∈ metricMap, 0 ≤ metric.2 ∧ metric.2 ≤ lastPredefinedTemp
  temps : -1 ≤ lastPredefinedTemp

/-- `MetricMap.find` by the name of the user, and by that name in lower case. -/
def View.metricTemp {Value : Type} (view : View Value) (name : String) : Int :=
  let metricTemp := (view.metricMap.lookup name).getD (-1)
  if metricTemp < 0 then (view.metricMap.lookup (lowerString name)).getD (-1) else metricTemp

structure Generation (Value : Type) where
  iv : List (ViewInstruction Value)
  hv : List String
  lastUsedTemp : Int
  lastColumn : Int
  softErrors : List String

namespace Generation

variable {Value : Type}

def markSoftError (g : Generation Value) (message : String) : Generation Value :=
  { g with softErrors := g.softErrors ++ [message] }

def pushBack (g : Generation Value) (vp : ViewInstruction Value) : Generation Value :=
  { g with iv := g.iv ++ [vp] }

def newTemp (g : Generation Value) : Generation Value :=
  { g with lastUsedTemp := g.lastUsedTemp + 1 }

end Generation

def ParseRangeValue.metricName {Number : Type} (range : ParseRangeValue Number) : String :=
  if range.isRange then range.endRange.name else range.startRange.name

section

variable {Number Value : Type} (arithmetic : Arithmetic Number Value) (view : View Value)

def evaluateRange (range : ParseRangeValue Number) (g : Generation Value) : Int × Generation Value :=
  match range.startRange with
  | .number num =>
    let newResult := g.lastUsedTemp + 1
    (newResult, g.newTemp.pushBack (.constant .setConstInt newResult (arithmetic.ofInt num)))
  | .double val =>
    let newResult := g.lastUsedTemp + 1
    (newResult, g.newTemp.pushBack (.constant .setConstFloat newResult (arithmetic.ofFloat val)))
  | .string _ =>
    let metricTemp := view.metricTemp range.metricName
    if metricTemp < 0 then
      (metricTemp, g.markSoftError (range.metricName ++
        " is not available for use within this Metric expression of this '" ++
        view.name ++ "' view."))
    else (metricTemp, g)

mutual

def evaluateParseExpression : ParseRange Number → Generation Value → Int × Generation Value
  | .expression .error _, g => (-1, g)
  | .expression .const _, g => (-1, g)
  | .expression .header _, g => (-1, g.markSoftError
      "A HEADER expression may not be nested within another expression.")
  | .expression op operands, g =>
    let (ops, g) := evaluateOperands operands g
    -- every operand is evaluated, also after one that is rejected
    if ops.any (· < 0) then (-1, g)
    else
      let newResult := g.lastUsedTemp + 1
      (newResult, g.newTemp.pushBack (.ofExpression op newResult (ops[0]?.getD (-1))
        (ops[1]?.getD (-1)) (ops[2]?.getD (-1))))
  | .range leaf, g => evaluateRange arithmetic view leaf g

def evaluateOperands : List (ParseRange Number) → Generation Value → List Int × Generation Value
  | [], g => ([], g)
  | pr :: rest, g =>
    let (tempResult, g) := evaluateParseExpression pr g
    let (ops, g) := evaluateOperands rest g
    (tempResult :: ops, g)

end

def columnExpression : ParseRange Number → String × ParseRange Number
  | .expression .header (.range title :: pr :: _) => (title.startRange.name, pr)
  | .expression .header (.expression _ _ :: pr :: _) => ("", pr)
  | pr => ("user expression", pr)

def generateColumn (mi : ParseRange Number) (g : Generation Value) : Int × Generation Value :=
  let (header, pr) := columnExpression mi
  let (newResult, g) := evaluateParseExpression arithmetic view pr g
  if newResult < 0 then
    (newResult, g.markSoftError ("Column " ++ toString g.lastColumn ++
      " not generated because of an error in the metric expression."))
  else
    let g := g.pushBack (.displayTmp g.lastColumn newResult)
    (newResult, { g with lastColumn := g.lastColumn + 1, hv := g.hv ++ [header] })

def generateColumns : List (ParseRange Number) → Generation Value → List Int × Generation Value
  | [], g => ([], g)
  | mi :: rest, g =>
    let (newResult, g) := generateColumn arithmetic view mi g
    let (results, g) := generateColumns rest g
    (newResult :: results, g)

def View.start (lastColumn : Int) : Generation Value :=
  ⟨view.predefined, [], view.lastPredefinedTemp, lastColumn, []⟩

end

abbrev Row (Value : Type) := List (Option Value)

structure Evaluation (Value : Type) where
  rows : List (Row Value)
  totalValues : List (Option Value)
  tempIsAccumulated : List Bool
  lastEvaluatedTemp : Int
deriving DecidableEq

section

variable {Number Value : Type} (arithmetic : Arithmetic Number Value)

/-- `if (TMP >= 0) opr = (temp_is_accumulated[TMP]) ? Total_Values[TMP] : row[TMP]` -/
def operand (totalValues : List (Option Value)) (tempIsAccumulated : List Bool)
    (row : Row Value) (tmp : Int) : Option (Option Value) :=
  if 0 ≤ tmp then do
    let accumulated ← CheckedVector.get tempIsAccumulated tmp
    if accumulated then CheckedVector.get totalValues tmp else CheckedVector.get row tmp
  else some none

def scanRows (vp : ViewInstruction Value) (totalValues : List (Option Value)) :
    List (Row Value) → List Bool → Option Value → Option (List (Row Value) × List Bool × Option Value)
  | [], tempIsAccumulated, total => some ([], tempIsAccumulated, total)
  | row :: rest, tempIsAccumulated, total =>
    if canAccumulate vp.expressionOp then do
      let value ← CheckedVector.get row vp.tmpIndex1
      let tempIsAccumulated ← CheckedVector.set tempIsAccumulated vp.tmpResult true
      -- a missing third operand makes this index -1
      let third ← CheckedVector.get row vp.tmpIndex3
      let total := arithmetic.calculateExpression vp.expressionOp total value third
      let (rows, tempIsAccumulated, total) ← scanRows vp totalValues rest tempIsAccumulated total
      some (row :: rows, tempIsAccumulated, total)
    else do
      let opr1 ← operand totalValues tempIsAccumulated row vp.tmpIndex1
      let opr2 ← operand totalValues tempIsAccumulated row vp.tmpIndex2
      let opr3 ← operand totalValues tempIsAccumulated row vp.tmpIndex3
      let row ← CheckedVector.set row vp.tmpResult
        (arithmetic.calculateExpression vp.expressionOp opr1 opr2 opr3)
      let (rows, tempIsAccumulated, total) ← scanRows vp totalValues rest tempIsAccumulated total
      some (row :: rows, tempIsAccumulated, total)

/-- `if (TotalValue_temp != NULL) Total_Values[TR] = TotalValue_temp` -/
def storeTotal (totalValues : List (Option Value)) (place : Int) : Option Value → Option (List (Option Value))
  | some value => CheckedVector.set totalValues place (some value)
  | none => some totalValues

namespace Evaluation

def step (s : Evaluation Value) (vp : ViewInstruction Value) : Option (Evaluation Value) :=
  if vp.setsConst then do
    let rows ← s.rows.mapM fun row => CheckedVector.set row vp.tmpResult vp.constValue
    let totalValues ← CheckedVector.set s.totalValues vp.tmpResult vp.constValue
    some { s with rows, totalValues, lastEvaluatedTemp := vp.tmpResult }
  else if vp.tmpIndex1 ≤ s.lastEvaluatedTemp ∧ vp.tmpIndex2 ≤ s.lastEvaluatedTemp ∧
      vp.tmpIndex3 ≤ s.lastEvaluatedTemp then do
    let (rows, tempIsAccumulated, total) ← scanRows arithmetic vp s.totalValues s.rows s.tempIsAccumulated none
    let totalValues ← storeTotal s.totalValues vp.tmpResult total
    some ⟨rows, totalValues, tempIsAccumulated, vp.tmpResult⟩
  else none

end Evaluation

def vMultiTimeTemp : Int := 1

def numTempsUsed (iv : List (ViewInstruction Value)) : Int :=
  max vMultiTimeTemp (findMaxTemp iv) + 1

def exprInst (iv : List (ViewInstruction Value)) : List (ViewInstruction Value) :=
  iv.filter fun vp => vp.opCode = .expression ∨ vp.setsConst

def firstEvaluatedTemp (iv : List (ViewInstruction Value)) : Int :=
  iv.foldl (fun last vp =>
    if vp.opCode = .expression ∧ vp.tmpResult < last then vp.tmpResult else last)
    (numTempsUsed iv)

def Evaluation.start (iv : List (ViewInstruction Value)) (rows : List (Row Value))
    (totalValues : List (Option Value)) : Evaluation Value :=
  ⟨rows, totalValues, List.replicate (numTempsUsed iv).toNat false, firstEvaluatedTemp iv⟩

def calculateTemporaryValues (iv : List (ViewInstruction Value)) (rows : List (Row Value))
    (totalValues : List (Option Value)) : Option (Evaluation Value) :=
  if numTempsUsed iv < (exprInst iv).length then none
  else if rows = [] then some (Evaluation.start iv rows totalValues)
  else (exprInst iv).foldlM (Evaluation.step arithmetic) (Evaluation.start iv rows totalValues)

def newTotalValues (iv : List (ViewInstruction Value)) : List (Option Value) :=
  List.replicate (findMaxTemp iv + 1).toNat none

end

/-! What the expressions say: the value of a tree over a row of the report. -/

section

variable {Number Value : Type} (arithmetic : Arithmetic Number Value) (view : View Value)

def ParseRangeValue.value (range : ParseRangeValue Number) (row : Row Value) : Option Value :=
  match range.startRange with
  | .number num => some (arithmetic.ofInt num)
  | .double val => some (arithmetic.ofFloat val)
  | .string _ => (CheckedVector.get row (view.metricTemp range.metricName)).join

mutual

def ParseRange.value (samples : List (Row Value)) : ParseRange Number → Row Value → Option Value
  | .range leaf, row => leaf.value arithmetic view row
  | .expression op operands, row =>
    if canAccumulate op then
      samples.foldl (fun total sample => arithmetic.calculateExpression op total
        (ParseRange.values samples operands sample)[0]?.join none) none
    else
      let values := ParseRange.values samples operands row
      arithmetic.calculateExpression op values[0]?.join values[1]?.join values[2]?.join

def ParseRange.values (samples : List (Row Value)) : List (ParseRange Number) → Row Value → List (Option Value)
  | [], _ => []
  | pr :: rest, row =>
    ParseRange.value samples pr row :: ParseRange.values samples rest row

end

end

end OpenSpeedShop.MetricExpressions
