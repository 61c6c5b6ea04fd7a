import OpenSpeedShop.Cli.MetricExpressionsCore

/-!
The totals of a view that is not a butterfly: `Generic_Multi_View` evaluates the expressions, which
leaves a total for each that accumulates, and clears and recomputes totals for percentages.
-/

namespace OpenSpeedShop.ExpressionTotals

open MetricExpressions

variable {Number Value : Type}

structure Totals (Value : Type) where
  /-- Whether `Accumulate_Value` into a result reads its argument. Into an id it does not,
  nor into a result of a class that has no sums. -/
  readsArgument : Value → Bool
  /-- `Get_Total_Metric` for the collector and the metric at an index, which are there. -/
  getTotalMetric : Int → Option (Option Value)

def percentIndex (vp : ViewInstruction Value) : Int :=
  match vp.opCode with
  | .displayPercentTmp | .displayPercentColumn => vp.tmpIndex2
  | .defineTotalTmp => vp.tmpResult
  | .expression => if vp.expressionOp = .percent then vp.tmpIndex2 else -1
  | _ => -1

def maxPercentIndex (iv : List (ViewInstruction Value)) : Int :=
  iv.foldl (fun maxIndex vp => max maxIndex (percentIndex vp)) (-1)

def accumulates (vp : ViewInstruction Value) : Bool :=
  vp.opCode = .expression ∧ canAccumulate vp.expressionOp = true

section

variable (arithmetic : Arithmetic Number Value)

/-- The scan of the samples for an operator that accumulates. The source also reads a third
operand, at index -1 where there is none, and no accumulating operator looks at it. -/
def accumulateSamples (vp : ViewInstruction Value) (s : Evaluation Value) : Option (Evaluation Value) := do
  let values ← s.rows.mapM fun row => CheckedVector.get row vp.tmpIndex1
  let tempIsAccumulated ← CheckedVector.set s.tempIsAccumulated vp.tmpResult true
  let total := values.foldl
    (fun total value => arithmetic.calculateExpression vp.expressionOp total value none) none
  let totalValues ← storeTotal s.totalValues vp.tmpResult total
  some ⟨s.rows, totalValues, tempIsAccumulated, vp.tmpResult⟩

def evaluateSample (vp : ViewInstruction Value) (s : Evaluation Value) (row : Row Value) :
    Option (Row Value) := do
  let opr1 ← operand s.totalValues s.tempIsAccumulated row vp.tmpIndex1
  let opr2 ← operand s.totalValues s.tempIsAccumulated row vp.tmpIndex2
  let opr3 ← operand s.totalValues s.tempIsAccumulated row vp.tmpIndex3
  CheckedVector.set row vp.tmpResult (arithmetic.calculateExpression vp.expressionOp opr1 opr2 opr3)

def evaluateSamples (vp : ViewInstruction Value) (s : Evaluation Value) : Option (Evaluation Value) := do
  let rows ← s.rows.mapM (evaluateSample arithmetic vp s)
  some ⟨rows, s.totalValues, s.tempIsAccumulated, vp.tmpResult⟩

/-- `ConstValue()->Copy()` in every row and for the total. -/
def setConstant (vp : ViewInstruction Value) (s : Evaluation Value) : Option (Evaluation Value) := do
  let value ← vp.constValue
  let rows ← s.rows.mapM fun row => CheckedVector.set row vp.tmpResult (some value)
  let totalValues ← CheckedVector.set s.totalValues vp.tmpResult (some value)
  some { s with rows, totalValues, lastEvaluatedTemp := vp.tmpResult }

def step (s : Evaluation Value) (vp : ViewInstruction Value) : Option (Evaluation Value) :=
  if vp.setsConst then setConstant vp s
  else if vp.tmpIndex1 ≤ s.lastEvaluatedTemp ∧ vp.tmpIndex2 ≤ s.lastEvaluatedTemp ∧
      vp.tmpIndex3 ≤ s.lastEvaluatedTemp then
    if canAccumulate vp.expressionOp then accumulateSamples arithmetic vp s
    else evaluateSamples arithmetic vp s
  else none

def calculateTemporaryValues (iv : List (ViewInstruction Value)) (rows : List (Row Value))
    (totalValues : List (Option Value)) : Option (Evaluation Value) :=
  if numTempsUsed iv < (exprInst iv).length then none
  else (exprInst iv).foldlM (step arithmetic) (Evaluation.start iv rows totalValues)

end

section

variable (arithmetic : Arithmetic Number Value) (totals : Totals Value)

/-- `TotalValue->Accumulate_Value(value)` -/
def accumulateInto (total : Value) : Option Value → Option Value
  | some value => if totals.readsArgument total then some (arithmetic.accumulateValue total value)
      else some total
  | none => if totals.readsArgument total then none else some total

/-- The sum of a temp over the rows; `some none` where no total is made of it. -/
def sumTemp (rows : List (Row Value)) (tmpIndex : Int) : Option (Option Value) :=
  match rows with
  | [] => some none
  | first :: rest =>
    match CheckedVector.get first tmpIndex with
    -- compared with the size of the row as an unsigned number
    | none => some none
    -- the copy of the first value is made through its pointer
    | some none => none
    | some (some value) => do
        let total ← rest.foldlM (fun total row => do
          let value ← CheckedVector.get row tmpIndex
          accumulateInto arithmetic totals total value) value
        some (some total)

def totalEntry (rows : List (Row Value)) (vp : ViewInstruction Value) :
    Option (CheckedVector.Entry (Option Value)) :=
  if vp.opCode = .defineTotalMetric then
    (totals.getTotalMetric vp.tmpIndex1).map fun total => some (vp.tmpResult, total)
  else if vp.opCode = .defineTotalTmp ∨ accumulates vp then
    (sumTemp arithmetic totals rows vp.tmpIndex1).map
      fun total => total.map fun value => (vp.tmpResult, some value)
  else some none

def calculateTotals (iv : List (ViewInstruction Value)) (rows : List (Row Value)) :
    List (Option Value) → Option (List (Option Value)) :=
  CheckedVector.writeAll (totalEntry arithmetic totals rows) iv

end

/-- `for (i = 0; i < (max_percent_index+1); i++) Total_Value[i] = NULL;` -/
def clearTotals (maxIndex : Int) : List (Option Value) → Option (List (Option Value)) :=
  CheckedVector.writeAll (fun i : Nat => some (some ((i : Int), none))) (List.range (maxIndex + 1).toNat)

/-- `Generic_Multi_View` from `Calculate_Temporary_Values` to the sort of the rows. Nothing
behind it writes to `Total_Value` before the view is put out. -/
def genericMultiView (arithmetic : Arithmetic Number Value) (totals : Totals Value)
    (iv : List (ViewInstruction Value)) (rows : List (Row Value)) :
    Option (List (Row Value) × List (Option Value)) := do
  let evaluation ← calculateTemporaryValues arithmetic iv rows (newTotalValues iv)
  if 0 ≤ maxPercentIndex iv then
    let cleared ← clearTotals (maxPercentIndex iv) evaluation.totalValues
    let totalValues ← calculateTotals arithmetic totals iv evaluation.rows cleared
    some (evaluation.rows, totalValues)
  else some (evaluation.rows, evaluation.totalValues)

end OpenSpeedShop.ExpressionTotals
