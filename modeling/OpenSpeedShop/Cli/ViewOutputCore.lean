import OpenSpeedShop.Cli.MetricExpressionsCore

/-!
The table of a view: the headers of `Generic_Multi_View`, the rows and the summary of
`Construct_View_Output`. A null pointer that is looked into and an index outside end with `none`. Aborts
are left out.
-/

namespace OpenSpeedShop.ViewOutput

open MetricExpressions

variable {Number Value : Type}

structure Results (Number Value : Type) extends Arithmetic Number Value where
  valueIsNull : Value → Bool
  ofString : String → Value
  calculateAverage : Option Value → Option Value → Option Value
  calculateFlops : Option Value → Option Value → Option Value
  calculateRatioPercent : Option Value → Option Value → Option Value
  calculateInverseRatioPercent : Option Value → Option Value → Option Value

structure Item (Value : Type) where
  id : Value
  temps : Row Value
deriving DecidableEq

def displays : ViewOpCode → Bool
  | .displayMetric | .displayByThreadMetric | .displayTmp | .displayPercentColumn
  | .displayPercentTmp | .displayAverageTmp | .displayFlopsTmp | .displayRatioTmp
  | .displayRatioPercentTmp | .displayInverseRatioPercentTmp | .displayStdDeviationTmp => true
  | _ => false

def findColumnDef (iv : List (ViewInstruction Value)) (column : Int) : Option (ViewInstruction Value) :=
  iv.find? fun vp => vp.tmpResult = column ∧ displays vp.opCode = true

def findMaxColumnDef (iv : List (ViewInstruction Value)) : Int :=
  iv.foldl (fun maxColumn vp =>
    if displays vp.opCode ∧ maxColumn < vp.tmpResult then vp.tmpResult else maxColumn) (-1)

def columnsFrom (iv : List (ViewInstruction Value)) : Nat → Nat → List (ViewInstruction Value)
  | 0, _ => []
  | count + 1, i =>
    match findColumnDef iv i with
    | none => []
    | some vinst => vinst :: columnsFrom iv count (i + 1)

/-- The header of a view, with a title for each column and one for the items; nothing where
no display is requested. -/
def headers (iv : List (ViewInstruction Value)) (hv : List String) (title : String) : Option (List String) :=
  let columns := columnsFrom iv iv.length 0
  if columns = [] then none
  else some (columns.zipIdx.map (fun (_, i) =>
    match hv[i]? with
    | some header => if header ≠ "" then header else "?"
    | none => "?") ++ [title])

structure Tables (Value : Type) where
  viewInst : List (Option (ViewInstruction Value))
  accumulateInst : List (Option (ViewInstruction Value))
  columnSummary : Bool
  columnSummaryOnly : Bool

namespace Tables

def start (iv : List (ViewInstruction Value)) (temps : Nat) : Tables Value :=
  ⟨List.replicate (findMaxColumnDef iv + 1).toNat none, List.replicate temps none, false, false⟩

def setColumn (tables : Tables Value) (vp : ViewInstruction Value) : Option (Tables Value) :=
  (CheckedVector.set tables.viewInst vp.tmpResult (some vp)).map fun viewInst => { tables with viewInst }

def setAccumulate (tables : Tables Value) (temp : Int) (vp : ViewInstruction Value) : Option (Tables Value) :=
  (CheckedVector.set tables.accumulateInst temp (some vp)).map
    fun accumulateInst => { tables with accumulateInst }

def summarizes : ExpressionOperation → Bool
  | .add | .min | .max | .percent | .aAdd | .aMin | .aMax => true
  | _ => false

def reformat (temps : Nat) (tables : Tables Value) (vp : ViewInstruction Value) : Option (Tables Value) :=
  match vp.opCode with
  | .displayMetric | .displayPercentColumn | .displayPercentTmp | .displayAverageTmp
  | .displayFlopsTmp | .displayRatioTmp | .displayRatioPercentTmp
  | .displayInverseRatioPercentTmp | .displayStdDeviationTmp =>
    if vp.tmpResult ≤ temps then tables.setColumn vp else some tables
  | .displayTmp => if vp.tmpResult < temps then tables.setColumn vp else some tables
  | .add | .min | .max =>
    if vp.tmpIndex1 < temps then tables.setAccumulate vp.tmpIndex1 vp else some tables
  | .displaySummaryOnly =>
    some { tables with columnSummary := temps ≠ 0, columnSummaryOnly := temps ≠ 0 }
  -- an empty branch stands before the one that would record it
  | .summaryMax => some tables
  | .displaySummary => some { tables with columnSummary := temps ≠ 0 }
  | .expression =>
    if summarizes vp.expressionOp then tables.setAccumulate vp.tmpResult vp else some tables
  | _ => some tables

end Tables

def percentOfColumn (iv : List (ViewInstruction Value)) (totalValue : List (Option Value)) : Int :=
  if totalValue = [] then -1
  else ((iv.find? fun vp => vp.opCode = .displayPercentColumn).map (·.tmpIndex1)).getD (-1)

section

variable (results : Results Number Value) (totalValue : List (Option Value)) (percentColumn : Int)

/-- `Calculate_Percent(value, Total_Value[total])` -/
def percentOfTotal (value : Option Value) (total : Int) : Option (Option Value) :=
  (CheckedVector.get totalValue total).map (results.calculatePercent value)

def columnPercent (i : Nat) (percentOf : Option Value) (vinst : ViewInstruction Value) :
    Option (Option Value) :=
  match percentOf with
  | none => some none
  | some value =>
    if totalValue ≠ [] ∧ percentColumn < i ∧ results.valueIsNull value = false then
      percentOfTotal results totalValue (some value) vinst.tmpIndex2
    else some none

def calculateOnTwo (calculate : Option Value → Option Value → Option Value) (temps : Row Value)
    (vinst : ViewInstruction Value) : Option (Option Value) := do
  let V1 ← CheckedVector.get temps vinst.tmpIndex1
  let V2 ← CheckedVector.get temps vinst.tmpIndex2
  some (calculate V1 V2)

def derivedValue (temps : Row Value) (vinst : ViewInstruction Value) : Option (Option Value) :=
  match vinst.opCode with
  | .displayAverageTmp => do
      let value ← (CheckedVector.get temps vinst.tmpIndex1).join
      if results.valueIsNull value then some none
      else do
        let V2 ← CheckedVector.get temps vinst.tmpIndex2
        some (results.calculateAverage (some value) V2)
  | .displayStdDeviationTmp => do
      let V1 ← CheckedVector.get temps vinst.tmpIndex1
      let V2 ← CheckedVector.get temps vinst.tmpIndex2
      let V3 ← CheckedVector.get temps vinst.tmpIndex3
      some (results.calculateStdDev V1 V2 V3)
  | .displayFlopsTmp => calculateOnTwo results.calculateFlops temps vinst
  | .displayRatioTmp => calculateOnTwo results.calculateRatio temps vinst
  | .displayRatioPercentTmp => calculateOnTwo results.calculateRatioPercent temps vinst
  | .displayInverseRatioPercentTmp =>
    calculateOnTwo results.calculateInverseRatioPercent temps vinst
  | _ => some none

structure RowState (Value : Type) where
  temps : Row Value
  inputTempUsed : List Bool
  percentOf : Option Value
  columns : List Value

def nextMetricValue (s : RowState Value) (i : Nat) (vinst : ViewInstruction Value) :
    Option (Option Value × RowState Value) :=
  match vinst.opCode with
  | .displayMetric => do
      let used ← CheckedVector.get s.inputTempUsed i
      let value ← CheckedVector.get s.temps i
      let inputTempUsed ← CheckedVector.set s.inputTempUsed i true
      -- the copy of a used value is made through its pointer
      if used = true ∧ value = none then none else some (value, { s with inputTempUsed })
  | .displayTmp => do
      match ← CheckedVector.get s.temps vinst.tmpIndex1 with
      | some value =>
        if results.valueIsNull value then some (none, s)
        else do
          let inputTempUsed ← CheckedVector.set s.inputTempUsed vinst.tmpIndex1 true
          some (some value, { s with inputTempUsed })
      | none =>
        match ← CheckedVector.get totalValue vinst.tmpIndex1 with
        | none => some (none, s)
        | some total => do
            let temps ← CheckedVector.set s.temps vinst.tmpIndex1 (some total)
            some (some total, { s with temps })
  | .displayPercentColumn => do
      let value ← columnPercent results totalValue percentColumn i s.percentOf vinst
      some (value, s)
  | .displayPercentTmp => do
      let value ← (CheckedVector.get s.temps vinst.tmpIndex1).join
      if results.valueIsNull value then some (none, s)
      else do
        let percent ← percentOfTotal results totalValue (some value) vinst.tmpIndex2
        some (percent, s)
  | .expression => do
      let V1 ← CheckedVector.get s.temps vinst.tmpIndex1
      let V2 ← CheckedVector.get s.temps vinst.tmpIndex2
      let V3 ← CheckedVector.get s.temps vinst.tmpIndex3
      some (results.calculateExpression vinst.expressionOp V1 V2 V3, s)
  | _ => do
      let value ← derivedValue results s.temps vinst
      some (value, s)

def keepPercentOf (i : Nat) (value : Value) (percentOf : Option Value) : Option Value :=
  if totalValue ≠ [] ∧ (i : Int) = percentColumn then some value else percentOf

def placeColumn (s : RowState Value) (column : Option (ViewInstruction Value) × Nat) :
    Option (RowState Value) := do
  let vinst ← column.1
  let (next, s) ← nextMetricValue results totalValue percentColumn s column.2 vinst
  let value := next.getD (results.ofString "")
  some { s with
    percentOf := keepPercentOf totalValue percentColumn column.2 value s.percentOf
    columns := s.columns ++ [value] }

def placeColumns (viewInst : List (Option (ViewInstruction Value))) (temps : Nat)
    (row : Row Value) : Option (RowState Value) :=
  viewInst.zipIdx.foldlM (placeColumn results totalValue percentColumn)
    ⟨row, List.replicate temps false, none, []⟩

def firstSummary (row : Row Value) (inst : Option (ViewInstruction Value) × Nat) : Option (Option Value) :=
  match inst.1 with
  | none => some none
  | some vp => do
      match ← CheckedVector.get row inst.2 with
      | some value => some (some value)
      | none =>
        if canAccumulate vp.expressionOp then CheckedVector.get totalValue inst.2 else some none

/-- `if (B[i] != NULL) A[i]->Accumulate(B[i])` -/
def accumulateOn (accumulate : Value → Value → Value) (A B : Option Value) : Option (Option Value) :=
  match B with
  | none => some A
  | some value => A.map fun summary => some (accumulate summary value)

def summaryOperation (op : ExpressionOperation) : ExpressionOperation :=
  if canAccumulate op then if op = .aMin then .min else .max
  else if op = .percent then .add else op

def accumulateTemp (B : Row Value) (inst : Option (ViewInstruction Value)) (i : Nat)
    (A : Option Value) : Option (Option Value) :=
  match inst with
  | none => some A
  | some vp =>
    match vp.opCode with
    | .add => (CheckedVector.get B i).bind (accumulateOn results.accumulateValue A)
    | .min => (CheckedVector.get B i).bind (accumulateOn results.accumulateMin A)
    | .max | .summaryMax => (CheckedVector.get B i).bind (accumulateOn results.accumulateMax A)
    | .expression => do
        let value ← CheckedVector.get B vp.tmpResult
        some (results.calculateExpression (summaryOperation vp.expressionOp) A value none)
    | _ => some A

def accumulatePreDefinedTemps (inst : List (Option (ViewInstruction Value)))
    (A : List (Option Value)) (B : Row Value) : Option (List (Option Value)) :=
  A.zipIdx.mapM fun a => accumulateTemp results B (inst[a.2]?).join a.2 a.1

def summaryValue (accumulateInst : List (Option (ViewInstruction Value)))
    (summaryTemp : List (Option Value)) (percentOf : Option Value) (i : Nat)
    (sinst : ViewInstruction Value) : Option (Option Value) :=
  match sinst.opCode with
  | .displayTmp =>
    if sinst.tmpIndex1 < accumulateInst.length then do
      let accumulation ← CheckedVector.get accumulateInst sinst.tmpIndex1
      -- only display the temp if an accumulation is defined
      if accumulation.isSome ∧ 0 < sinst.tmpIndex1 then do
        match ← CheckedVector.get summaryTemp sinst.tmpIndex1 with
        | some value => some (some value)
        -- the copy is made through the pointer
        | none => (CheckedVector.get totalValue sinst.tmpIndex1).join.map some
      else some none
    else some none
  | .displayPercentTmp => do
      let V ← CheckedVector.get summaryTemp sinst.tmpIndex1
      percentOfTotal results totalValue V sinst.tmpIndex2
  | .displayPercentColumn => columnPercent results totalValue percentColumn i percentOf sinst
  | _ => derivedValue results summaryTemp sinst

structure EnderState (Value : Type) where
  percentOf : Option Value
  enders : List Value

def addEnder (accumulateInst : List (Option (ViewInstruction Value)))
    (summaryTemp : List (Option Value)) (s : EnderState Value)
    (column : Option (ViewInstruction Value) × Nat) : Option (EnderState Value) :=
  match column with
  -- the loop goes on, without an entry
  | (none, _) => some s
  | (some sinst, i) => do
      let summary ← summaryValue results totalValue percentColumn accumulateInst summaryTemp
        s.percentOf i sinst
      let value := summary.getD (results.ofString "")
      some ⟨keepPercentOf totalValue percentColumn i value s.percentOf, s.enders ++ [value]⟩

def reportSummary (tables : Tables Value) (summaryTemp : List (Option Value)) : Option (List Value) := do
  let s ← tables.viewInst.zipIdx.foldlM
    (addEnder results totalValue percentColumn tables.accumulateInst summaryTemp) ⟨none, []⟩
  some (s.enders ++ [results.ofString "Report Summary"])

structure LoopState (Value : Type) where
  atFirst : Bool
  rows : List (List Value)
  summaryTemp : List (Option Value)

def accumulateRow (tables : Tables Value) (s : LoopState Value) (temps : Row Value) :
    Option (List (Option Value)) :=
  if tables.columnSummary = false then some s.summaryTemp
  else if s.atFirst then tables.accumulateInst.zipIdx.mapM (firstSummary totalValue temps)
  else accumulatePreDefinedTemps results tables.accumulateInst s.summaryTemp temps

/-- The body of the loop over the items. The temps that are in the columns then are taken
out of the item, which is not looked at again. -/
def showItem (tables : Tables Value) (s : LoopState Value) (item : Item Value) : Option (LoopState Value) := do
  let placed ← placeColumns results totalValue percentColumn tables.viewInst
    tables.accumulateInst.length item.temps
  let summaryTemp ← accumulateRow results totalValue tables s placed.temps
  some ⟨false, if tables.columnSummaryOnly then s.rows
    else s.rows ++ [placed.columns ++ [item.id]], summaryTemp⟩

structure Report (Value : Type) where
  rows : List (List Value)
  ender : Option (List Value)
deriving DecidableEq

def showItems (tables : Tables Value) (items : List (Item Value)) : Option (Report Value) := do
  let s ← items.foldlM (showItem results totalValue percentColumn tables)
    ⟨true, [], List.replicate tables.accumulateInst.length none⟩
  if tables.columnSummary then do
    let ender ← reportSummary results totalValue percentColumn tables s.summaryTemp
    some ⟨s.rows, some ender⟩
  else some ⟨s.rows, none⟩

end

def constructViewOutput (results : Results Number Value) (iv : List (ViewInstruction Value))
    (totalValue : List (Option Value)) : List (Item Value) → Option (Report Value)
  | [] => some ⟨[], none⟩
  | first :: rest => do
      let tables ← iv.foldlM (Tables.reformat first.temps.length) (Tables.start iv first.temps.length)
      showItems results totalValue (percentOfColumn iv totalValue) tables (first :: rest)

end OpenSpeedShop.ViewOutput
