import OpenSpeedShop.Cli.ExpressionTotalsCore
import OpenSpeedShop.Cli.MetricEvaluation

/-!
The total of each accumulating expression against the fold of its operator over the rows.
The pass that makes totals for percentages makes them anew, as plain sums.
-/

namespace OpenSpeedShop.ExpressionTotals

open MetricExpressions
open CheckedVector (get_written_other valueAt bounds_of_get get_written_same)
open Option (bind_eq_some_iff join_some)

variable {Number Value : Type}

/-- The instructions of a view. Each expression and each constant has a temp of its own,
and they stand in the order of their temps, as the source assumes. -/
structure InstructionList (Value : Type) where
  iv : List (ViewInstruction Value)
  sorted : (exprInst iv).Pairwise fun vp other => vp.tmpResult < other.tmpResult

def column (rows : List (Row Value)) (tmp : Int) : List (Option Value) :=
  rows.map fun row => entry row tmp

section

variable (arithmetic : Arithmetic Number Value)

def product : Option Value → Option Value → Option Value
  | none, b => b
  | some a, none => some a
  | some a, some b => arithmetic.calculateMult (some a) (some b)

def meant : ExpressionOperation → Option Value → Option Value → Option Value
  | .aAdd => arithmetic.calculateAAdd
  | .aMult => product arithmetic
  | .aMin => arithmetic.calculateAMin
  | .aMax => arithmetic.calculateAMax
  | _ => fun total _ => total

def foldOf (op : ExpressionOperation) (values : List (Option Value)) : Option Value :=
  values.foldl (meant arithmetic op) none

def FoldsTotals (iv : List (ViewInstruction Value)) (rows : List (Row Value))
    (totalValues : List (Option Value)) : Prop :=
  ∀ vp ∈ iv, accumulates vp = true →
    CheckedVector.get totalValues vp.tmpResult =
      some (foldOf arithmetic vp.expressionOp (column rows vp.tmpIndex1))

variable (totals : Totals Value)

def plainSum : List (Option Value) → Option Value
  | some value :: rest => rest.foldlM (accumulateInto arithmetic totals) value
  | _ => none

def InRows (rows : List (Row Value)) (tmp : Int) : Prop :=
  ∃ first ∈ rows.head?, 0 ≤ tmp ∧ tmp < first.length

instance (rows : List (Row Value)) (tmp : Int) : Decidable (InRows rows tmp) :=
  inferInstanceAs (Decidable (∃ first ∈ rows.head?, 0 ≤ tmp ∧ tmp < first.length))

def definedFor (rows : List (Row Value)) (tmp : Int) (vp : ViewInstruction Value) : Option (Option Value) :=
  if vp.tmpResult ≠ tmp then none
  else if vp.opCode = .defineTotalMetric then totals.getTotalMetric vp.tmpIndex1
  else if (vp.opCode = .defineTotalTmp ∨ accumulates vp) ∧ InRows rows vp.tmpIndex1 then
    some (plainSum arithmetic totals (column rows vp.tmpIndex1))
  else none

/-- Where nothing is made for percentages: adding the values gives their product. Else: the
plain sum is the fold, or what the last of the instructions behind defines for the temp. -/
def Agrees (iv : List (ViewInstruction Value)) (rows : List (Row Value))
    (vp : ViewInstruction Value) (behind : List (ViewInstruction Value)) : Prop :=
  let values := column rows vp.tmpIndex1
  if maxPercentIndex iv < 0 then
    vp.expressionOp = .aMult →
      values.foldl arithmetic.calculateAMult none = values.foldl (product arithmetic) none
  else
    ((behind.filterMap (definedFor arithmetic totals rows vp.tmpResult)).getLast?).getD
      (plainSum arithmetic totals values) = foldOf arithmetic vp.expressionOp values

end

section

variable (arithmetic : Arithmetic Number Value) (totals : Totals Value)

theorem sumTemp_column {tmpIndex : Int} :
    ∀ {rows : List (Row Value)} {total sum : Value}, rows.foldlM (fun total row => do
        let value ← CheckedVector.get row tmpIndex
        accumulateInto arithmetic totals total value) total = some sum →
      (column rows tmpIndex).foldlM (accumulateInto arithmetic totals) total = some sum := by
  intro rows
  induction rows with
  | nil => exact fun run => run
  | cons row rest ih =>
    intro total sum run
    rw [List.foldlM_cons] at run
    obtain ⟨next, added, others⟩ := bind_eq_some_iff.mp run
    obtain ⟨value, read, added⟩ := bind_eq_some_iff.mp added
    have here : entry row tmpIndex = value := by rw [entry, read, join_some]
    rw [column, List.map_cons, List.foldlM_cons, here, added]
    exact ih others

variable {rows : List (Row Value)}

theorem sumTemp_cases {tmpIndex : Int} {found : Option Value}
    (ran : sumTemp arithmetic totals rows tmpIndex = some found) :
    (¬InRows rows tmpIndex ∧ found = none) ∨ (InRows rows tmpIndex ∧ ∃ sum, found = some sum ∧
        plainSum arithmetic totals (column rows tmpIndex) = some sum) := by
  cases rows with
  | nil =>
    obtain rfl := Option.some.inj ran
    exact .inl ⟨by simp [InRows], rfl⟩
  | cons first rest =>
    have inRows : InRows (first :: rest) tmpIndex ↔ 0 ≤ tmpIndex ∧ tmpIndex < first.length := by
      simp [InRows]
    rw [inRows]
    rw [sumTemp] at ran
    cases read : CheckedVector.get first tmpIndex with
    | none =>
      rw [read] at ran
      obtain rfl := Option.some.inj ran
      refine .inl ⟨?_, rfl⟩
      rintro ⟨lower, upper⟩
      obtain ⟨value, present⟩ := CheckedVector.get_eq_some lower upper
      rw [read] at present
      cases present
    | some value =>
      rw [read] at ran
      cases value with
      | none => cases ran
      | some value =>
        obtain ⟨sum, summed, returned⟩ := bind_eq_some_iff.mp ran
        have here : entry first tmpIndex = some value := by
          rw [entry, read, join_some]
        refine .inr ⟨bounds_of_get read, sum, (Option.some.inj returned).symm, ?_⟩
        rw [column, List.map_cons, here]
        exact sumTemp_column arithmetic totals summed

variable {vp : ViewInstruction Value}

theorem valueAt_totalEntry {found : CheckedVector.Entry (Option Value)} (tmp : Int)
    (ran : totalEntry arithmetic totals rows vp = some found) :
    valueAt (totalEntry arithmetic totals rows) tmp vp = definedFor arithmetic totals rows tmp vp := by
  rw [valueAt, ran, join_some, definedFor]
  rw [totalEntry] at ran
  split at ran
  · rename_i metric
    obtain ⟨total, got, rfl⟩ := Option.map_eq_some_iff.mp ran
    simp [metric, got]
  · rename_i other
    split at ran
    · rename_i sums
      obtain ⟨sum, summed, rfl⟩ := Option.map_eq_some_iff.mp ran
      obtain ⟨outside, rfl⟩ | ⟨inside, total, rfl, plain⟩ := sumTemp_cases arithmetic totals summed
      · simp [other, outside]
      · simp [other, sums, inside, plain]
    · rename_i quiet
      obtain rfl := Option.some.inj ran
      simp [other, quiet]

theorem calculateTotals_get {iv before behind : List (ViewInstruction Value)}
    {cleared totalValues : List (Option Value)}
    (ran : calculateTotals arithmetic totals iv rows cleared = some totalValues)
    (split : iv = before ++ vp :: behind) (accumulating : accumulates vp = true)
    (inRows : InRows rows vp.tmpIndex1) : CheckedVector.get totalValues vp.tmpResult =
      some (((behind.filterMap (definedFor arithmetic totals rows vp.tmpResult)).getLast?).getD
        (plainSum arithmetic totals (column rows vp.tmpIndex1))) := by
  have entries := CheckedVector.entry_of_writeAll _ ran
  have same : iv.filterMap (valueAt (totalEntry arithmetic totals rows) vp.tmpResult) =
      iv.filterMap (definedFor arithmetic totals rows vp.tmpResult) := by
    refine List.filterMap_congr fun other member => ?_
    obtain ⟨found, made⟩ := entries other member
    exact valueAt_totalEntry arithmetic totals vp.tmpResult made
  have own : definedFor arithmetic totals rows vp.tmpResult vp =
      some (plainSum arithmetic totals (column rows vp.tmpIndex1)) := by
    have operator : vp.opCode = .expression := (of_decide_eq_true accumulating).1
    simp [definedFor, operator, accumulating, inRows]
  rw [CheckedVector.get_after_writeAll _ vp.tmpResult ran, same, split, List.filterMap_append,
    List.filterMap_cons_some own, List.getLast?_append, List.getLast?_cons]
  rfl

end

section

variable (arithmetic : Arithmetic Number Value)

def reads (rows : List (Row Value)) (place : Int) : List (Option (Option Value)) :=
  rows.map fun row => CheckedVector.get row place

theorem column_reads (rows : List (Row Value)) (tmp : Int) :
    column rows tmp = (reads rows tmp).map Option.join := by
  rw [column, reads, List.map_map]
  rfl

structure Kept (place : Int) (s after : Evaluation Value) : Prop where
  reads : reads after.rows place = ExpressionTotals.reads s.rows place
  total : CheckedVector.get after.totalValues place = CheckedVector.get s.totalValues place

variable {place : Int}

theorem Kept.trans {s middle after : Evaluation Value} (first : Kept place s middle)
    (second : Kept place middle after) : Kept place s after :=
  ⟨second.reads.trans first.reads, second.total.trans first.total⟩

variable {totalValues stored : List (Option Value)}

theorem storeTotal_other {place other : Int}
    {total : Option Value} (wrote : storeTotal totalValues place total = some stored)
    (different : other ≠ place) : CheckedVector.get stored other = CheckedVector.get totalValues other := by
  cases total with
  | none => rw [← Option.some.inj wrote]
  | some value => exact get_written_other wrote different

theorem storeTotal_same {total : Option Value} (wrote : storeTotal totalValues place total = some stored)
    (unset : CheckedVector.get totalValues place = some none) :
    CheckedVector.get stored place = some total := by
  cases total with
  | none => rw [← Option.some.inj wrote, unset]
  | some value => exact get_written_same wrote

variable {vp : ViewInstruction Value} {s after : Evaluation Value}

theorem setConstant_kept
    (ran : setConstant vp s = some after) (other : place ≠ vp.tmpResult) : Kept place s after := by
  obtain ⟨value, -, ran⟩ := bind_eq_some_iff.mp ran
  obtain ⟨rows, wrote, ran⟩ := bind_eq_some_iff.mp ran
  obtain ⟨totalValues, stored, returned⟩ := bind_eq_some_iff.mp ran
  obtain rfl := Option.some.inj returned
  exact ⟨Fallible.map_of_mapM (fun row written set => get_written_other set other) wrote,
    get_written_other stored other⟩

theorem accumulateSamples_kept (ran : accumulateSamples arithmetic vp s = some after)
    (other : place ≠ vp.tmpResult) : Kept place s after := by
  obtain ⟨values, -, ran⟩ := bind_eq_some_iff.mp ran
  obtain ⟨marks, -, ran⟩ := bind_eq_some_iff.mp ran
  obtain ⟨totalValues, stored, returned⟩ := bind_eq_some_iff.mp ran
  obtain rfl := Option.some.inj returned
  exact ⟨rfl, storeTotal_other stored other⟩

theorem evaluateSample_kept {s : Evaluation Value}
    {row written : Row Value} (ran : evaluateSample arithmetic vp s row = some written)
    (other : place ≠ vp.tmpResult) : CheckedVector.get written place = CheckedVector.get row place := by
  obtain ⟨opr1, -, ran⟩ := bind_eq_some_iff.mp ran
  obtain ⟨opr2, -, ran⟩ := bind_eq_some_iff.mp ran
  obtain ⟨opr3, -, wrote⟩ := bind_eq_some_iff.mp ran
  exact get_written_other wrote other

theorem step_kept (ran : step arithmetic s vp = some after) (other : place ≠ vp.tmpResult) :
    Kept place s after := by
  unfold step at ran
  split at ran
  · exact setConstant_kept ran other
  · split at ran
    · split at ran
      · exact accumulateSamples_kept arithmetic ran other
      · obtain ⟨rows, evaluated, returned⟩ := bind_eq_some_iff.mp ran
        obtain rfl := Option.some.inj returned
        refine ⟨Fallible.map_of_mapM (fun row written ran => ?_) evaluated, rfl⟩
        exact evaluateSample_kept arithmetic ran other
    · cases ran

variable {code : List (ViewInstruction Value)}

theorem run_kept : ∀ {s after : Evaluation Value}, code.foldlM (step arithmetic) s = some after →
      (∀ vp ∈ code, place ≠ vp.tmpResult) → Kept place s after := by
  induction code with
  | nil =>
    intro s after ran others
    obtain rfl := Option.some.inj ran
    exact ⟨rfl, rfl⟩
  | cons vp rest ih =>
    intro s after ran others
    rw [List.foldlM_cons] at ran
    obtain ⟨middle, first, ran⟩ := bind_eq_some_iff.mp ran
    exact (step_kept arithmetic first (others vp List.mem_cons_self)).trans
      (ih ran fun other member => others other (List.mem_cons_of_mem _ member))

theorem step_length (ran : step arithmetic s vp = some after) : after.rows.length = s.rows.length := by
  unfold step at ran
  split at ran
  · obtain ⟨value, -, ran⟩ := bind_eq_some_iff.mp ran
    obtain ⟨rows, wrote, ran⟩ := bind_eq_some_iff.mp ran
    obtain ⟨totalValues, -, returned⟩ := bind_eq_some_iff.mp ran
    obtain rfl := Option.some.inj returned
    exact Fallible.length_of_mapM wrote
  · split at ran
    · split at ran
      · obtain ⟨values, -, ran⟩ := bind_eq_some_iff.mp ran
        obtain ⟨marks, -, ran⟩ := bind_eq_some_iff.mp ran
        obtain ⟨totalValues, -, returned⟩ := bind_eq_some_iff.mp ran
        obtain rfl := Option.some.inj returned
        rfl
      · obtain ⟨rows, evaluated, returned⟩ := bind_eq_some_iff.mp ran
        obtain rfl := Option.some.inj returned
        exact Fallible.length_of_mapM evaluated
    · cases ran

theorem run_length : ∀ {s after : Evaluation Value}, code.foldlM (step arithmetic) s = some after →
      after.rows.length = s.rows.length := by
  induction code with
  | nil =>
    intro s after ran
    rw [← Option.some.inj ran]
  | cons vp rest ih =>
    intro s after ran
    rw [List.foldlM_cons] at ran
    obtain ⟨middle, stepped, ran⟩ := bind_eq_some_iff.mp ran
    exact (ih ran).trans (step_length arithmetic stepped)

theorem step_last (ran : step arithmetic s vp = some after) : after.lastEvaluatedTemp = vp.tmpResult := by
  unfold step at ran
  split at ran
  · obtain ⟨value, -, ran⟩ := bind_eq_some_iff.mp ran
    obtain ⟨rows, -, ran⟩ := bind_eq_some_iff.mp ran
    obtain ⟨totalValues, -, returned⟩ := bind_eq_some_iff.mp ran
    rw [← Option.some.inj returned]
  · split at ran
    · split at ran
      · obtain ⟨values, -, ran⟩ := bind_eq_some_iff.mp ran
        obtain ⟨marks, -, ran⟩ := bind_eq_some_iff.mp ran
        obtain ⟨totalValues, -, returned⟩ := bind_eq_some_iff.mp ran
        rw [← Option.some.inj returned]
      · obtain ⟨rows, -, returned⟩ := bind_eq_some_iff.mp ran
        rw [← Option.some.inj returned]
    · cases ran

theorem run_last {bound : Int} :
    ∀ {s after : Evaluation Value}, code.foldlM (step arithmetic) s = some after →
      s.lastEvaluatedTemp ≤ bound → (∀ vp ∈ code, vp.tmpResult ≤ bound) →
      after.lastEvaluatedTemp ≤ bound := by
  induction code with
  | nil =>
    intro s after ran first others
    rwa [← Option.some.inj ran]
  | cons vp rest ih =>
    intro s after ran first others
    rw [List.foldlM_cons] at ran
    obtain ⟨middle, stepped, ran⟩ := bind_eq_some_iff.mp ran
    refine ih ran ?_ fun other member => others other (List.mem_cons_of_mem _ member)
    rw [step_last arithmetic stepped]
    exact others vp List.mem_cons_self

theorem foldl_le {Item : Type} {body : Int → Item → Int}
    (smaller : ∀ last item, body last item ≤ last) (items : List Item) :
    ∀ start : Int, items.foldl body start ≤ start := by
  induction items with
  | nil => exact Int.le_refl
  | cons item rest ih =>
    intro start
    exact Int.le_trans (ih (body start item)) (smaller start item)

variable {iv : List (ViewInstruction Value)}

theorem firstEvaluatedTemp_le (member : vp ∈ iv) (operator : vp.opCode = .expression) :
    firstEvaluatedTemp iv ≤ vp.tmpResult := by
  obtain ⟨before, behind, split⟩ := List.append_of_mem member
  rw [firstEvaluatedTemp, split, List.foldl_append, List.foldl_cons]
  refine Int.le_trans (foldl_le (fun last other => ?_) behind _) ?_
  · split <;> omega
  · split
    · exact Int.le_refl _
    · rename_i larger
      exact Int.not_lt.mp fun smaller => larger ⟨operator, smaller⟩

theorem accumulateSamples_total (ran : accumulateSamples arithmetic vp s = some after)
    (unset : CheckedVector.get s.totalValues vp.tmpResult = some none) :
    after.rows = s.rows ∧ (∀ found ∈ reads s.rows vp.tmpIndex1, found.isSome) ∧
      CheckedVector.get after.totalValues vp.tmpResult = some ((column s.rows vp.tmpIndex1).foldl
          (fun total value => arithmetic.calculateExpression vp.expressionOp total value none) none) := by
  obtain ⟨values, read, ran⟩ := bind_eq_some_iff.mp ran
  obtain ⟨marks, -, ran⟩ := bind_eq_some_iff.mp ran
  obtain ⟨totalValues, stored, returned⟩ := bind_eq_some_iff.mp ran
  obtain rfl := Option.some.inj returned
  have shown : values.map some = reads s.rows vp.tmpIndex1 :=
    Fallible.map_of_mapM (fun row value got => got.symm) read
  refine ⟨rfl, ?_, ?_⟩
  · rw [← shown]
    simp
  · rw [column_reads, ← shown, List.map_map]
    have plain : (values.map (Option.join ∘ some)) = values := List.map_id values
    rw [plain]
    exact storeTotal_same stored unset

theorem accumulateSamples_lower (ran : accumulateSamples arithmetic vp s = some after) : 0 ≤ vp.tmpResult := by
  obtain ⟨values, -, ran⟩ := bind_eq_some_iff.mp ran
  obtain ⟨marks, marked, -⟩ := bind_eq_some_iff.mp ran
  exact (bounds_of_get (get_written_same marked)).1

theorem step_accumulating (ran : step arithmetic s vp = some after) (accumulating : accumulates vp = true) :
    vp.tmpIndex1 ≤ s.lastEvaluatedTemp ∧ accumulateSamples arithmetic vp s = some after := by
  obtain ⟨operator, operation⟩ := of_decide_eq_true accumulating
  have plain : vp.setsConst = false := by simp [ViewInstruction.setsConst, operator]
  rw [step, plain, if_neg Bool.false_ne_true] at ran
  split at ran
  · rename_i passed
    exact ⟨passed.1, ran⟩
  · cases ran

variable {final : Evaluation Value} {rows : List (Row Value)}

theorem calculateTemporaryValues_length {totalValues : List (Option Value)}
    (ran : calculateTemporaryValues arithmetic iv rows totalValues = some final) :
    final.rows.length = rows.length := by
  rw [calculateTemporaryValues] at ran
  split at ran
  · cases ran
  · exact run_length arithmetic ran

theorem calculateTemporaryValues_total (list : InstructionList Value)
    (ran : calculateTemporaryValues arithmetic list.iv rows (newTotalValues list.iv) = some final)
    (member : vp ∈ list.iv) (accumulating : accumulates vp = true) :
    (∀ found ∈ reads final.rows vp.tmpIndex1, found.isSome) ∧
      CheckedVector.get final.totalValues vp.tmpResult = some ((column final.rows vp.tmpIndex1).foldl
          (fun total value => arithmetic.calculateExpression vp.expressionOp total value none) none) := by
  have operator : vp.opCode = .expression := (of_decide_eq_true accumulating).1
  rw [calculateTemporaryValues] at ran
  split at ran
  · cases ran
  have among : vp ∈ exprInst list.iv := List.mem_filter.mpr ⟨member, by simp [operator]⟩
  obtain ⟨before, behind, split⟩ := List.append_of_mem among
  have sorted := list.sorted
  rw [split, List.pairwise_append, List.pairwise_cons] at sorted
  obtain ⟨-, ⟨later, -⟩, earlier⟩ := sorted
  rw [split, List.foldlM_append] at ran
  obtain ⟨s, first, ran⟩ := bind_eq_some_iff.mp ran
  rw [List.foldlM_cons] at ran
  obtain ⟨after, stepped, rest⟩ := bind_eq_some_iff.mp ran
  obtain ⟨asserted, stepped⟩ := step_accumulating arithmetic stepped accumulating
  have lower := accumulateSamples_lower arithmetic stepped
  have upper : vp.tmpResult ≤ findMaxTemp list.iv := by
    rw [← maxTemp_expression operator]
    exact maxTemp_le_findMaxTemp member
  -- no earlier instruction has written the total
  have unset : CheckedVector.get s.totalValues vp.tmpResult = some none := by
    rw [(run_kept arithmetic first fun other other_ => by
      have := earlier other other_ vp List.mem_cons_self
      omega).total]
    rw [Evaluation.start, newTotalValues, CheckedVector.get, if_pos lower,
      List.getElem?_replicate, if_pos (by omega)]
  -- and no later one writes the operand
  have operand_le : vp.tmpIndex1 ≤ vp.tmpResult := by
    have bound := run_last arithmetic first
      (firstEvaluatedTemp_le member operator)
      fun other other_ => Int.le_of_lt (earlier other other_ vp List.mem_cons_self)
    omega
  have operandKept := run_kept arithmetic rest fun other other_ => by
    have := later other other_
    show vp.tmpIndex1 ≠ other.tmpResult
    omega
  have totalKept := run_kept arithmetic rest fun other other_ => by
    have := later other other_
    show vp.tmpResult ≠ other.tmpResult
    omega
  obtain ⟨still, present, total⟩ := accumulateSamples_total arithmetic stepped unset
  rw [totalKept.total, column_reads, operandKept.reads, still, ← column_reads]
  exact ⟨present, total⟩

end

theorem numbered_sorted {code : List (ViewInstruction Value)} :
    ∀ {last : Int}, Numbered last code → code.Pairwise fun vp other => vp.tmpResult < other.tmpResult := by
  induction code with
  | nil => exact fun _ => .nil
  | cons vp rest ih =>
    intro last numbered
    obtain ⟨number, _, others⟩ := numbered
    refine .cons (fun other member => ?_) (ih others)
    have bounds := others.between other member
    omega

def generated (arithmetic : Arithmetic Number Value) (view : View Value) (lastColumn : Int)
    (columns : List (ParseRange Number)) : InstructionList Value where
  iv := instructions arithmetic view lastColumn columns
  sorted := by
    rw [(instructions_spec arithmetic view lastColumn columns).1]
    exact numbered_sorted (viewCode_numbered arithmetic view columns)

section

variable (arithmetic : Arithmetic Number Value) (totals : Totals Value)

theorem inRows_of_reads {rows : List (Row Value)} {tmp : Int} (some_ : rows ≠ [])
    (present : ∀ found ∈ reads rows tmp, found.isSome) : InRows rows tmp := by
  cases rows with
  | nil => exact absurd rfl some_
  | cons first rest =>
    obtain ⟨value, read⟩ := Option.isSome_iff_exists.mp (present _ (List.mem_map_of_mem List.mem_cons_self))
    exact ⟨first, rfl, bounds_of_get read⟩

theorem foldOf_eq_iff {op : ExpressionOperation} (accumulating : canAccumulate op = true)
    (values : List (Option Value)) :
    values.foldl (fun total value => arithmetic.calculateExpression op total value none) none =
        foldOf arithmetic op values ↔ (op = .aMult →
        values.foldl arithmetic.calculateAMult none = values.foldl (product arithmetic) none) := by
  cases op <;> cases accumulating
  case aMult => exact ⟨fun same _ => same, fun same => same rfl⟩
  all_goals exact iff_of_true rfl nofun

/-- Whenever the view is put out, the totals of the accumulating expressions are the folds
of their operators exactly if each of these agrees with what is recorded for it last. -/
theorem genericMultiView_folds_iff (list : InstructionList Value) {rows finalRows : List (Row Value)}
    {totalValues : List (Option Value)} (some_ : rows ≠ [])
    (ran : genericMultiView arithmetic totals list.iv rows = some (finalRows, totalValues)) :
    FoldsTotals arithmetic list.iv finalRows totalValues ↔
      ∀ before vp behind, list.iv = before ++ vp :: behind → accumulates vp = true →
        Agrees arithmetic totals list.iv finalRows vp behind := by
  obtain ⟨final, evaluated, ran⟩ := Option.bind_eq_some_iff.mp ran
  -- every accumulating expression by itself
  suffices each : ∀ before vp behind, list.iv = before ++ vp :: behind → accumulates vp = true →
      (CheckedVector.get totalValues vp.tmpResult =
          some (foldOf arithmetic vp.expressionOp (column finalRows vp.tmpIndex1)) ↔
        Agrees arithmetic totals list.iv finalRows vp behind) by
    constructor
    · intro folds before vp behind split accumulating
      have member : vp ∈ list.iv := by rw [split]; simp
      exact (each before vp behind split accumulating).mp (folds vp member accumulating)
    · intro agrees vp member accumulating
      obtain ⟨before, behind, split⟩ := List.append_of_mem member
      exact (each before vp behind split accumulating).mpr (agrees before vp behind split accumulating)
  intro before vp behind split accumulating
  have member : vp ∈ list.iv := by rw [split]; simp
  obtain ⟨present, total⟩ :=
    calculateTemporaryValues_total arithmetic list evaluated member accumulating
  split at ran
  · rename_i percentages
    obtain ⟨cleared, -, ran⟩ := Option.bind_eq_some_iff.mp ran
    obtain ⟨recorded, calculated, returned⟩ := Option.bind_eq_some_iff.mp ran
    obtain ⟨rfl, rfl⟩ := Prod.mk.inj (Option.some.inj returned)
    have some_' : final.rows ≠ [] := by
      rw [← List.length_pos_iff, calculateTemporaryValues_length arithmetic evaluated]
      exact List.length_pos_iff.mpr some_
    rw [calculateTotals_get arithmetic totals calculated split accumulating
      (inRows_of_reads some_' present), Option.some.injEq, Agrees, if_neg (by omega)]
  · rename_i plain
    obtain ⟨rfl, rfl⟩ := Prod.mk.inj (Option.some.inj ran)
    rw [total, Option.some.injEq, Agrees, if_pos (by omega)]
    exact foldOf_eq_iff arithmetic (of_decide_eq_true accumulating).2 _

end

def plainTotals : Totals Int := ⟨fun _ => true, fun _ => none⟩

def percentOf (op : ExpressionOperation) : InstructionList Int :=
  generated integerResults timeView 1 [.expression .percent [metric "time", .expression op [metric "time"]]]

def samples : List (Row Int) :=
  [[some 3, none, none], [some 5, none, none]]

theorem genericMultiView_folds_iff_percentOfSum :
    FoldsTotals integerResults (percentOf .aAdd).iv samples [none, some 8, none] ↔
      ∀ before vp behind, (percentOf .aAdd).iv = before ++ vp :: behind →
        accumulates vp = true →
        Agrees integerResults plainTotals (percentOf .aAdd).iv samples vp behind :=
  genericMultiView_folds_iff integerResults plainTotals (percentOf .aAdd)
    (by decide : samples ≠ []) (by decide)

theorem minimum_and_product_summed :
    (genericMultiView integerResults plainTotals (percentOf .aMin).iv samples =
        some (samples, [none, some 8, none]) ∧
      ¬FoldsTotals integerResults (percentOf .aMin).iv samples [none, some 8, none]) ∧
    (genericMultiView integerResults plainTotals
          (generated integerResults timeView 1 [.expression .aMult [metric "time"]]).iv
          [[some 3, none], [some 5, none]] =
        some ([[some 3, none], [some 5, none]], [none, some 8]) ∧
      ¬FoldsTotals integerResults
        (generated integerResults timeView 1 [.expression .aMult [metric "time"]]).iv
        [[some 3, none], [some 5, none]] [none, some 8]) := by
  refine ⟨⟨by decide, fun folds => ?_⟩, by decide, fun folds => ?_⟩
  · have minimum := folds (.ofExpression .aMin 1 0 (-1) (-1)) (by decide) (by decide)
    exact absurd minimum (by decide)
  · have product := folds (.ofExpression .aMult 1 0 (-1) (-1)) (by decide) (by decide)
    exact absurd product (by decide)

end OpenSpeedShop.ExpressionTotals
