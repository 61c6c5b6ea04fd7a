import OpenSpeedShop.Cli.MetricExpressions

/-!
The evaluation of metric expressions. As long as nothing accumulates, an instruction computes a
temp of a row out of the same row, and the rows run side by side.
-/

namespace OpenSpeedShop.MetricExpressions

open CheckedVector (set_eq_some get_negative get_eq_some length_of_set set_past)
open Option (bind_eq_some_iff)

variable {Number Value : Type} (arithmetic : Arithmetic Number Value) (view : View Value)

def entry (row : Row Value) (tmp : Int) : Option Value :=
  (CheckedVector.get row tmp).join

def rowStep (row : Row Value) (vp : ViewInstruction Value) : Row Value :=
  row.set vp.tmpResult.toNat
    (if vp.setsConst then vp.constValue
    else arithmetic.calculateExpression vp.expressionOp (entry row vp.tmpIndex1)
      (entry row vp.tmpIndex2) (entry row vp.tmpIndex3))

def rowRun (row : Row Value) (code : List (ViewInstruction Value)) : Row Value :=
  code.foldl (rowStep arithmetic) row

theorem rowRun_append (row : Row Value) (first second : List (ViewInstruction Value)) :
    rowRun arithmetic row (first ++ second) = rowRun arithmetic (rowRun arithmetic row first) second
    := List.foldl_append

@[simp] theorem length_rowStep (row : Row Value) (vp : ViewInstruction Value) :
    (rowStep arithmetic row vp).length = row.length :=
  List.length_set

@[simp] theorem length_rowRun (code : List (ViewInstruction Value)) :
    ∀ row : Row Value, (rowRun arithmetic row code).length = row.length := by
  induction code with
  | nil => exact fun _ => rfl
  | cons vp rest ih =>
    intro row
    exact (ih (rowStep arithmetic row vp)).trans (length_rowStep arithmetic row vp)

variable {code : List (ViewInstruction Value)}

theorem rowRun_frame : ∀ {last : Int} (row : Row Value) {place : Int}, -1 ≤ last → Numbered last code →
      place ≤ last → CheckedVector.get (rowRun arithmetic row code) place = CheckedVector.get row place := by
  induction code with
  | nil =>
    intro last row place lower numbered below
    rfl
  | cons vp rest ih =>
    intro last row place lower numbered below
    obtain ⟨number, _, others⟩ := numbered
    have first : CheckedVector.get (rowStep arithmetic row vp) place = CheckedVector.get row place :=
      CheckedVector.get_write_other (by omega) (by omega)
    exact (ih (rowStep arithmetic row vp) (by omega) others (by omega)).trans first

theorem entry_rowStep (row : Row Value) (vp : ViewInstruction Value) (lower : 0 ≤ vp.tmpResult)
    (upper : vp.tmpResult < row.length) : entry (rowStep arithmetic row vp) vp.tmpResult =
      if vp.setsConst then vp.constValue
      else arithmetic.calculateExpression vp.expressionOp (entry row vp.tmpIndex1)
        (entry row vp.tmpIndex2) (entry row vp.tmpIndex3) := by
  rw [entry, rowStep, CheckedVector.get_write_same lower upper]
  rfl

theorem emit_value (samples : List (Row Value)) (source : Row Value) :
    (∀ (pr : ParseRange Number) (last : Int) (row : Row Value), view.lastPredefinedTemp ≤ last →
      (∀ tmp ≤ view.lastPredefinedTemp, CheckedVector.get row tmp = CheckedVector.get source tmp) →
      (∀ vp ∈ (emit arithmetic view last pr).1, vp.tmpResult < row.length) →
      accumulates view pr = false → available view pr = true →
      entry (rowRun arithmetic row (emit arithmetic view last pr).1)
        (emit arithmetic view last pr).2 = pr.value arithmetic view samples source) ∧
    ∀ (prs : List (ParseRange Number)) (last : Int) (row : Row Value), view.lastPredefinedTemp ≤ last →
      (∀ tmp ≤ view.lastPredefinedTemp, CheckedVector.get row tmp = CheckedVector.get source tmp) →
      (∀ vp ∈ (emitOperands arithmetic view last prs).1, vp.tmpResult < row.length) →
      anyAccumulates view prs = false → allAvailable view prs = true →
      ∀ i : Nat, entry (rowRun arithmetic row (emitOperands arithmetic view last prs).1)
        ((emitOperands arithmetic view last prs).2[i]?.getD (-1)) =
          (ParseRange.values arithmetic view samples prs source)[i]?.join := by
  have temps := view.temps
  refine ParseRange.induction ?range ?expression ?nil ?cons
  case range =>
    intro leaf last row lower agrees inside plain accepted
    rw [emit, leafCode] at inside ⊢
    rw [ParseRange.value, ParseRangeValue.value]
    rw [available] at accepted
    cases kind : leaf.startRange with
    | number num =>
      rw [kind] at inside
      have positive : 0 ≤ last + 1 := by omega
      exact entry_rowStep arithmetic row (.constant .setConstInt (last + 1) _) positive
        (inside _ List.mem_cons_self)
    | double val =>
      rw [kind] at inside
      have positive : 0 ≤ last + 1 := by omega
      exact entry_rowStep arithmetic row (.constant .setConstFloat (last + 1) _) positive
        (inside _ List.mem_cons_self)
    | string name =>
      rw [kind] at accepted
      obtain ⟨metric, member, same⟩ := metricTemp_known view (of_decide_eq_true accepted)
      have bounds := view.metric_temps metric member
      exact congrArg Option.join (agrees (view.metricTemp leaf.metricName) (by omega))
  case expression =>
    intro op operands ih last row lower agrees inside plain accepted
    rw [available, Bool.and_eq_true, Bool.not_eq_true'] at accepted
    have fine := ((emit_accepted arithmetic view).2 operands last (by omega)).mp accepted.2
    rw [accumulates, accepted.1, accepted.2] at plain
    simp only [Bool.not_false, Bool.true_and, Bool.and_true, Bool.or_eq_false_iff] at plain
    rw [emit] at inside ⊢
    simp only [accepted.1, fine, Bool.false_eq_true, if_false] at inside ⊢
    have places := ih last row lower agrees
      (fun vp member => inside vp (List.mem_append_left _ member)) plain.2 accepted.2
    have top := inside _ (List.mem_append_right _ (List.mem_singleton_self _))
    have positive : 0 ≤ last + ((emitOperands arithmetic view last operands).1.length : Int) + 1 := by
      omega
    have written := entry_rowStep arithmetic
      (rowRun arithmetic row (emitOperands arithmetic view last operands).1)
      (.ofExpression op _ _ _ _) positive (by rw [length_rowRun]; exact top)
    rw [rowRun_append, ParseRange.value, plain.1, if_neg (by simp)]
    refine written.trans ?_
    simp only [ViewInstruction.ofExpression, ViewInstruction.setsConst, reduceCtorEq, or_self,
      decide_false, Bool.false_eq_true, if_false, places]
  case nil =>
    intro last row lower agrees inside plain accepted i
    simp [emitOperands, ParseRange.values, entry, get_negative]
  case cons =>
    intro pr rest ihFirst ihRest last row lower agrees inside plain accepted i
    rw [anyAccumulates, Bool.or_eq_false_iff] at plain
    rw [allAvailable, Bool.and_eq_true] at accepted
    rw [emitOperands] at inside ⊢
    have numbered := (emit_numbered arithmetic view).1 pr last
    have others := (emit_numbered arithmetic view).2 rest (last + (emit arithmetic view last pr).1.length)
    have present := ((emit_accepted arithmetic view).1 pr last (by omega)).mp accepted.1
    have below := (((emit_reads arithmetic view).1 pr last).2 present).upper view numbered lower
    rw [rowRun_append]
    cases i with
    | zero =>
      have value := ihFirst last row lower agrees
        (fun vp member => inside vp (List.mem_append_left _ member)) plain.1 accepted.1
      have kept := congrArg Option.join (rowRun_frame arithmetic
        (rowRun arithmetic row (emit arithmetic view last pr).1) (by omega) others below)
      exact kept.trans value
    | succ i =>
      refine ihRest (last + (emit arithmetic view last pr).1.length)
        (rowRun arithmetic row (emit arithmetic view last pr).1) (by omega) ?_ ?_ plain.2
        accepted.2 i
      · intro tmp low
        rw [rowRun_frame arithmetic row (by omega) numbered (by omega), agrees tmp low]
      · intro vp member
        rw [length_rowRun]
        exact inside vp (List.mem_append_right _ member)

structure Ready (size last : Int) (s : Evaluation Value) : Prop where
  accumulated : ∃ count : Nat, s.tempIsAccumulated = List.replicate count false ∧ size ≤ count
  rows : ∀ row ∈ s.rows, size ≤ (row.length : Int)
  totals : size ≤ (s.totalValues.length : Int)
  evaluated : last ≤ s.lastEvaluatedTemp

variable {totalValues : List (Option Value)}

theorem operand_eq {count : Nat} {row : Row Value} {tmp : Int}
    (counted : tmp < count) (inside : tmp < row.length) :
    operand totalValues (List.replicate count false) row tmp = some (entry row tmp) := by
  unfold operand entry
  by_cases present : 0 ≤ tmp
  · obtain ⟨value, read⟩ := get_eq_some present inside
    have plain : CheckedVector.get (List.replicate count false) tmp = some false := by
      rw [CheckedVector.get, if_pos present, List.getElem?_replicate, if_pos (by omega)]
    rw [if_pos present, plain, read]
    rfl
  · rw [if_neg present, get_negative (by omega)]
    rfl

variable {vp : ViewInstruction Value}

theorem rowStep_expression {row : Row Value} (operator : vp.setsConst = false) : rowStep arithmetic row vp =
      row.set vp.tmpResult.toNat (arithmetic.calculateExpression vp.expressionOp
        (entry row vp.tmpIndex1) (entry row vp.tmpIndex2) (entry row vp.tmpIndex3)) := by
  rw [rowStep, if_neg (by simp [operator])]

variable {rows : List (Row Value)}

theorem scanRows_plain (totalValues : List (Option Value))
    {count : Nat} (operator : vp.setsConst = false) (plain : canAccumulate vp.expressionOp = false)
    (first : vp.tmpIndex1 < vp.tmpResult) (second : vp.tmpIndex2 < vp.tmpResult)
    (third : vp.tmpIndex3 < vp.tmpResult) (lower : 0 ≤ vp.tmpResult)
    (counted : vp.tmpResult < count) (inside : ∀ row ∈ rows, vp.tmpResult < (row.length : Int)) :
    scanRows arithmetic vp totalValues rows (List.replicate count false) none =
      some (rows.map (rowStep arithmetic · vp), List.replicate count false, none) := by
  induction rows with
  | nil => rfl
  | cons row rest ih =>
    have here := inside row List.mem_cons_self
    have others := ih fun other member => inside other (List.mem_cons_of_mem _ member)
    rw [scanRows, plain, if_neg (by simp), operand_eq (by omega) (by omega),
      operand_eq (by omega) (by omega), operand_eq (by omega) (by omega)]
    simp only [Option.bind_eq_bind, Option.bind_some, set_eq_some lower here, others,
      List.map_cons, rowStep_expression arithmetic operator]

variable {s : Evaluation Value}

theorem step_ready {size last : Int}
    (ready : Ready size last s) (lower : -1 ≤ last) (number : vp.tmpResult = last + 1)
    (plain : canAccumulate vp.expressionOp = false) (reads : ∀ tmp ∈ vp.operands, tmp ≤ last)
    (inside : vp.tmpResult < size) : ∃ next, Evaluation.step arithmetic s vp = some next ∧
      next.rows = s.rows.map (rowStep arithmetic · vp) ∧ Ready size (last + 1) next := by
  obtain ⟨⟨count, flags, counted⟩, rows, totals, evaluated⟩ := ready
  have positive : 0 ≤ vp.tmpResult := by omega
  have rowsAfter : ∀ row ∈ s.rows.map (rowStep arithmetic · vp), size ≤ (row.length : Int) := by
    intro row member
    obtain ⟨source, among, rfl⟩ := List.mem_map.mp member
    rw [length_rowStep]
    exact rows source among
  cases sets : vp.setsConst with
  | true =>
    have each : ∀ row ∈ s.rows, CheckedVector.set row vp.tmpResult vp.constValue =
        some (rowStep arithmetic row vp) := by
      intro row member
      have long := rows row member
      rw [set_eq_some positive (by omega), rowStep, sets, if_pos rfl]
    rw [Evaluation.step, sets, if_pos rfl, Fallible.mapM_eq_some each,
      set_eq_some positive (by omega)]
    refine ⟨_, rfl, rfl, ⟨count, flags, counted⟩, rowsAfter, ?_, ?_⟩
    · simpa using totals
    · exact Int.le_of_eq number.symm
  | false =>
    have below : ∀ tmp ∈ [vp.tmpIndex1, vp.tmpIndex2, vp.tmpIndex3], tmp ≤ last := by
      intro tmp member
      by_cases present : 0 ≤ tmp
      · exact reads tmp (List.mem_filter.mpr ⟨member, decide_eq_true present⟩)
      · omega
    have first := below vp.tmpIndex1 (by simp)
    have second := below vp.tmpIndex2 (by simp)
    have third := below vp.tmpIndex3 (by simp)
    have scanned := scanRows_plain arithmetic s.totalValues sets plain
      (by omega) (by omega) (by omega) positive (Int.lt_of_lt_of_le inside counted)
      fun row member => Int.lt_of_lt_of_le inside (rows row member)
    rw [Evaluation.step, sets, if_neg (by simp), if_pos ⟨by omega, by omega, by omega⟩, flags, scanned]
    refine ⟨_, rfl, rfl, ⟨count, rfl, counted⟩, rowsAfter, totals, ?_⟩
    exact Int.le_of_eq number.symm

theorem run_ready : ∀ {size last : Int} {s : Evaluation Value} {known : Int → Prop}, Ready size last s →
      -1 ≤ last → Numbered last code → ReadsDefined known code → (∀ tmp, known tmp → tmp ≤ last) →
      (∀ vp ∈ code, canAccumulate vp.expressionOp = false ∧ vp.tmpResult < size) →
      ∃ next, code.foldlM (Evaluation.step arithmetic) s = some next ∧
        next.rows = s.rows.map (rowRun arithmetic · code) := by
  induction code with
  | nil =>
    intro size last s known ready lower numbered reads below each
    exact ⟨s, rfl, (List.map_id s.rows).symm⟩
  | cons vp rest ih =>
    intro size last s known ready lower numbered reads below each
    obtain ⟨number, _, others⟩ := numbered
    obtain ⟨plain, inside⟩ := each vp List.mem_cons_self
    obtain ⟨next, stepped, rows, readyNext⟩ := step_ready arithmetic ready lower number plain
      (fun tmp member => below tmp (reads.1 tmp member)) inside
    obtain ⟨final, ran, finalRows⟩ := ih readyNext (by omega) others reads.2 (by
        intro tmp before
        obtain before | rfl := before
        · have low := below tmp before
          omega
        · omega)
      (fun other member => each other (List.mem_cons_of_mem _ member))
    refine ⟨final, ?_, ?_⟩
    · rw [List.foldlM_cons, stepped]
      exact ran
    · rw [finalRows, rows, List.map_map]
      rfl

theorem scanRows_length : ∀ {flags : List Bool} {total : Option Value} {result},
      scanRows arithmetic vp totalValues rows flags total = some result → result.1.length = rows.length := by
  induction rows with
  | nil =>
    intro flags total result ran
    obtain rfl := Option.some.inj ran
    rfl
  | cons row rest ih =>
    intro flags total result ran
    rw [scanRows] at ran
    split at ran
    · obtain ⟨value, _, ran⟩ := bind_eq_some_iff.mp ran
      obtain ⟨flags, _, ran⟩ := bind_eq_some_iff.mp ran
      obtain ⟨third, _, ran⟩ := bind_eq_some_iff.mp ran
      obtain ⟨others, scanned, ran⟩ := bind_eq_some_iff.mp ran
      obtain rfl := Option.some.inj ran
      exact congrArg Nat.succ (ih scanned)
    · obtain ⟨opr1, _, ran⟩ := bind_eq_some_iff.mp ran
      obtain ⟨opr2, _, ran⟩ := bind_eq_some_iff.mp ran
      obtain ⟨opr3, _, ran⟩ := bind_eq_some_iff.mp ran
      obtain ⟨written, _, ran⟩ := bind_eq_some_iff.mp ran
      obtain ⟨others, scanned, ran⟩ := bind_eq_some_iff.mp ran
      obtain rfl := Option.some.inj ran
      exact congrArg Nat.succ (ih scanned)

theorem step_sizes {s next : Evaluation Value} (stepped : Evaluation.step arithmetic s vp = some next) :
    next.rows.length = s.rows.length ∧ next.totalValues.length = s.totalValues.length := by
  unfold Evaluation.step at stepped
  split at stepped
  · obtain ⟨rows, wrote, stepped⟩ := bind_eq_some_iff.mp stepped
    obtain ⟨totals, set, stepped⟩ := bind_eq_some_iff.mp stepped
    obtain rfl := Option.some.inj stepped
    exact ⟨Fallible.length_of_mapM wrote, length_of_set set⟩
  · split at stepped
    · obtain ⟨⟨rows, flags, total⟩, scanned, stepped⟩ := bind_eq_some_iff.mp stepped
      obtain ⟨totals, set, stepped⟩ := bind_eq_some_iff.mp stepped
      obtain rfl := Option.some.inj stepped
      refine ⟨scanRows_length arithmetic scanned, ?_⟩
      cases total with
      | none =>
        obtain rfl := Option.some.inj set
        rfl
      | some value => exact length_of_set set
    · cases stepped

theorem step_accumulates (rows : s.rows ≠ []) (operator : vp.opCode = .expression)
    (accumulating : canAccumulate vp.expressionOp = true) (third : vp.tmpIndex3 = -1) :
    Evaluation.step arithmetic s vp = none := by
  obtain ⟨row, rest, split⟩ := List.exists_cons_of_ne_nil rows
  have sets : vp.setsConst = false := by simp [ViewInstruction.setsConst, operator]
  have scanned : scanRows arithmetic vp s.totalValues s.rows s.tempIsAccumulated none = none := by
    rw [split, scanRows, accumulating, if_pos rfl, third]
    simp [get_negative]
  rw [Evaluation.step, sets, if_neg (by simp), scanned]
  split
  · rfl
  · rfl

theorem step_past (sets : vp.setsConst = true)
    (past : s.totalValues.length ≤ vp.tmpResult) : Evaluation.step arithmetic s vp = none := by
  rw [Evaluation.step, sets, if_pos rfl, set_past past]
  simp

theorem columns_value (samples : List (Row Value)) (source : Row Value) (columns : List (ParseRange Number)) :
    ∀ (last : Int) (row : Row Value), view.lastPredefinedTemp ≤ last →
      (∀ tmp ≤ view.lastPredefinedTemp, CheckedVector.get row tmp = CheckedVector.get source tmp) →
      (∀ vp ∈ columnsCode arithmetic view last columns, vp.tmpResult < row.length) →
      columnsAccumulate view columns = false →
      ∀ mi result, (mi, result) ∈ columns.zip (columnResults arithmetic view last columns) →
        0 ≤ result → accumulates view (columnExpression mi).2 = false ∧
          available view (columnExpression mi).2 = true ∧
          entry (rowRun arithmetic row (columnsCode arithmetic view last columns)) result =
            (columnExpression mi).2.value arithmetic view samples source := by
  have temps := view.temps
  induction columns with
  | nil => simp
  | cons mi rest ih =>
    intro last row lower agrees inside plain
    rw [columnsAccumulate, List.any_cons, Bool.or_eq_false_iff] at plain
    rw [columnsCode] at inside
    rw [columnsCode, columnResults, List.zip_cons_cons, rowRun_append]
    have numbered := (emit_numbered arithmetic view).1 (columnExpression mi).2 last
    have others := columnsCode_numbered arithmetic view rest
      (last + (emit arithmetic view last (columnExpression mi).2).1.length)
    intro shown result member present
    cases member with
    | head =>
      have accepted := ((emit_accepted arithmetic view).1 (columnExpression mi).2 last (by omega)).mpr present
      have value := (emit_value arithmetic view samples source).1 (columnExpression mi).2 last
        row lower agrees (fun vp member => inside vp (List.mem_append_left _ member)) plain.1
        accepted
      have below := (((emit_reads arithmetic view).1 (columnExpression mi).2 last).2
        present).upper view numbered lower
      have kept := congrArg Option.join (rowRun_frame arithmetic
        (rowRun arithmetic row (emit arithmetic view last (columnExpression mi).2).1)
        (by omega) others below)
      exact ⟨plain.1, accepted, kept.trans value⟩
    | tail _ member =>
      refine ih (last + (emit arithmetic view last (columnExpression mi).2).1.length)
        (rowRun arithmetic row (emit arithmetic view last (columnExpression mi).2).1)
        (by omega) ?_ ?_ plain.2 shown result member present
      · intro tmp low
        rw [rowRun_frame arithmetic row (by omega) numbered (by omega), agrees tmp low]
      · intro vp member
        rw [length_rowRun]
        exact inside vp (List.mem_append_right _ member)

theorem results_counted (columns : List (ParseRange Number)) :
    ∀ g : Generation Value, view.lastPredefinedTemp ≤ g.lastUsedTemp → findMaxTemp g.iv ≤ g.lastUsedTemp →
      ∀ mi result, (mi, result) ∈ columns.zip (columnResults arithmetic view g.lastUsedTemp columns) →
        result ≤ findMaxTemp (generateColumns arithmetic view columns g).2.iv := by
  induction columns with
  | nil => simp
  | cons mi rest ih =>
    intro g lower bounded shownColumn result member
    have first := generateColumn_counts arithmetic view mi lower bounded
    have size := first.size
    have step : (generateColumns arithmetic view (mi :: rest) g).2 =
        (generateColumns arithmetic view rest (generateColumn arithmetic view mi g).2).2 := rfl
    rw [columnResults, List.zip_cons_cons] at member
    rw [step]
    cases member with
    | head =>
      have more := (generateColumns_counts arithmetic view rest
        (generateColumn arithmetic view mi g).2 (by omega) first.bounded).grows
      have shows : (emit arithmetic view g.lastUsedTemp (columnExpression mi).2).2 ≤
          findMaxTemp (generateColumn arithmetic view mi g).2.iv := by
        rw [(generateColumn_emits arithmetic view mi g).2.1, findMaxTemp_append, findMaxTemp_shown]
        omega
      exact Int.le_trans shows more
    | tail _ member =>
      rw [← size] at member
      exact ih _ (by omega) first.bounded shownColumn result member

variable {iv : List (ViewInstruction Value)}

theorem firstEvaluatedTemp_lower {bound : Int} (size : bound ≤ numTempsUsed iv)
    (each : ∀ vp ∈ iv, vp.opCode = .expression → bound ≤ vp.tmpResult) : bound ≤ firstEvaluatedTemp iv := by
  have loop : ∀ (some_ : List (ViewInstruction Value)) (last : Int), bound ≤ last →
      (∀ vp ∈ some_, vp.opCode = .expression → bound ≤ vp.tmpResult) →
      bound ≤ some_.foldl (fun last vp =>
        if vp.opCode = .expression ∧ vp.tmpResult < last then vp.tmpResult else last) last := by
    intro some_
    induction some_ with
    | nil => exact fun last low _ => low
    | cons vp rest ih =>
      intro last low all
      refine ih _ ?_ fun other member => all other (List.mem_cons_of_mem _ member)
      dsimp only
      split
      · rename_i smaller
        exact all vp List.mem_cons_self smaller.1
      · exact low
  exact loop iv _ size each

theorem Numbered.last_result :
    ∀ {last : Int}, Numbered last code → code ≠ [] → ∃ vp ∈ code, vp.tmpResult = last + code.length := by
  induction code with
  | nil => exact fun _ no => absurd rfl no
  | cons vp rest ih =>
    intro last numbered _
    obtain ⟨number, _, others⟩ := numbered
    by_cases empty : rest = []
    · subst empty
      exact ⟨vp, List.mem_cons_self, number⟩
    · obtain ⟨top, member, equal⟩ := ih others empty
      refine ⟨top, List.mem_cons_of_mem _ member, ?_⟩
      rw [equal, List.length_cons]
      omega

def ParseRange.isAccumulated : ParseRange Number → Bool
  | .range _ => false
  | .expression op _ => canAccumulate op

def instructions (lastColumn : Int) (columns : List (ParseRange Number)) : List (ViewInstruction Value) :=
  (generateColumns arithmetic view columns (view.start lastColumn)).2.iv

/-- An accepted column has the values of its tree: in the rows, or in `Total_Values`
when the tree accumulates. -/
def ColumnHolds (samples : List (Row Value)) (pr : ParseRange Number) (result : Int)
    (final : Evaluation Value) : Prop :=
  List.Forall₂ (fun row after =>
    CheckedVector.get (if pr.isAccumulated then final.totalValues else after) result =
      some (pr.value arithmetic view samples row)) samples final.rows

/-- The instructions read only what is defined, run inside the bounds that `Find_Max_Temp`
gives, and leave the values of the accepted columns. -/
def ExecutesFaithfully (lastColumn : Int) (columns : List (ParseRange Number))
    (rows : List (Row Value)) : Prop :=
  let iv := instructions arithmetic view lastColumn columns
  let results := (generateColumns arithmetic view columns (view.start lastColumn)).1
  ReadsDefined view.IsMetricTemp (exprInst iv) ∧
    ∃ final, calculateTemporaryValues arithmetic iv rows (newTotalValues iv) = some final ∧
      ∀ mi result, (mi, result) ∈ columns.zip results → 0 ≤ result →
        ColumnHolds arithmetic view rows (columnExpression mi).2 result final

def viewCode (columns : List (ParseRange Number)) : List (ViewInstruction Value) :=
  columnsCode arithmetic view view.lastPredefinedTemp columns

theorem predefined_bounded (lastColumn : Int) :
    findMaxTemp (view.start lastColumn).iv ≤ view.lastPredefinedTemp :=
  findMaxTemp_le view.temps fun vp member => (view.predefined_temps vp member).2.2

theorem not_isAccumulated {pr : ParseRange Number} (plain : accumulates view pr = false)
    (accepted : available view pr = true) : pr.isAccumulated = false := by
  cases pr with
  | range leaf => rfl
  | expression op operands =>
    rw [available, Bool.and_eq_true] at accepted
    rw [accumulates, accepted.1, accepted.2] at plain
    simp only [Bool.true_and, Bool.and_true, Bool.or_eq_false_iff] at plain
    exact plain.1

theorem instructions_spec (lastColumn : Int) (columns : List (ParseRange Number)) :
    exprInst (instructions arithmetic view lastColumn columns) = viewCode arithmetic view columns ∧
      (generateColumns arithmetic view columns (view.start lastColumn)).1 =
        columnResults arithmetic view view.lastPredefinedTemp columns ∧
      ColumnCounts view (view.start lastColumn) (viewCode arithmetic view columns)
        (lastColumnTemp view columns)
        (generateColumns arithmetic view columns (view.start lastColumn)).2 := by
  obtain ⟨results, code, _⟩ := generateColumns_emits arithmetic view columns (view.start lastColumn)
  have predefined : exprInst (view.start lastColumn).iv = [] := by
    refine List.filter_eq_nil_iff.mpr fun vp member => ?_
    obtain ⟨operator, sets, _⟩ := view.predefined_temps vp member
    simp [operator, sets]
  rw [predefined, List.nil_append] at code
  exact ⟨code, results, generateColumns_counts arithmetic view columns (view.start lastColumn)
    (Int.le_refl _) (predefined_bounded view lastColumn)⟩

theorem viewCode_numbered (columns : List (ParseRange Number)) :
    Numbered view.lastPredefinedTemp (viewCode arithmetic view columns) :=
  columnsCode_numbered arithmetic view columns view.lastPredefinedTemp

variable {columns : List (ParseRange Number)}

theorem viewCode_inside (lastColumn : Int) (counted : lastColumnTemp view columns ≠ some .uncounted) :
    ∀ vp ∈ viewCode arithmetic view columns,
      vp.tmpResult ≤ findMaxTemp (instructions arithmetic view lastColumn columns) := by
  intro vp member
  have counts := (instructions_spec arithmetic view lastColumn columns).2.2
  have below := ((viewCode_numbered arithmetic view columns).between vp member).2
  cases kind : lastColumnTemp view columns with
  | none => simp [(counts.nothing kind).1] at member
  | some which =>
    cases which with
    | uncounted => exact absurd kind counted
    | counted =>
      have equal := (counts.counted kind).2
      exact Int.le_trans below (Int.le_of_eq (counts.size.symm.trans equal.symm))

theorem viewCode_length (lastColumn : Int) (counted : lastColumnTemp view columns ≠ some .uncounted) :
    viewCode arithmetic view columns = [] ∨
      view.lastPredefinedTemp + ((viewCode arithmetic view columns).length : Int) ≤
        findMaxTemp (instructions arithmetic view lastColumn columns) := by
  by_cases empty : viewCode arithmetic view columns = []
  · exact .inl empty
  · obtain ⟨vp, member, equal⟩ := (viewCode_numbered arithmetic view columns).last_result empty
    exact .inr (by rw [← equal]; exact viewCode_inside arithmetic view lastColumn counted vp member)

variable {lastColumn : Int}

theorem start_ready (sizes : ∀ row ∈ rows,
      (row.length : Int) = numTempsUsed (instructions arithmetic view lastColumn columns))
    (below : view.lastPredefinedTemp ≤ findMaxTemp (instructions arithmetic view lastColumn columns)) :
    Ready (findMaxTemp (instructions arithmetic view lastColumn columns) + 1) view.lastPredefinedTemp
      (Evaluation.start (instructions arithmetic view lastColumn columns) rows
        (newTotalValues (instructions arithmetic view lastColumn columns))) := by
  have most := findMaxTemp_lower (instructions arithmetic view lastColumn columns)
  refine ⟨⟨_, rfl, ?_⟩, ?_, ?_, firstEvaluatedTemp_lower ?_ ?_⟩
  · rw [numTempsUsed]
    omega
  · intro row member
    have size := sizes row member
    rw [numTempsUsed] at size
    omega
  · rw [Evaluation.start, newTotalValues, List.length_replicate]
    omega
  · rw [numTempsUsed]
    omega
  · intro vp member operator
    have among : vp ∈ exprInst (instructions arithmetic view lastColumn columns) :=
      List.mem_filter.mpr ⟨member, by simp [operator]⟩
    rw [(instructions_spec arithmetic view lastColumn columns).1] at among
    have bounds := (viewCode_numbered arithmetic view columns).between vp among
    omega

section

variable (some_ : rows ≠ [])
  (sizes : ∀ row ∈ rows, (row.length : Int) = numTempsUsed (instructions arithmetic view lastColumn columns))
  (plain : columnsAccumulate view columns = false)
  (counted : lastColumnTemp view columns ≠ some .uncounted)
include some_ sizes plain counted

theorem calculateTemporaryValues_rows :
    ∃ final, calculateTemporaryValues arithmetic (instructions arithmetic view lastColumn columns)
        rows (newTotalValues (instructions arithmetic view lastColumn columns)) = some final ∧
      final.rows = rows.map (rowRun arithmetic · (viewCode arithmetic view columns)) := by
  have temps := view.temps
  have code := (instructions_spec arithmetic view lastColumn columns).1
  have most := findMaxTemp_lower (instructions arithmetic view lastColumn columns)
  rw [calculateTemporaryValues, if_neg, if_neg some_, code]
  · obtain empty | top := viewCode_length arithmetic view lastColumn counted
    · rw [empty]
      exact ⟨_, rfl, (List.map_id rows).symm⟩
    · refine run_ready arithmetic (start_ready arithmetic view sizes (by omega)) temps
        (viewCode_numbered arithmetic view columns)
        (columnsCode_reads arithmetic view columns view.lastPredefinedTemp) ?_ ?_
      · rintro tmp ⟨metric, member, rfl⟩
        exact (view.metric_temps metric member).2
      · intro vp member
        have low := viewCode_inside arithmetic view lastColumn counted vp member
        refine ⟨?_, by omega⟩
        cases which : canAccumulate vp.expressionOp with
        | false => rfl
        | true =>
          rw [(columnsCode_accumulates arithmetic view columns view.lastPredefinedTemp temps).mpr
            ⟨vp, member, which⟩] at plain
          cases plain
  · rw [code, numTempsUsed, vMultiTimeTemp]
    obtain empty | top := viewCode_length arithmetic view lastColumn counted
    · rw [empty, List.length_nil]
      omega
    · omega

theorem executesFaithfully_of_counted : ExecutesFaithfully arithmetic view lastColumn columns rows := by
  obtain ⟨code, results, _⟩ := instructions_spec arithmetic view lastColumn columns
  obtain ⟨final, ran, finalRows⟩ :=
    calculateTemporaryValues_rows arithmetic view some_ sizes plain counted
  refine ⟨?_, final, ran, ?_⟩
  · rw [code]
    exact columnsCode_reads arithmetic view columns view.lastPredefinedTemp
  · intro mi result member present
    rw [results] at member
    rw [ColumnHolds, finalRows, List.forall₂_map_right_iff, List.forall₂_same]
    intro row among
    have size := sizes row among
    rw [numTempsUsed] at size
    have inside : ∀ vp ∈ viewCode arithmetic view columns, vp.tmpResult < row.length := by
      intro vp emitted
      have low := viewCode_inside arithmetic view lastColumn counted vp emitted
      omega
    obtain ⟨quiet, accepted, value⟩ := columns_value arithmetic view rows row columns
      view.lastPredefinedTemp row (Int.le_refl _) (fun _ _ => rfl) inside plain mi result member
      present
    have low : result ≤ findMaxTemp (instructions arithmetic view lastColumn columns) :=
      results_counted arithmetic view columns (view.start lastColumn) (Int.le_refl _)
        (predefined_bounded view lastColumn) mi result member
    have long : result < (rowRun arithmetic row (viewCode arithmetic view columns)).length := by
      rw [length_rowRun]
      omega
    obtain ⟨found, read⟩ := get_eq_some present long
    rw [not_isAccumulated view quiet accepted, if_neg (by simp), read, ← value, entry]
    exact congrArg some (congrArg Option.join read).symm

end

theorem calculateTemporaryValues_stuck
    (some_ : rows ≠ []) (member : vp ∈ exprInst iv) (stuck : ∀ s : Evaluation Value, s.rows ≠ [] →
      s.totalValues.length = (newTotalValues iv).length → Evaluation.step arithmetic s vp = none) :
    calculateTemporaryValues arithmetic iv rows (newTotalValues iv) = none := by
  rw [calculateTemporaryValues]
  split
  · rfl
  · have good : ∀ (s : Evaluation Value) other next, (s.rows ≠ [] ∧
        s.totalValues.length = (newTotalValues iv).length) →
        Evaluation.step arithmetic s other = some next →
        next.rows ≠ [] ∧ next.totalValues.length = (newTotalValues iv).length := by
      intro s other next fine stepped
      obtain ⟨rowCount, totalCount⟩ := step_sizes arithmetic stepped
      refine ⟨?_, totalCount.trans fine.2⟩
      rw [← List.length_pos_iff, rowCount, List.length_pos_iff]
      exact fine.1
    exact Fallible.foldlM_stuck member good (fun s fine => stuck s fine.1 fine.2) _ ⟨some_, rfl⟩

/-- The instructions of metric expressions run as the expressions say exactly when no
operator accumulates and the last temp is not a constant of a rejected expression. -/
theorem executesFaithfully_iff {lastColumn : Int} {columns : List (ParseRange Number)}
    {rows : List (Row Value)}
    (formed : ∀ mi ∈ columns, wellFormed (columnExpression mi).2 = true) (some_ : rows ≠ [])
    (sizes : ∀ row ∈ rows,
      (row.length : Int) = numTempsUsed (instructions arithmetic view lastColumn columns)) :
    ExecutesFaithfully arithmetic view lastColumn columns rows ↔
      columnsAccumulate view columns = false ∧ lastColumnTemp view columns ≠ some .uncounted := by
  obtain ⟨code, _, counts⟩ := instructions_spec arithmetic view lastColumn columns
  constructor
  · rintro ⟨_, final, ran, _⟩
    refine ⟨?_, fun uncounted => ?_⟩
    · refine Bool.eq_false_iff.mpr fun accumulating => ?_
      obtain ⟨vp, member, which⟩ := (columnsCode_accumulates arithmetic view columns
        view.lastPredefinedTemp view.temps).mp accumulating
      obtain ⟨operator, third⟩ := columnsCode_third arithmetic view formed
        view.lastPredefinedTemp vp member which
      rw [calculateTemporaryValues_stuck arithmetic some_ (by rw [code]; exact member)
        fun s present _ => step_accumulates arithmetic present operator which third] at ran
      cases ran
    · obtain ⟨nonempty, below⟩ := counts.uncounted uncounted
      have numbered := viewCode_numbered arithmetic view columns
      obtain ⟨vp, member, top⟩ := numbered.last_result nonempty
      have past : findMaxTemp (instructions arithmetic view lastColumn columns) < vp.tmpResult := by
        rw [top]
        exact Int.lt_of_lt_of_le below (Int.le_of_eq counts.size)
      have among : vp ∈ exprInst (instructions arithmetic view lastColumn columns) := by
        rw [code]
        exact member
      obtain operator | sets := numbered.kind vp member
      · have counted := maxTemp_le_findMaxTemp (List.mem_of_mem_filter among)
        rw [maxTemp_expression operator] at counted
        omega
      · have lower := findMaxTemp_lower (instructions arithmetic view lastColumn columns)
        rw [calculateTemporaryValues_stuck arithmetic some_ among fun s _ totals =>
          step_past arithmetic sets (by
            rw [totals, newTotalValues, List.length_replicate]
            omega)] at ran
        cases ran
  · rintro ⟨plain, counted⟩
    exact executesFaithfully_of_counted arithmetic view some_ sizes plain counted

def onResults (operator : Int → Int → Int) : Option Int → Option Int → Option Int
  | none, b => b
  | some a, none => some a
  | some a, some b => some (operator a b)

def integerResults : Arithmetic Int Int where
  ofInt num := num
  ofFloat val := val
  sameType _ _ := true
  accumulateValue := (· + ·)
  accumulateMin := min
  accumulateMax := max
  calculateUminus := Option.map (-·)
  calculateAbs := Option.map fun a => if 0 ≤ a then a else -a
  calculateAdd := onResults (· + ·)
  calculateSub := onResults (· - ·)
  calculateMult := onResults (· * ·)
  calculateDiv := onResults Int.tdiv
  calculateMod := onResults Int.tmod
  calculateMin := onResults min
  calculateMax := onResults max
  calculateSqrt _ := none
  calculateStdDev _ _ _ := none
  calculatePercent _ _ := none
  calculateCondexp _ _ _ := none
  convertToUint := id
  convertToInt := id
  convertToFloat := id
  calculateRatio _ _ := none

def timeView : View Int where
  name := "pcsamp"
  predefined := [.displayTmp 0 0]
  lastPredefinedTemp := 0
  metricMap := [("time", 0)]
  predefined_temps := by decide
  metric_temps := by decide
  temps := by decide

def metric (name : String) : ParseRange Int :=
  .range ⟨.string name, .string "", false⟩

def numeral (num : Int) : ParseRange Int :=
  .range ⟨.number num, .string "", false⟩

theorem executesFaithfully_iff_timeView :
    ExecutesFaithfully integerResults timeView 1
        [.expression .sub [.expression .mult [metric "Time", numeral 100], numeral 1],
          .expression .abs [metric "misses"]]
        [[some 3, none, none, none, none], [some 5, none, none, none, none]] ↔
      columnsAccumulate timeView
          [.expression .sub [.expression .mult [metric "Time", numeral 100], numeral 1],
            .expression .abs [metric "misses"]] = false ∧
        lastColumnTemp timeView
          [.expression .sub [.expression .mult [metric "Time", numeral 100], numeral 1],
            .expression .abs [metric "misses"]] ≠ some .uncounted :=
  executesFaithfully_iff integerResults timeView (by decide) (by decide) (by decide)

theorem accumulation_and_constant_outside :
    ¬ExecutesFaithfully integerResults timeView 1 [.expression .aAdd [metric "time"]] [[some 3, none]] ∧
      ¬ExecutesFaithfully integerResults timeView 1
        [.expression .add [metric "misses", numeral 5], .expression .abs [metric "misses"]]
        [[some 3, none]] := by
  constructor
  · rintro ⟨_, final, ran, _⟩
    have stuck : calculateTemporaryValues integerResults
        (instructions integerResults timeView 1 [.expression .aAdd [metric "time"]])
        [[some 3, none]] (newTotalValues
          (instructions integerResults timeView 1 [.expression .aAdd [metric "time"]])) = none := by
      decide
    rw [stuck] at ran
    cases ran
  · rintro ⟨_, final, ran, _⟩
    have stuck : calculateTemporaryValues integerResults
        (instructions integerResults timeView 1
          [.expression .add [metric "misses", numeral 5], .expression .abs [metric "misses"]])
        [[some 3, none]] (newTotalValues (instructions integerResults timeView 1
          [.expression .add [metric "misses", numeral 5], .expression .abs [metric "misses"]]))
        = none := by
      decide
    rw [stuck] at ran
    cases ran

end OpenSpeedShop.MetricExpressions
