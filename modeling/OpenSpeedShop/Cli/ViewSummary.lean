import OpenSpeedShop.Cli.MetricExpressions
import OpenSpeedShop.Cli.ViewTables
import OpenSpeedShop.Library.PlacewiseRun
import Mathlib.Data.List.ReduceOption

/-!
The summary of a view against the sum, minimum or maximum of each temp. It starts with the first row's
values, missing ones included; a column puts the total into a row without a value.
-/

namespace OpenSpeedShop.ViewOutput

open MetricExpressions
open CheckedVector (valueAt get_eq_some)
open List (foldlM_cons map_map mem_cons map_cons replicate mapM_cons not_mem_nil)
open Option (bind_eq_some_iff bind_some join_some bind_eq_bind)

variable {Number Value : Type}

def summaryInst (iv : List (ViewInstruction Value)) (tmp : Int) : Option (ViewInstruction Value) :=
  (iv.filter fun vp => (vp.opCode = .add ∨ vp.opCode = .min ∨ vp.opCode = .max ∨
    vp.opCode = .summaryMax) ∧ vp.tmpIndex1 = tmp).getLast?

def recordsFor (tmp : Int) (vp : ViewInstruction Value) : Bool :=
  ((vp.opCode = .add ∨ vp.opCode = .min ∨ vp.opCode = .max) ∧ vp.tmpIndex1 = tmp) ∨
    (vp.opCode = .expression ∧ Tables.summarizes vp.expressionOp = true ∧ vp.tmpResult = tmp)

def recorder (iv : List (ViewInstruction Value)) (tmp : Int) : Option (ViewInstruction Value) :=
  (iv.filter (recordsFor tmp)).getLast?

def combine (operation : Value → Value → Value) (values : List (Option Value)) : Option Value :=
  match values.reduceOption with
  | [] => none
  | value :: rest => some (rest.foldl operation value)

section

variable (results : Results Number Value)

def operationOf (opCode : ViewOpCode) : Value → Value → Value :=
  match opCode with
  | .add => results.accumulateValue
  | .min => results.accumulateMin
  | _ => results.accumulateMax

/-- What the recorded instruction makes of the values that the rows have after they have been
placed, when the total of the temp is given. -/
def recordedSummary (vp : ViewInstruction Value) (total : Option Value) : List (Option Value) → Option Value
  | [] => none
  | first :: rest =>
    if vp.opCode = .expression then
      rest.foldl (fun A B =>
        results.calculateExpression (summaryOperation vp.expressionOp) A B none)
        (if canAccumulate vp.expressionOp then first.or total else first)
    else combine (operationOf results vp.opCode) (first :: rest)

end

section

variable (results : Results Number Value) (totalValue : List (Option Value)) (percentColumn : Int)

def showsTemp (tmp : Int) (vp : ViewInstruction Value) : Bool :=
  vp.opCode = .displayTmp ∧ vp.tmpIndex1 = tmp

def fill (totalValue : List (Option Value)) (columns : List (Option (ViewInstruction Value)))
    (tmp : Int) : Option Value :=
  if columns.any (·.any (showsTemp tmp)) then (CheckedVector.get totalValue tmp).join else none

theorem nextMetricValue_temps {s after : RowState Value} {i : Nat} {vinst : ViewInstruction Value}
    {value : Option Value}
    (ran : nextMetricValue results totalValue percentColumn s i vinst = some (value, after)) (tmp : Int) :
    CheckedVector.get after.temps tmp =
      (CheckedVector.get s.temps tmp).map (Option.or · (fill totalValue [some vinst] tmp)) := by
  have still : showsTemp tmp vinst = false →
      (CheckedVector.get s.temps tmp).map (Option.or · (fill totalValue [some vinst] tmp)) =
        CheckedVector.get s.temps tmp := by
    intro other
    simp [fill, other]
  by_cases opCode : vinst.opCode = .displayTmp
  · obtain ⟨found, read, left⟩ :=
      nextMetricValue_displayTmp results totalValue percentColumn ran opCode
    by_cases same : vinst.tmpIndex1 = tmp
    · have filled : fill totalValue [some vinst] tmp = (CheckedVector.get totalValue tmp).join := by
        simp [fill, showsTemp, opCode, same]
      rw [same] at read left
      rw [filled, read]
      cases found with
      | some value =>
        obtain ⟨inputTempUsed, rfl⟩ := left
        exact read
      | none =>
        obtain ⟨total, given, left⟩ := left
        rw [given]
        cases total with
        | none =>
          obtain rfl := left
          exact read
        | some total =>
          obtain ⟨temps, wrote, rfl⟩ := left
          exact CheckedVector.get_written_same wrote
    · rw [still (by simp [showsTemp, same])]
      cases found with
      | some value =>
        obtain ⟨inputTempUsed, rfl⟩ := left
        rfl
      | none =>
        obtain ⟨total, -, left⟩ := left
        cases total with
        | none => rw [show after = s from left]
        | some total =>
          obtain ⟨temps, wrote, rfl⟩ := left
          exact CheckedVector.get_written_other wrote (Ne.symm same)
  · rw [still (by simp [showsTemp, opCode])]
    obtain ⟨inputTempUsed, rfl⟩ :=
      nextMetricValue_other results totalValue percentColumn ran opCode
    rfl

theorem fill_cons (inst : Option (ViewInstruction Value))
    (rest : List (Option (ViewInstruction Value))) (tmp : Int) :
    fill totalValue (inst :: rest) tmp = (fill totalValue [inst] tmp).or (fill totalValue rest tmp) := by
  rw [fill, fill, fill, List.any_cons, List.any_cons, List.any_nil, Bool.or_false]
  cases inst.any (showsTemp tmp) <;> cases rest.any (·.any (showsTemp tmp)) <;> simp

variable {columns : List (Option (ViewInstruction Value) × Nat)}

theorem placeAll_temps (tmp : Int) : ∀ {s after : RowState Value},
      columns.foldlM (placeColumn results totalValue percentColumn) s = some after →
      CheckedVector.get after.temps tmp = (CheckedVector.get s.temps tmp).map
        (Option.or · (fill totalValue (columns.map Prod.fst) tmp)) := by
  induction columns with
  | nil =>
    intro s after ran
    obtain rfl := Option.some.inj ran
    simp [fill]
  | cons column rest ih =>
    intro s after ran
    rw [foldlM_cons] at ran
    obtain ⟨middle, placed, ran⟩ := bind_eq_some_iff.mp ran
    obtain ⟨vinst, pointer, placed⟩ := bind_eq_some_iff.mp placed
    obtain ⟨⟨next, valued⟩, found, returned⟩ := bind_eq_some_iff.mp placed
    obtain rfl := Option.some.inj returned
    have here := nextMetricValue_temps results totalValue percentColumn found tmp
    rw [ih ran, map_cons, pointer, fill_cons]
    dsimp only
    rw [here, Option.map_map]
    congr 1
    funext value
    exact Option.or_assoc

theorem placeColumns_temps {viewInst : List (Option (ViewInstruction Value))} {temps : Nat}
    {row : Row Value} {placed : RowState Value}
    (ran : placeColumns results totalValue percentColumn viewInst temps row = some placed) (tmp : Int) :
    CheckedVector.get placed.temps tmp =
      (CheckedVector.get row tmp).map (Option.or · (fill totalValue viewInst tmp)) := by
  have all := placeAll_temps results totalValue percentColumn tmp ran
  rwa [List.zipIdx_map_fst] at all

theorem placeAll_reads {sinst : ViewInstruction Value} (shows : sinst.opCode = .displayTmp) :
    ∀ {s after : RowState Value},
      columns.foldlM (placeColumn results totalValue percentColumn) s = some after →
      some sinst ∈ columns.map Prod.fst → (CheckedVector.get s.temps sinst.tmpIndex1).isSome := by
  induction columns with
  | nil => exact fun _ member => absurd member not_mem_nil
  | cons column rest ih =>
    intro s after ran member
    rw [foldlM_cons] at ran
    obtain ⟨middle, placed, ran⟩ := bind_eq_some_iff.mp ran
    obtain ⟨vinst, pointer, placed⟩ := bind_eq_some_iff.mp placed
    obtain ⟨⟨next, valued⟩, found, returned⟩ := bind_eq_some_iff.mp placed
    obtain rfl := Option.some.inj returned
    rw [map_cons, pointer] at member
    rcases mem_cons.mp member with same | later
    · obtain rfl := Option.some.inj same
      obtain ⟨value, read, -⟩ :=
        nextMetricValue_displayTmp results totalValue percentColumn found shows
      rw [read]
      rfl
    · have read := ih ran later
      dsimp only at read
      rwa [nextMetricValue_temps results totalValue percentColumn found, Option.isSome_map] at read

end

section

variable (results : Results Number Value) (totalValue : List (Option Value)) (percentColumn : Int)
  (tables : Tables Value)

def placeRun (inst : Option (ViewInstruction Value)) (i : Nat) : List (Row Value) → Option (Option Value)
  | [] => some none
  | first :: rest => do
      let start ← firstSummary totalValue first (inst, i)
      rest.foldlM (fun A B => accumulateTemp results B inst i A) start

def placeItem (item : Item Value) : Option (RowState Value) :=
  placeColumns results totalValue percentColumn tables.viewInst tables.accumulateInst.length item.temps

variable {items : List (Item Value)}

theorem loop_rest (requested : tables.columnSummary = true) :
    ∀ {placed : List (RowState Value)} {s : LoopState Value}, s.atFirst = false →
      items.mapM (placeItem results totalValue percentColumn tables) = some placed →
      (items.foldlM (showItem results totalValue percentColumn tables) s).map (·.summaryTemp) =
        (placed.map (·.temps)).foldlM
          (accumulatePreDefinedTemps results tables.accumulateInst) s.summaryTemp := by
  induction items with
  | nil =>
    intro placed s later ran
    obtain rfl := Option.some.inj ran
    rfl
  | cons item rest ih =>
    intro placed s later ran
    rw [mapM_cons] at ran
    obtain ⟨row, place, ran⟩ := bind_eq_some_iff.mp ran
    obtain ⟨others, more, returned⟩ := bind_eq_some_iff.mp ran
    obtain rfl := Option.some.inj returned
    have here : placeColumns results totalValue percentColumn tables.viewInst
      tables.accumulateInst.length item.temps = some row := place
    rw [foldlM_cons, map_cons, foldlM_cons, showItem, here]
    simp only [bind_eq_bind, bind_some, accumulateRow, requested, later,
      Bool.true_eq_false, Bool.false_eq_true, if_false]
    cases accumulatePreDefinedTemps results tables.accumulateInst s.summaryTemp row.temps with
    | none => rfl
    | some summaryTemp => exact ih rfl more

theorem loop_displayed : ∀ {s after : LoopState Value},
      items.foldlM (showItem results totalValue percentColumn tables) s = some after →
      ∀ item ∈ items, ∃ placed, placeItem results totalValue percentColumn tables item = some placed := by
  induction items with
  | nil => exact fun _ item member => absurd member not_mem_nil
  | cons first rest ih =>
    intro s after ran item member
    rw [foldlM_cons] at ran
    obtain ⟨next, shown, ran⟩ := bind_eq_some_iff.mp ran
    rcases mem_cons.mp member with rfl | later
    · obtain ⟨placed, place, -⟩ := bind_eq_some_iff.mp shown
      exact ⟨placed, place⟩
    · exact ih ran item later

def summaryRun (first : Row Value) (rest : List (Row Value)) : Option (List (Option Value)) := do
  let start ← tables.accumulateInst.zipIdx.mapM (firstSummary totalValue first)
  rest.foldlM (accumulatePreDefinedTemps results tables.accumulateInst) start

theorem loop_eq (requested : tables.columnSummary = true) {first : Item Value}
    {rest : List (Item Value)} {row : RowState Value} {others : List (RowState Value)}
    {start : LoopState Value} (begins : start.atFirst = true)
    (displayed : (first :: rest).mapM (placeItem results totalValue percentColumn tables) =
      some (row :: others)) :
    ((first :: rest).foldlM (showItem results totalValue percentColumn tables) start).map (·.summaryTemp) =
      summaryRun results totalValue tables row.temps (others.map (·.temps)) := by
  rw [mapM_cons] at displayed
  obtain ⟨found, place, displayed⟩ := bind_eq_some_iff.mp displayed
  obtain ⟨more, later, returned⟩ := bind_eq_some_iff.mp displayed
  obtain ⟨rfl, rfl⟩ := List.cons.inj (Option.some.inj returned)
  have here : placeColumns results totalValue percentColumn tables.viewInst
    tables.accumulateInst.length first.temps = some found := place
  rw [foldlM_cons, summaryRun, showItem, here]
  simp only [bind_eq_bind, bind_some, accumulateRow, requested, begins,
    Bool.true_eq_false, if_false, if_true]
  cases tables.accumulateInst.zipIdx.mapM (firstSummary totalValue found.temps) with
  | none => rfl
  | some summaryTemp =>
    exact loop_rest results totalValue percentColumn tables requested rfl later

variable {rest : List (Row Value)}

theorem summaryRun_place {first : Row Value} {summaryTemp : List (Option Value)}
    (ran : summaryRun results totalValue tables first rest = some summaryTemp) {i : Nat}
    {inst : Option (ViewInstruction Value)} (at_ : tables.accumulateInst[i]? = some inst) :
    ∃ last, placeRun results totalValue inst i (first :: rest) = some last ∧ summaryTemp[i]? = some last := by
  obtain ⟨start, begun, ran⟩ := bind_eq_some_iff.mp ran
  obtain ⟨length, starts⟩ := (@PlacewiseRun.mapM_zipIdx_iff _ _
    (fun inst i => firstSummary totalValue first (inst, i)) _ 0 start).mp begun
  obtain ⟨value, here, found⟩ := starts i inst at_
  rw [Nat.zero_add] at here
  obtain ⟨last, more, kept⟩ := ((PlacewiseRun.run_iff fun i A B =>
    accumulateTemp results B (tables.accumulateInst[i]?).join i A).mp ran).2 i value found
  rw [at_, join_some] at more
  exact ⟨last, by rw [placeRun, here]; exact more, kept⟩

theorem summaryRun_exists {first : Row Value} (each : ∀ i inst, tables.accumulateInst[i]? = some inst →
      ∃ last, placeRun results totalValue inst i (first :: rest) = some last) :
    ∃ summaryTemp, summaryRun results totalValue tables first rest = some summaryTemp := by
  have split : ∀ i inst, tables.accumulateInst[i]? = some inst →
      ∃ value, firstSummary totalValue first (inst, i) = some value ∧
        ∃ last, rest.foldlM (fun A B => accumulateTemp results B inst i A) value = some last := by
    intro i inst at_
    obtain ⟨last, ran⟩ := each i inst at_
    obtain ⟨value, here, more⟩ := bind_eq_some_iff.mp ran
    exact ⟨value, here, last, more⟩
  obtain ⟨start, begun⟩ : ∃ start, tables.accumulateInst.zipIdx.mapM
      (firstSummary totalValue first) = some start := by
    refine Fallible.mapM_isSome.mpr fun inst member => ?_
    obtain ⟨value, here, -⟩ := split inst.2 inst.1 (List.mk_mem_zipIdx_iff_getElem?.mp member)
    exact ⟨value, here⟩
  obtain ⟨length, starts⟩ := (@PlacewiseRun.mapM_zipIdx_iff _ _
    (fun inst i => firstSummary totalValue first (inst, i)) _ 0 start).mp begun
  obtain ⟨final, ran⟩ : ∃ final, rest.foldlM
      (accumulatePreDefinedTemps results tables.accumulateInst) start = some final := by
    refine PlacewiseRun.run_exists
      (fun i A B => accumulateTemp results B (tables.accumulateInst[i]?).join i A) ?_
    intro i value at_
    have inside : i < tables.accumulateInst.length := by
      rw [← length]
      exact (List.getElem?_eq_some_iff.mp at_).1
    obtain ⟨found, here, placed⟩ := starts i _ (List.getElem?_eq_getElem inside)
    obtain ⟨other, again, last, more⟩ := split i _ (List.getElem?_eq_getElem inside)
    rw [Nat.zero_add, again, Option.some.injEq] at here
    rw [placed, Option.some.injEq] at at_
    rw [List.getElem?_eq_getElem inside, join_some, ← at_, ← here]
    exact ⟨last, more⟩
  refine ⟨final, ?_⟩
  rw [summaryRun, begun]
  exact ran

end

section

variable (results : Results Number Value) (totalValue : List (Option Value))

def lacksStart : List (Option Value) → Bool
  | none :: rest => rest.any Option.isSome
  | _ => false

theorem accumulateOn_some (operation : Value → Value → Value) (values : List (Option Value)) :
    ∀ start : Value, values.foldlM (accumulateOn operation) (some start) =
      some (some (values.reduceOption.foldl operation start)) := by
  induction values with
  | nil => exact fun _ => rfl
  | cons value rest ih =>
    intro start
    cases value with
    | none =>
      rw [List.reduceOption_cons_of_none]
      exact ih start
    | some value =>
      rw [List.reduceOption_cons_of_some]
      exact ih (operation start value)

theorem accumulateOn_none (operation : Value → Value → Value) (values : List (Option Value)) :
    values.foldlM (accumulateOn operation) none = if values.any Option.isSome then none else some none := by
  induction values with
  | nil => rfl
  | cons value rest ih =>
    cases value with
    | none =>
      rw [foldlM_cons]
      exact ih
    | some value => rfl

theorem accumulateOn_run (operation : Value → Value → Value) (first : Option Value)
    (rest : List (Option Value)) : rest.foldlM (accumulateOn operation) first =
      if lacksStart (first :: rest) then none else some (combine operation (first :: rest)) := by
  cases first with
  | some start =>
    rw [accumulateOn_some, combine, List.reduceOption_cons_of_some]
    rfl
  | none =>
    rw [accumulateOn_none, lacksStart]
    split
    · rfl
    · rename_i empty
      have missing : rest.reduceOption = [] := by
        refine List.eq_nil_iff_forall_not_mem.mpr fun value member => empty ?_
        exact List.any_eq_true.mpr ⟨some value, List.reduceOption_mem_iff.mp member, rfl⟩
      rw [combine, List.reduceOption_cons_of_none, missing]

theorem foldlM_reads {i : Int} {body : Option Value → Option Value → Option (Option Value)}
    {rows : List (Row Value)} : ∀ {values : List (Option Value)} {start : Option Value},
      (rows.map fun row => CheckedVector.get row i) = values.map some →
      rows.foldlM (fun A B => (CheckedVector.get B i).bind (body A)) start = values.foldlM body start := by
  induction rows with
  | nil =>
    intro values start reads
    rw [List.map_eq_nil_iff.mp reads.symm]
    rfl
  | cons row rest ih =>
    intro values start reads
    cases values with
    | nil => cases reads
    | cons value more =>
      obtain ⟨here, others⟩ := List.cons.inj reads
      have here : CheckedVector.get row i = some value := here
      rw [foldlM_cons, foldlM_cons, here, bind_some]
      exact congrArg (Option.bind (body start value)) (funext fun next => ih others)

theorem placeRun_none (i : Nat) (rows : List (Row Value)) :
    placeRun results totalValue none i rows = some none := by
  have still : ∀ rest : List (Row Value),
      rest.foldlM (fun A B => accumulateTemp results B none i A) none = some none := by
    intro rest
    induction rest with
    | nil => rfl
    | cons row rest ih => exact ih
  cases rows with
  | nil => rfl
  | cons first rest => exact still rest

variable {vp : ViewInstruction Value} {i : Nat} {rows : List (Row Value)}
  {values : List (Option Value)}

theorem placeRun_values (kind : vp.opCode = .add ∨ vp.opCode = .min ∨ vp.opCode = .max)
    (plain : vp.expressionOp = .error) (some_ : rows ≠ [])
    (reads : (rows.map fun row => CheckedVector.get row i) = values.map some) :
    placeRun results totalValue (some vp) i rows = if lacksStart values then none
      else some (combine (operationOf results vp.opCode) values) := by
  cases rows with
  | nil => exact absurd rfl some_
  | cons first rest =>
    cases values with
    | nil => cases reads
    | cons value more =>
      obtain ⟨here, others⟩ := List.cons.inj reads
      have here : CheckedVector.get first i = some value := here
      have start : firstSummary totalValue first (some vp, i) = some value := by
        simp only [firstSummary, plain, here]
        cases value <;> rfl
      have body : (fun A B => accumulateTemp results B (some vp) i A) =
          fun A B => (CheckedVector.get B i).bind (accumulateOn (operationOf results vp.opCode) A) := by
        funext A B
        rcases kind with same | same | same <;> simp only [accumulateTemp, operationOf, same]
      rw [placeRun, start, body]
      exact (foldlM_reads others).trans (accumulateOn_run _ value more)

theorem placeRun_expression (kind : vp.opCode = .expression) (place : vp.tmpResult = i)
    (given : ∃ total, CheckedVector.get totalValue i = some total) (some_ : rows ≠ [])
    (reads : (rows.map fun row => CheckedVector.get row i) = values.map some) :
    placeRun results totalValue (some vp) i rows =
      some (recordedSummary results vp (CheckedVector.get totalValue i).join values) := by
  obtain ⟨total, given⟩ := given
  cases rows with
  | nil => exact absurd rfl some_
  | cons first rest =>
    cases values with
    | nil => cases reads
    | cons value more =>
      obtain ⟨here, others⟩ := List.cons.inj reads
      have here : CheckedVector.get first i = some value := here
      have start : firstSummary totalValue first (some vp, i) =
          some (if canAccumulate vp.expressionOp then value.or total else value) := by
        simp only [firstSummary, here, given]
        cases value <;> cases canAccumulate vp.expressionOp <;> rfl
      have body : (fun A B => accumulateTemp results B (some vp) i A) =
          fun A B => (CheckedVector.get B i).bind fun value =>
            some (results.calculateExpression (summaryOperation vp.expressionOp) A value none)
          := by
        funext A B
        simp only [accumulateTemp, kind, place]
        rfl
      rw [placeRun, start, body, given, recordedSummary, if_pos kind]
      exact (foldlM_reads others).trans List.foldlM_pure

end

section

variable {iv : List (ViewInstruction Value)}

theorem recorder_kind {tmp : Int} {vp : ViewInstruction Value} (found : recorder iv tmp = some vp) :
    vp ∈ iv ∧ (((vp.opCode = .add ∨ vp.opCode = .min ∨ vp.opCode = .max) ∧ vp.tmpIndex1 = tmp) ∨
      (vp.opCode = .expression ∧ vp.tmpResult = tmp)) := by
  obtain ⟨member, records⟩ := List.mem_filter.mp (List.mem_of_getLast? found)
  refine ⟨member, (of_decide_eq_true records).imp_right ?_⟩
  rintro ⟨expression, -, place⟩
  exact ⟨expression, place⟩

theorem valueAt_accumulateEntry {temps i : Nat} (inside : i < temps) (vp : ViewInstruction Value) :
    valueAt (fun vp => some (accumulateEntry temps vp)) i vp =
      if recordsFor i vp then some (some vp) else none := by
  cases opCode : vp.opCode
  all_goals
    simp only [valueAt, accumulateEntry, recordsFor, opCode, join_some,
      reduceCtorEq, false_or, or_false, or_true, true_or, true_and, false_and, decide_false,
      decide_eq_true_eq, Bool.false_eq_true, if_false, Option.bind_none]
  case add | min | max =>
    by_cases same : vp.tmpIndex1 = i
    · rw [if_pos (by omega), if_pos same, bind_some, if_pos same]
    · rw [if_neg same]
      split
      · exact if_neg same
      · rfl
  case expression =>
    cases Tables.summarizes vp.expressionOp with
    | false => rfl
    | true =>
      rw [if_pos rfl, bind_some]
      simp

theorem accumulateInst_get {temps : Nat} {tables : Tables Value}
    (made : iv.foldlM (Tables.reformat temps) (Tables.start iv temps) = some tables) {i : Nat}
    (inside : i < temps) : tables.accumulateInst[i]? = some (recorder iv i) := by
  have empty : CheckedVector.get (Tables.start iv temps).accumulateInst i = some none := by
    rw [Tables.start, CheckedVector.get, if_pos (by omega), List.getElem?_replicate, if_pos (by omega)]
  have entries : iv.filterMap (valueAt (fun vp => some (accumulateEntry temps vp)) i) =
      (iv.filter (recordsFor (i : Int))).map some := by
    rw [List.filterMap_congr fun vp _ => valueAt_accumulateEntry inside vp,
      ← List.filterMap_eq_filter, List.map_filterMap]
    refine List.filterMap_congr fun vp _ => ?_
    cases recorded : recordsFor (i : Int) vp <;> simp [Option.guard, recorded]
  have all := CheckedVector.get_after_writeAll _ (i : Int) (reformatAll_accumulateInst made)
  rw [empty, entries, List.getLast?_map, CheckedVector.get, if_pos (by omega), Int.toNat_natCast] at all
  rw [all, recorder]
  cases (iv.filter (recordsFor (i : Int))).getLast? <;> rfl

end

/-- What a view and its rows come with: only expressions have an operation, the rows have
temps in the same number, and the totals are those that `Generic_Multi_View` makes. -/
structure SummaryView (Value : Type) where
  iv : List (ViewInstruction Value)
  totalValue : List (Option Value)
  first : Item Value
  rest : List (Item Value)
  operations : ∀ vp ∈ iv, vp.opCode ≠ .expression → vp.expressionOp = .error
  sizes : ∀ item ∈ rest, item.temps.length = first.temps.length
  totals : totalValue.length = (findMaxTemp iv + 1).toNat

namespace SummaryView

variable (view : SummaryView Value) (results : Results Number Value) (tables : Tables Value)

def items : List (Item Value) :=
  view.first :: view.rest

def reformatted : Option (Tables Value) :=
  view.iv.foldlM (Tables.reformat view.first.temps.length) (Tables.start view.iv view.first.temps.length)

def percentColumn : Int :=
  percentOfColumn view.iv view.totalValue

def values (tmp : Int) : List (Option Value) :=
  view.items.map fun item => (CheckedVector.get item.temps tmp).join

def placedValues (tmp : Int) : List (Option Value) :=
  (view.values tmp).map (Option.or · (fill view.totalValue tables.viewInst tmp))

def wanted (inst : ViewInstruction Value) : Option Value :=
  combine (operationOf results inst.opCode) (view.values inst.tmpIndex1)

def total (tmp : Int) : Option Value :=
  (CheckedVector.get view.totalValue tmp).join

/-- The loop over the rows ends, and the summary of every temp that is shown is the one that
its instruction asks for, or empty. -/
def SummaryCorrect : Prop :=
  ∃ s, view.items.foldlM (showItem results view.totalValue view.percentColumn tables)
      ⟨true, [], List.replicate tables.accumulateInst.length none⟩ = some s ∧
    ∀ sinst, some sinst ∈ tables.viewInst → sinst.opCode = .displayTmp →
      ∀ inst ∈ summaryInst view.iv sinst.tmpIndex1, ∀ i percentOf, ∃ entry,
        summaryValue results view.totalValue view.percentColumn tables.accumulateInst
          s.summaryTemp percentOf i sinst = some entry ∧
        entry.getD (results.ofString "") = (view.wanted results inst).getD (results.ofString "")

/-- What is recorded for a temp gives the summary that is wanted: nothing for temp 0 and for
a temp without a recorded instruction. -/
def EntryAgrees (tmp : Int) (wanted : Option Value) : Prop :=
  match recorder view.iv tmp with
  | some vp =>
    if 0 < tmp then
      (recordedSummary results vp (view.total tmp) (view.placedValues tables tmp)).or
        (view.total tmp) = some (wanted.getD (results.ofString ""))
    else wanted.getD (results.ofString "") = results.ofString ""
  | none => wanted.getD (results.ofString "") = results.ofString ""

def RowsDisplayed : Prop :=
  ∀ item ∈ view.items, ∃ placed, placeItem results view.totalValue view.percentColumn tables item = some placed

structure SummaryHolds : Prop where
  starts : ∀ tmp < view.first.temps.length, ∀ vp ∈ recorder view.iv tmp,
    vp.opCode ≠ .expression → lacksStart (view.placedValues tables tmp) = false
  entries : ∀ sinst, some sinst ∈ tables.viewInst → sinst.opCode = .displayTmp →
    ∀ inst ∈ summaryInst view.iv sinst.tmpIndex1,
      view.EntryAgrees results tables sinst.tmpIndex1 (view.wanted results inst)

section

variable {view} {results} {tables}

def placeResult (view : SummaryView Value) (results : Results Number Value)
    (tables : Tables Value) (i : Nat) : Option (Option Value) :=
  match recorder view.iv i with
  | none => some none
  | some vp =>
    if vp.opCode ≠ .expression ∧ lacksStart (view.placedValues tables i) = true then none
    else some (recordedSummary results vp (view.total i) (view.placedValues tables i))

variable {placed : List (RowState Value)}
  (displayed : view.items.mapM (placeItem results view.totalValue view.percentColumn tables) = some placed)

include displayed

variable {i : Nat}

theorem placed_reads (inside : i < view.first.temps.length) :
    ((placed.map (·.temps)).map fun row => CheckedVector.get row i) =
      (view.placedValues tables i).map some := by
  have reads : placed.map (fun row => CheckedVector.get row.temps (i : Int)) =
      view.items.map fun item => (CheckedVector.get item.temps (i : Int)).map
        (Option.or · (fill view.totalValue tables.viewInst i)) :=
    Fallible.map_of_mapM (fun item row place =>
      placeColumns_temps results view.totalValue view.percentColumn place i) displayed
  rw [map_map]
  refine reads.trans ?_
  rw [placedValues, values, map_map, map_map]
  refine List.map_congr_left fun item member => ?_
  have size : item.temps.length = view.first.temps.length := by
    rcases mem_cons.mp member with rfl | later
    · rfl
    · exact view.sizes item later
  obtain ⟨value, found⟩ : ∃ value, CheckedVector.get item.temps (i : Int) = some value :=
    get_eq_some (by omega) (by omega)
  simp [found]

theorem placed_some : placed ≠ [] := by
  intro empty
  have length := Fallible.length_of_mapM displayed
  rw [empty] at length
  cases length

theorem placeRun_eq (inside : i < view.first.temps.length) :
    placeRun results view.totalValue (recorder view.iv i) i (placed.map (·.temps)) =
      placeResult view results tables i := by
  have reads := placed_reads displayed inside
  have some_ : placed.map (·.temps) ≠ [] := by
    simpa using placed_some displayed
  rw [placeResult]
  cases found : recorder view.iv i with
  | none => exact placeRun_none results view.totalValue i _
  | some vp =>
    obtain ⟨member, ⟨kind, -⟩ | ⟨kind, place⟩⟩ := recorder_kind found
    · have other : vp.opCode ≠ .expression := by
        rcases kind with same | same | same <;> simp [same]
      rw [placeRun_values results view.totalValue kind (view.operations vp member other) some_ reads]
      cases shape : view.placedValues tables i with
      | nil => simp [placedValues, values, items] at shape
      | cons value more =>
        dsimp only
        rw [recordedSummary.eq_def]
        simp [other]
    · have upper : vp.tmpResult ≤ findMaxTemp view.iv := by
        rw [← maxTemp_expression kind]
        exact maxTemp_le_findMaxTemp member
      have given : ∃ total, CheckedVector.get view.totalValue (i : Int) = some total :=
        get_eq_some (by omega) (by rw [view.totals]; omega)
      rw [placeRun_expression results view.totalValue kind place given some_ reads]
      dsimp only
      rw [if_neg fun both => both.1 kind, total]

theorem items_placed : ∃ row others, placed = row :: others ∧ (view.first :: view.rest).mapM
      (placeItem results view.totalValue view.percentColumn tables) = some (row :: others) := by
  cases shape : placed with
  | nil => exact absurd shape (placed_some displayed)
  | cons row others =>
    rw [shape] at displayed
    exact ⟨row, others, rfl, displayed⟩

variable {sinst : ViewInstruction Value}

theorem shown_inside (member : some sinst ∈ tables.viewInst) (shows : sinst.opCode = .displayTmp) :
    ∃ i : Nat, sinst.tmpIndex1 = i ∧ i < view.first.temps.length := by
  obtain ⟨row, others, -, ran⟩ := items_placed displayed
  rw [mapM_cons] at ran
  obtain ⟨found, place, -⟩ := bind_eq_some_iff.mp ran
  have read := placeAll_reads results view.totalValue view.percentColumn shows place
    (by rwa [List.zipIdx_map_fst])
  obtain ⟨value, read⟩ := Option.isSome_iff_exists.mp read
  obtain ⟨lower, upper⟩ := CheckedVector.bounds_of_get read
  dsimp only at upper
  exact ⟨sinst.tmpIndex1.toNat, by omega, by omega⟩

omit displayed

theorem accumulateInst_length (made : view.reformatted = some tables) :
    tables.accumulateInst.length = view.first.temps.length := by
  rw [CheckedVector.length_of_writeAll _ (reformatAll_accumulateInst made), Tables.start,
    List.length_replicate]

include displayed

theorem loop_places (made : view.reformatted = some tables) (requested : tables.columnSummary = true) :
    ((∃ s, view.items.foldlM (showItem results view.totalValue view.percentColumn tables)
        ⟨true, [], replicate tables.accumulateInst.length none⟩ = some s) ↔
      ∀ i < view.first.temps.length, ∃ last, placeResult view results tables i = some last) ∧
    ∀ s, view.items.foldlM (showItem results view.totalValue view.percentColumn tables)
        ⟨true, [], replicate tables.accumulateInst.length none⟩ = some s →
      ∀ i < view.first.temps.length, s.summaryTemp[i]? = placeResult view results tables i := by
  obtain ⟨row, others, same, ran⟩ := items_placed displayed
  have length := accumulateInst_length made
  have loop : ((view.first :: view.rest).foldlM
      (showItem results view.totalValue view.percentColumn tables)
      ⟨true, [], replicate tables.accumulateInst.length none⟩).map (·.summaryTemp) =
        summaryRun results view.totalValue tables row.temps (others.map (·.temps)) :=
    loop_eq results view.totalValue view.percentColumn tables requested rfl ran
  have places : ∀ i < view.first.temps.length,
      placeRun results view.totalValue (recorder view.iv i) i
        (row.temps :: others.map (·.temps)) = placeResult view results tables i := by
    intro i inside
    have place := placeRun_eq displayed inside
    rwa [same] at place
  refine ⟨⟨?_, fun each => ?_⟩, fun s ended i inside => ?_⟩
  · rintro ⟨s, ended⟩ i inside
    rw [items] at ended
    rw [ended] at loop
    obtain ⟨last, here, -⟩ := summaryRun_place results view.totalValue tables loop.symm
      (accumulateInst_get made inside)
    exact ⟨last, by rw [← places i inside, here]⟩
  · have all : ∀ i inst, tables.accumulateInst[i]? = some inst → ∃ last,
        placeRun results view.totalValue inst i (row.temps :: others.map (·.temps)) = some last := by
      intro i inst at_
      have inside : i < view.first.temps.length := by
        rw [← length]
        exact (List.getElem?_eq_some_iff.mp at_).1
      rw [accumulateInst_get made inside, Option.some.injEq] at at_
      rw [← at_, places i inside]
      exact each i inside
    obtain ⟨summaryTemp, summed⟩ := summaryRun_exists results view.totalValue tables all
    rw [summed] at loop
    obtain ⟨s, ended, -⟩ := Option.map_eq_some_iff.mp loop
    exact ⟨s, ended⟩
  · rw [items] at ended
    rw [ended] at loop
    obtain ⟨last, here, found⟩ := summaryRun_place results view.totalValue tables loop.symm
      (accumulateInst_get made inside)
    rw [← places i inside, here]
    exact found

omit displayed

theorem summaryValue_eq (made : view.reformatted = some tables) {s : LoopState Value}
    (inside : i < view.first.temps.length) {last : Option Value} (found : s.summaryTemp[i]? = some last)
    (shows : sinst.opCode = .displayTmp)
    (place : sinst.tmpIndex1 = i) (column : Nat) (percentOf : Option Value) :
    summaryValue results view.totalValue view.percentColumn tables.accumulateInst s.summaryTemp
        percentOf column sinst =
      if (recorder view.iv i).isSome ∧ 0 < i then (last.or (view.total i)).map some else some none := by
  have upper : sinst.tmpIndex1 < tables.accumulateInst.length := by
    rw [place, accumulateInst_length made]
    omega
  have recorded : CheckedVector.get tables.accumulateInst sinst.tmpIndex1 = some (recorder view.iv i) := by
    rw [place, CheckedVector.get, if_pos (by omega), Int.toNat_natCast]
    exact accumulateInst_get made inside
  have kept : CheckedVector.get s.summaryTemp sinst.tmpIndex1 = some last := by
    rw [place, CheckedVector.get, if_pos (by omega), Int.toNat_natCast]
    exact found
  have positive : (0 < sinst.tmpIndex1) = (0 < i) := by
    rw [place]
    exact propext Int.natCast_pos
  simp only [summaryValue, shows, if_pos upper, recorded, kept, positive, bind_eq_bind,
    bind_some]
  split
  · cases last with
    | some value => rfl
    | none => rw [total, place, Option.none_or]
  · rfl

theorem placeResult_exists : (∃ last, placeResult view results tables i = some last) ↔
      ∀ vp ∈ recorder view.iv i, vp.opCode ≠ .expression →
        lacksStart (view.placedValues tables i) = false := by
  rw [placeResult]
  cases recorder view.iv i with
  | none => simp
  | some vp =>
    dsimp only
    split
    · rename_i lacking
      constructor
      · rintro ⟨last, ran⟩
        cases ran
      · intro starts
        rw [starts vp rfl lacking.1] at lacking
        cases lacking.2
    · rename_i fine
      refine ⟨fun _ other same plain => ?_, fun _ => ⟨_, rfl⟩⟩
      obtain rfl := Option.some.inj same
      exact Bool.eq_false_iff.mpr fun lacking => fine ⟨plain, lacking⟩

theorem entry_iff (made : view.reformatted = some tables) {s : LoopState Value}
    (inside : i < view.first.temps.length)
    (found : s.summaryTemp[i]? = placeResult view results tables i) {last : Option Value}
    (result : placeResult view results tables i = some last) (shows : sinst.opCode = .displayTmp)
    (place : sinst.tmpIndex1 = i) (column : Nat) (percentOf : Option Value) (wanted : Option Value) :
    (∃ entry, summaryValue results view.totalValue view.percentColumn tables.accumulateInst
        s.summaryTemp percentOf column sinst = some entry ∧
      entry.getD (results.ofString "") = wanted.getD (results.ofString "")) ↔
      view.EntryAgrees results tables sinst.tmpIndex1 wanted := by
  rw [summaryValue_eq made inside (found.trans result) shows place, EntryAgrees, place]
  rw [placeResult] at result
  cases which : recorder view.iv i with
  | none =>
    rw [if_neg (by simp)]
    simpa using eq_comm
  | some vp =>
    rw [which] at result
    dsimp only at result ⊢
    have recorded : recordedSummary results vp (view.total i) (view.placedValues tables i) =
        last := by
      split at result
      · cases result
      · exact Option.some.inj result
    rw [recorded]
    by_cases positive : 0 < i
    · rw [if_pos ⟨rfl, positive⟩, if_pos (by omega)]
      cases last.or (view.total i) <;> simp
    · rw [if_neg fun both => positive both.2, if_neg (by omega)]
      simpa using eq_comm

include displayed

theorem summaryCorrect_of_displayed (made : view.reformatted = some tables)
    (requested : tables.columnSummary = true) :
    view.SummaryCorrect results tables ↔ view.SummaryHolds results tables := by
  obtain ⟨ends, places⟩ := loop_places displayed made requested
  constructor
  · rintro ⟨s, ended, entries⟩
    have results_ := ends.mp ⟨s, ended⟩
    refine ⟨fun tmp inside => placeResult_exists.mp (results_ tmp inside),
      fun sinst member shows inst asked => ?_⟩
    obtain ⟨i, place, inside⟩ := shown_inside displayed member shows
    obtain ⟨last, result⟩ := results_ i inside
    exact (entry_iff made inside (places s ended i inside) result shows place 0 none _).mp
      (entries sinst member shows inst asked 0 none)
  · rintro ⟨starts, entries⟩
    have results_ : ∀ i < view.first.temps.length, ∃ last, placeResult view results tables i = some last :=
      fun i inside => placeResult_exists.mpr (starts i inside)
    obtain ⟨s, ended⟩ := ends.mpr results_
    refine ⟨s, ended, fun sinst member shows inst asked column percentOf => ?_⟩
    obtain ⟨i, place, inside⟩ := shown_inside displayed member shows
    obtain ⟨last, result⟩ := results_ i inside
    exact (entry_iff made inside (places s ended i inside) result shows place column percentOf
      _).mpr (entries sinst member shows inst asked)

omit displayed

theorem summary_correct_iff (made : view.reformatted = some tables)
    (requested : tables.columnSummary = true) :
    view.SummaryCorrect results tables ↔
      view.RowsDisplayed results tables ∧ view.SummaryHolds results tables := by
  constructor
  · intro correct
    have shown : view.RowsDisplayed results tables :=
      loop_displayed results view.totalValue view.percentColumn tables correct.choose_spec.1
    obtain ⟨placed, displayed⟩ := Fallible.mapM_isSome.mpr shown
    exact ⟨shown, (summaryCorrect_of_displayed displayed made requested).mp correct⟩
  · rintro ⟨shown, holds⟩
    obtain ⟨placed, displayed⟩ := Fallible.mapM_isSome.mpr shown
    exact (summaryCorrect_of_displayed displayed made requested).mpr holds

end

section

theorem placedValues_eq {tmp : Int}
    (missing : view.total tmp = none ∨ ∀ value ∈ view.values tmp, value ≠ none) :
    view.placedValues tables tmp = view.values tmp := by
  refine (List.map_congr_left fun value member => ?_).trans (List.map_id _)
  rcases missing with noTotal | values
  · have filled : fill view.totalValue tables.viewInst tmp = none := by
      rw [fill]
      split
      · exact noTotal
      · rfl
    rw [filled, Option.or_none, id]
  · obtain ⟨number, same⟩ := Option.ne_none_iff_exists'.mp (values value member)
    rw [same, Option.some_or, id]

variable {view} {results} {tables}

theorem entryAgrees_of_recorded {inst : ViewInstruction Value}
    (recorded : recorder view.iv inst.tmpIndex1 = some inst) (plain : inst.opCode ≠ .expression)
    (positive : 0 < inst.tmpIndex1)
    (missing : view.total inst.tmpIndex1 = none ∨ ∀ value ∈ view.values inst.tmpIndex1, value ≠ none)
    (some_ : ∃ value, some value ∈ view.values inst.tmpIndex1) :
    view.EntryAgrees results tables inst.tmpIndex1 (view.wanted results inst) := by
  obtain ⟨value, member⟩ := some_
  have present : value ∈ (view.values inst.tmpIndex1).reduceOption :=
    List.reduceOption_mem_iff.mpr member
  have summary : recordedSummary results inst (view.total inst.tmpIndex1)
      (view.values inst.tmpIndex1) = view.wanted results inst := by
    rw [wanted]
    generalize view.values inst.tmpIndex1 = values at member
    cases values with
    | nil => exact absurd member not_mem_nil
    | cons first rest => rw [recordedSummary, if_neg plain]
  rw [EntryAgrees, recorded]
  dsimp only
  rw [if_pos positive, placedValues_eq view tables missing, summary, wanted, combine]
  cases values : (view.values inst.tmpIndex1).reduceOption with
  | nil =>
    rw [values] at present
    cases present
  | cons first rest => rfl

end

section

def ofTemp (opCode : ViewOpCode) (temp : Int) : ViewInstruction (Int ⊕ String) :=
  ⟨opCode, .error, -1, temp, -1, -1, none⟩

/-- The inclusive time of two functions, as in the view of usertime: its sum and, given
later, the largest. -/
def inclusiveTime : SummaryView (Int ⊕ String) where
  iv := [.displayTmp 0 1, ofTemp .add 1, ofTemp .summaryMax 1, ofTemp .displaySummary (-1)]
  totalValue := [none, none]
  first := ⟨.inr "main", [none, some (.inl 6)]⟩
  rest := [⟨.inr "work", [none, some (.inl 5)]⟩]
  operations := by decide
  sizes := by decide
  totals := by decide

def addedTime (total first : Option (Int ⊕ String)) (rest : List (Option (Int ⊕ String))) :
    SummaryView (Int ⊕ String) where
  iv := [.displayTmp 0 1, ofTemp .add 1, ofTemp .displaySummary (-1)]
  totalValue := [none, total]
  first := ⟨.inr "main", [none, first]⟩
  rest := rest.map fun value => ⟨.inr "work", [none, value]⟩
  operations := by decide
  sizes := by simp
  totals := rfl

def addedTables : Tables (Int ⊕ String) :=
  ⟨[some (.displayTmp 0 1)], [none, some (ofTemp .add 1)], true, false⟩

theorem summary_correct_iff_added :
    (addedTime none (some (.inl 5)) [none, some (.inl 6)]).SummaryCorrect integersAndTexts
      addedTables := by
  refine (@summary_correct_iff _ _ (addedTime none (some (.inl 5)) [none, some (.inl 6)])
    integersAndTexts addedTables rfl rfl).mpr ⟨?_, by decide, ?_⟩
  · exact Fallible.mapM_isSome.mp ⟨_, rfl⟩
  · intro sinst member shows inst asked
    obtain rfl : sinst = .displayTmp 0 1 := Option.some.inj (List.mem_singleton.mp member)
    obtain rfl : ofTemp .add 1 = inst := Option.some.inj asked
    exact @entryAgrees_of_recorded _ _ (addedTime none (some (.inl 5)) [none, some (.inl 6)])
      integersAndTexts addedTables (ofTemp .add 1) (by decide) (by decide) (by decide) (.inl rfl)
      ⟨.inl 5, List.mem_cons_self⟩

theorem summary_not_correct :
    (constructViewOutput integersAndTexts inclusiveTime.iv inclusiveTime.totalValue
        inclusiveTime.items =
          some ⟨[[.inl 6, .inr "main"], [.inl 5, .inr "work"]], some [.inl 11, .inr "Report Summary"]⟩ ∧
      inclusiveTime.wanted integersAndTexts (ofTemp .summaryMax 1) = some (.inl 6) ∧
      ¬inclusiveTime.SummaryCorrect integersAndTexts addedTables) ∧
    (constructViewOutput integersAndTexts (addedTime none none [some (.inl 5)]).iv [none, none]
        (addedTime none none [some (.inl 5)]).items = none ∧
      ¬(addedTime none none [some (.inl 5)]).SummaryCorrect integersAndTexts addedTables) ∧
    (constructViewOutput integersAndTexts
        (addedTime (some (.inl 5)) (some (.inl 5)) [none]).iv [none, some (.inl 5)]
        (addedTime (some (.inl 5)) (some (.inl 5)) [none]).items =
          some ⟨[[.inl 5, .inr "main"], [.inl 5, .inr "work"]], some [.inl 10, .inr "Report Summary"]⟩ ∧
      (addedTime (some (.inl 5)) (some (.inl 5)) [none]).wanted integersAndTexts
        (ofTemp .add 1) = some (.inl 5) ∧
      ¬(addedTime (some (.inl 5)) (some (.inl 5)) [none]).SummaryCorrect integersAndTexts addedTables) := by
  refine ⟨⟨by decide, by decide, ?_⟩, ⟨by decide, ?_⟩, by decide, by decide, ?_⟩
  · rintro ⟨s, ended, entries⟩
    obtain rfl := Option.some.inj ended
    obtain ⟨entry, found, same⟩ := entries (.displayTmp 0 1) (by decide) rfl (ofTemp .summaryMax 1) rfl 0 none
    obtain rfl := Option.some.inj found
    exact absurd same (by decide)
  · rintro ⟨s, ended, -⟩
    cases ended
  · rintro ⟨s, ended, entries⟩
    obtain rfl := Option.some.inj ended
    obtain ⟨entry, found, same⟩ := entries (.displayTmp 0 1) (by decide) rfl (ofTemp .add 1) rfl 0 none
    obtain rfl := Option.some.inj found
    exact absurd same (by decide)

end

end SummaryView

end OpenSpeedShop.ViewOutput
