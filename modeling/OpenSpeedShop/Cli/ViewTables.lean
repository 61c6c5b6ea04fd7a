import OpenSpeedShop.Cli.ViewOutputCore
import OpenSpeedShop.Library.Fallible
import Mathlib.Data.List.Nodup
import Mathlib.Data.List.Perm.Basic

/-!
The tables of a view are rectangular when every column is among the collected instructions: the header
asks for the columns' definitions, the rows take what the loop has put in their places.
-/

namespace OpenSpeedShop.ViewOutput

open MetricExpressions
open CheckedVector (valueAt write writeAll writeAll_of_run)
open List (mem_range mem_filter length_map mem_map map_cons length_append foldlM_cons)
open Option (bind_eq_some_iff map_eq_some_iff filter_some join_some)
open Tables (reformat start)

variable {Number Value : Type}

structure ColumnList (Value : Type) where
  iv : List (ViewInstruction Value)
  count : Nat
  columns : ((iv.filter fun vp => displays vp.opCode).map (·.tmpResult)).Perm
    ((List.range count).map Int.ofNat)

def headerColumns (iv : List (ViewInstruction Value)) : List (ViewInstruction Value) :=
  columnsFrom iv iv.length 0

def keeps (temps : Nat) (vp : ViewInstruction Value) : Bool :=
  match vp.opCode with
  | .displayByThreadMetric => false
  | .displayTmp => vp.tmpResult < temps
  | _ => vp.tmpResult ≤ temps

section

variable (results : Results Number Value) (totalValue : List (Option Value)) (percentColumn : Int)

variable {s after : RowState Value} {vinst : ViewInstruction Value}

variable {value : Option Value}

section

variable {i : Nat} (ran : nextMetricValue results totalValue percentColumn s i vinst = some (value, after))
include ran

theorem nextMetricValue_other
    (other : vinst.opCode ≠ .displayTmp) : ∃ inputTempUsed, after = { s with inputTempUsed } := by
  unfold nextMetricValue at ran
  split at ran
  · obtain ⟨used, -, ran⟩ := bind_eq_some_iff.mp ran
    obtain ⟨found, -, ran⟩ := bind_eq_some_iff.mp ran
    obtain ⟨inputTempUsed, -, ran⟩ := bind_eq_some_iff.mp ran
    split at ran
    · cases ran
    · obtain ⟨-, rfl⟩ := Prod.mk.inj (Option.some.inj ran)
      exact ⟨inputTempUsed, rfl⟩
  · rename_i shows
    exact absurd shows other
  · obtain ⟨found, -, ran⟩ := bind_eq_some_iff.mp ran
    obtain ⟨-, rfl⟩ := Prod.mk.inj (Option.some.inj ran)
    exact ⟨s.inputTempUsed, rfl⟩
  · obtain ⟨found, -, ran⟩ := bind_eq_some_iff.mp ran
    split at ran
    · obtain ⟨-, rfl⟩ := Prod.mk.inj (Option.some.inj ran)
      exact ⟨s.inputTempUsed, rfl⟩
    · obtain ⟨percent, -, ran⟩ := bind_eq_some_iff.mp ran
      obtain ⟨-, rfl⟩ := Prod.mk.inj (Option.some.inj ran)
      exact ⟨s.inputTempUsed, rfl⟩
  · obtain ⟨V1, -, ran⟩ := bind_eq_some_iff.mp ran
    obtain ⟨V2, -, ran⟩ := bind_eq_some_iff.mp ran
    obtain ⟨V3, -, ran⟩ := bind_eq_some_iff.mp ran
    obtain ⟨-, rfl⟩ := Prod.mk.inj (Option.some.inj ran)
    exact ⟨s.inputTempUsed, rfl⟩
  · obtain ⟨found, -, ran⟩ := bind_eq_some_iff.mp ran
    obtain ⟨-, rfl⟩ := Prod.mk.inj (Option.some.inj ran)
    exact ⟨s.inputTempUsed, rfl⟩

theorem nextMetricValue_displayTmp (shows : vinst.opCode = .displayTmp) :
    ∃ found, CheckedVector.get s.temps vinst.tmpIndex1 = some found ∧ match found with
      | some _ => ∃ inputTempUsed, after = { s with inputTempUsed }
      | none => ∃ total, CheckedVector.get totalValue vinst.tmpIndex1 = some total ∧
          match total with
          | none => after = s
          | some value => ∃ temps,
              CheckedVector.set s.temps vinst.tmpIndex1 (some value) = some temps ∧
                after = { s with temps } := by
  simp only [nextMetricValue, shows] at ran
  obtain ⟨found, read, ran⟩ := bind_eq_some_iff.mp ran
  refine ⟨found, read, ?_⟩
  cases found with
  | some present =>
    dsimp only at ran ⊢
    split at ran
    · obtain ⟨-, rfl⟩ := Prod.mk.inj (Option.some.inj ran)
      exact ⟨s.inputTempUsed, rfl⟩
    · obtain ⟨inputTempUsed, -, ran⟩ := bind_eq_some_iff.mp ran
      obtain ⟨-, rfl⟩ := Prod.mk.inj (Option.some.inj ran)
      exact ⟨inputTempUsed, rfl⟩
  | none =>
    obtain ⟨total, given, ran⟩ := bind_eq_some_iff.mp ran
    refine ⟨total, given, ?_⟩
    cases total with
    | none =>
      obtain ⟨-, rfl⟩ := Prod.mk.inj (Option.some.inj ran)
      rfl
    | some total =>
      obtain ⟨temps, wrote, ran⟩ := bind_eq_some_iff.mp ran
      obtain ⟨-, rfl⟩ := Prod.mk.inj (Option.some.inj ran)
      exact ⟨temps, wrote, rfl⟩

theorem nextMetricValue_columns : after.columns = s.columns := by
  by_cases shows : vinst.opCode = .displayTmp
  · obtain ⟨found, -, left⟩ := nextMetricValue_displayTmp results totalValue percentColumn ran shows
    cases found with
    | some present =>
      obtain ⟨inputTempUsed, rfl⟩ := left
      rfl
    | none =>
      obtain ⟨total, -, left⟩ := left
      cases total with
      | none => exact congrArg RowState.columns left
      | some total =>
        obtain ⟨temps, -, rfl⟩ := left
        rfl
  · obtain ⟨inputTempUsed, rfl⟩ :=
      nextMetricValue_other results totalValue percentColumn ran shows
    rfl

end

theorem placeColumn_columns {column : Option (ViewInstruction Value) × Nat}
    (ran : placeColumn results totalValue percentColumn s column = some after) :
    column.1.isSome ∧ after.columns.length = s.columns.length + 1 := by
  obtain ⟨vinst, pointer, ran⟩ := bind_eq_some_iff.mp ran
  obtain ⟨⟨next, middle⟩, valued, returned⟩ := bind_eq_some_iff.mp ran
  obtain rfl := Option.some.inj returned
  refine ⟨by rw [pointer]; rfl, ?_⟩
  rw [length_append, nextMetricValue_columns results totalValue percentColumn valued,
    List.length_singleton]

variable {columns : List (Option (ViewInstruction Value) × Nat)}

theorem placeAll_columns : ∀ {s after : RowState Value},
      columns.foldlM (placeColumn results totalValue percentColumn) s = some after →
      (∀ column ∈ columns, column.1.isSome) ∧ after.columns.length = s.columns.length + columns.length := by
  induction columns with
  | nil =>
    intro s after ran
    obtain rfl := Option.some.inj ran
    simp
  | cons column rest ih =>
    intro s after ran
    rw [foldlM_cons] at ran
    obtain ⟨middle, placed, ran⟩ := bind_eq_some_iff.mp ran
    obtain ⟨pointer, one⟩ := placeColumn_columns results totalValue percentColumn placed
    obtain ⟨pointers, more⟩ := ih ran
    refine ⟨List.forall_mem_cons.mpr ⟨pointer, pointers⟩, ?_⟩
    rw [more, one, List.length_cons]
    omega

theorem placeColumns_length {viewInst : List (Option (ViewInstruction Value))} {temps : Nat}
    {row : Row Value} {placed : RowState Value}
    (ran : placeColumns results totalValue percentColumn viewInst temps row = some placed) :
    (∀ inst ∈ viewInst, inst.isSome) ∧ placed.columns.length = viewInst.length := by
  obtain ⟨pointers, length⟩ := placeAll_columns results totalValue percentColumn ran
  refine ⟨fun inst member => ?_, by simpa using length⟩
  obtain ⟨i, inside, rfl⟩ := List.mem_iff_getElem.mp member
  exact pointers (viewInst[i], i) (List.mk_mem_zipIdx_iff_getElem?.mpr (by simp [inside]))

theorem addEnder_length {accumulateInst : List (Option (ViewInstruction Value))}
    {summaryTemp : List (Option Value)} : ∀ {s after : EnderState Value},
      columns.foldlM (addEnder results totalValue percentColumn accumulateInst summaryTemp) s =
        some after → (∀ column ∈ columns, column.1.isSome) →
      after.enders.length = s.enders.length + columns.length := by
  induction columns with
  | nil =>
    intro s after ran pointers
    obtain rfl := Option.some.inj ran
    rfl
  | cons column rest ih =>
    intro s after ran pointers
    obtain ⟨inst, i⟩ := column
    obtain ⟨sinst, rfl⟩ := Option.isSome_iff_exists.mp (pointers _ List.mem_cons_self)
    rw [foldlM_cons] at ran
    obtain ⟨middle, added, ran⟩ := bind_eq_some_iff.mp ran
    obtain ⟨summary, -, returned⟩ := bind_eq_some_iff.mp added
    obtain rfl := Option.some.inj returned
    rw [ih ran fun other member => pointers other (List.mem_cons_of_mem _ member),
      length_append, List.length_singleton, List.length_cons]
    omega

variable {items : List (Item Value)}

theorem showItems_rows {tables : Tables Value} : ∀ {s after : LoopState Value},
      items.foldlM (showItem results totalValue percentColumn tables) s = some after →
      (∀ row ∈ s.rows, row.length = tables.viewInst.length + 1) →
      (items ≠ [] → ∀ inst ∈ tables.viewInst, inst.isSome) ∧
        ∀ row ∈ after.rows, row.length = tables.viewInst.length + 1 := by
  induction items with
  | nil =>
    intro s after ran before
    obtain rfl := Option.some.inj ran
    exact ⟨fun no => absurd rfl no, before⟩
  | cons item rest ih =>
    intro s after ran before
    rw [foldlM_cons] at ran
    obtain ⟨middle, shown, ran⟩ := bind_eq_some_iff.mp ran
    obtain ⟨placed, place, shown⟩ := bind_eq_some_iff.mp shown
    obtain ⟨summaryTemp, -, returned⟩ := bind_eq_some_iff.mp shown
    obtain rfl := Option.some.inj returned
    obtain ⟨pointers, length⟩ := placeColumns_length results totalValue percentColumn place
    refine ⟨fun _ => pointers, (ih ran ?_).2⟩
    dsimp only
    split
    · exact before
    · intro row member
      rcases List.mem_append.mp member with old | new
      · exact before row old
      · rw [List.mem_singleton.mp new, length_append, length, List.length_singleton]

theorem showItems_length {tables : Tables Value} {report : Report Value} (some_ : items ≠ [])
    (ran : showItems results totalValue percentColumn tables items = some report) :
    (∀ inst ∈ tables.viewInst, inst.isSome) ∧ (∀ row ∈ report.rows, row.length = tables.viewInst.length + 1) ∧
      ∀ ender ∈ report.ender, ender.length = tables.viewInst.length + 1 := by
  obtain ⟨s, looped, ran⟩ := bind_eq_some_iff.mp ran
  obtain ⟨pointers, rows⟩ := showItems_rows results totalValue percentColumn looped (by simp)
  refine ⟨pointers some_, ?_⟩
  split at ran
  · obtain ⟨ender, summarized, returned⟩ := bind_eq_some_iff.mp ran
    obtain rfl := Option.some.inj returned
    refine ⟨rows, fun found same => ?_⟩
    obtain rfl := Option.some.inj same
    obtain ⟨last, added, returned⟩ := bind_eq_some_iff.mp summarized
    obtain rfl := Option.some.inj returned
    have length := addEnder_length results totalValue percentColumn added fun column member =>
      pointers some_ column.1 (List.fst_mem_of_mem_zipIdx member)
    rw [length_append, length]
    simp
  · obtain rfl := Option.some.inj ran
    exact ⟨rows, nofun⟩

end

section

def columnEntry (temps : Nat) (vp : ViewInstruction Value) :
    CheckedVector.Entry (Option (ViewInstruction Value)) :=
  if displays vp.opCode = true ∧ keeps temps vp = true then some (vp.tmpResult, some vp) else none

variable {vp : ViewInstruction Value} {tables after : Tables Value}

theorem setColumn_viewInst (ran : tables.setColumn vp = some after) :
    CheckedVector.set tables.viewInst vp.tmpResult (some vp) = some after.viewInst := by
  obtain ⟨viewInst, wrote, rfl⟩ := map_eq_some_iff.mp ran
  exact wrote

theorem setAccumulate_viewInst {temp : Int} (ran : tables.setAccumulate temp vp = some after) :
    after.viewInst = tables.viewInst := by
  obtain ⟨accumulateInst, -, rfl⟩ := map_eq_some_iff.mp ran
  rfl

variable {temps : Nat}

theorem reformat_viewInst (ran : reformat temps tables vp = some after) :
    write tables.viewInst (columnEntry temps vp) = some after.viewInst := by
  cases opCode : vp.opCode
  all_goals
    simp only [reformat, opCode] at ran
    simp only [columnEntry, keeps, displays, opCode, true_and, decide_eq_true_eq,
      Bool.false_eq_true, false_and, and_false, if_false]
  case displayTmp =>
    split at ran
    · rename_i fits
      rw [if_pos fits]
      exact setColumn_viewInst ran
    · rename_i outside
      rw [if_neg outside, ← Option.some.inj ran]
      rfl
  case displayMetric | displayPercentColumn | displayPercentTmp | displayAverageTmp |
      displayFlopsTmp | displayRatioTmp | displayRatioPercentTmp |
      displayInverseRatioPercentTmp | displayStdDeviationTmp =>
    split at ran
    · rename_i fits
      rw [if_pos fits]
      exact setColumn_viewInst ran
    · rename_i outside
      rw [if_neg outside, ← Option.some.inj ran]
      rfl
  case add | min | max | expression =>
    split at ran
    · rw [← setAccumulate_viewInst ran]
      rfl
    · rw [← Option.some.inj ran]
      rfl
  all_goals
    rw [← Option.some.inj ran]
    rfl

variable {iv : List (ViewInstruction Value)}

theorem reformatAll_viewInst :
    ∀ {tables after : Tables Value}, iv.foldlM (reformat temps) tables = some after →
      writeAll (fun vp => some (columnEntry temps vp)) iv tables.viewInst = some after.viewInst :=
  writeAll_of_run _ reformat_viewInst

def accumulateEntry (temps : Nat) (vp : ViewInstruction Value) :
    CheckedVector.Entry (Option (ViewInstruction Value)) :=
  match vp.opCode with
  | .add | .min | .max => if vp.tmpIndex1 < temps then some (vp.tmpIndex1, some vp) else none
  | .expression =>
    if Tables.summarizes vp.expressionOp then some (vp.tmpResult, some vp) else none
  | _ => none

theorem setColumn_accumulateInst
    (ran : tables.setColumn vp = some after) : after.accumulateInst = tables.accumulateInst := by
  obtain ⟨viewInst, -, rfl⟩ := map_eq_some_iff.mp ran
  rfl

theorem setAccumulate_accumulateInst {temp : Int} (ran : tables.setAccumulate temp vp = some after) :
    CheckedVector.set tables.accumulateInst temp (some vp) = some after.accumulateInst := by
  obtain ⟨accumulateInst, wrote, rfl⟩ := map_eq_some_iff.mp ran
  exact wrote

theorem reformat_accumulateInst (ran : reformat temps tables vp = some after) :
    write tables.accumulateInst (accumulateEntry temps vp) = some after.accumulateInst := by
  cases opCode : vp.opCode
  all_goals
    simp only [reformat, opCode] at ran
    simp only [accumulateEntry, opCode]
  case add | min | max | expression =>
    split at ran
    · rename_i fits
      rw [if_pos fits]
      exact setAccumulate_accumulateInst ran
    · rename_i outside
      rw [if_neg outside, ← Option.some.inj ran]
      rfl
  case displayMetric | displayPercentColumn | displayPercentTmp | displayAverageTmp |
      displayFlopsTmp | displayRatioTmp | displayRatioPercentTmp | displayTmp |
      displayInverseRatioPercentTmp | displayStdDeviationTmp =>
    split at ran
    · rw [← setColumn_accumulateInst ran]
      rfl
    · rw [← Option.some.inj ran]
      rfl
  all_goals
    rw [← Option.some.inj ran]
    rfl

theorem reformatAll_accumulateInst :
    ∀ {tables after : Tables Value}, iv.foldlM (reformat temps) tables = some after →
      writeAll (fun vp => some (accumulateEntry temps vp)) iv tables.accumulateInst =
        some after.accumulateInst :=
  writeAll_of_run _ reformat_accumulateInst

variable (list : ColumnList Value)

theorem column_bounds (member : vp ∈ list.iv) (shown : displays vp.opCode = true) :
    ∃ column < list.count, vp.tmpResult = Int.ofNat column := by
  have among : vp.tmpResult ∈ (list.iv.filter fun vp => displays vp.opCode).map (·.tmpResult) :=
    List.mem_map_of_mem (mem_filter.mpr ⟨member, shown⟩)
  obtain ⟨column, inside, same⟩ := mem_map.mp (list.columns.mem_iff.mp among)
  exact ⟨column, mem_range.mp inside, same.symm⟩

structure Defines (column : Nat) (before : List (ViewInstruction Value))
    (vp : ViewInstruction Value) (behind : List (ViewInstruction Value)) : Prop where
  split : list.iv = before ++ vp :: behind
  shown : displays vp.opCode = true
  place : vp.tmpResult = Int.ofNat column
  before_other : ∀ other ∈ before, displays other.opCode = true → other.tmpResult ≠ Int.ofNat column
  behind_other : ∀ other ∈ behind, displays other.opCode = true → other.tmpResult ≠ Int.ofNat column

variable {column : Nat}

theorem column_defined (inside : column < list.count) :
    ∃ before vp behind, Defines list column before vp behind := by
  have among : Int.ofNat column ∈ (list.iv.filter fun vp => displays vp.opCode).map (·.tmpResult) :=
    list.columns.mem_iff.mpr (List.mem_map_of_mem (mem_range.mpr inside))
  obtain ⟨vp, member, place⟩ := mem_map.mp among
  obtain ⟨member, shown⟩ := mem_filter.mp member
  obtain ⟨before, behind, split⟩ := List.append_of_mem member
  have once : ((list.iv.filter fun vp => displays vp.opCode).map (·.tmpResult)).Nodup :=
    list.columns.nodup_iff.mpr (List.nodup_range.map fun _ _ => Int.ofNat.inj)
  rw [split, List.filter_append, List.filter_cons_of_pos (p := fun vp : ViewInstruction Value => displays vp.opCode) shown, List.map_append, map_cons,
    place, List.nodup_append, List.nodup_cons] at once
  obtain ⟨-, ⟨behindOnce, -⟩, apart⟩ := once
  refine ⟨before, vp, behind, split, shown, place, fun other among_ shown_ same => ?_,
    fun other among_ shown_ same => ?_⟩
  · refine apart _ (List.mem_map_of_mem (mem_filter.mpr ⟨among_, shown_⟩)) _ List.mem_cons_self same
  · exact behindOnce (mem_map.mpr ⟨other, mem_filter.mpr ⟨among_, shown_⟩, same⟩)

theorem Defines.findColumnDef {list : ColumnList Value} {before behind : List (ViewInstruction Value)}
    (defines : Defines list column before vp behind) : findColumnDef list.iv column = some vp := by
  have none_ : before.find? (fun vp => decide (vp.tmpResult = (column : Int) ∧
      displays vp.opCode = true)) = none := by
    refine List.find?_eq_none.mpr fun other member both => ?_
    obtain ⟨same, shown⟩ := of_decide_eq_true both
    exact defines.before_other other member shown same
  rw [ViewOutput.findColumnDef, defines.split, List.find?_append, none_, Option.none_or,
    List.find?_cons_of_pos]
  exact decide_eq_true ⟨defines.place, defines.shown⟩

theorem findColumnDef_past (past : list.count ≤ column) : findColumnDef list.iv column = none := by
  refine List.find?_eq_none.mpr fun vp member both => ?_
  obtain ⟨same, shown⟩ := of_decide_eq_true both
  obtain ⟨other, inside, place⟩ := column_bounds list member shown
  rw [place] at same
  have := Int.ofNat.inj same
  omega

theorem foldl_max_range (count : Nat) :
    ((List.range count).map Int.ofNat).foldl max (-1) = (count : Int) - 1 := by
  induction count with
  | zero => rfl
  | succ count ih =>
    rw [List.range_succ, List.map_append, List.foldl_append, ih, List.map_singleton,
      List.foldl_cons, List.foldl_nil]
    show max ((count : Int) - 1) (count : Int) = _
    omega

theorem findMaxColumnDef_eq : findMaxColumnDef list.iv = (list.count : Int) - 1 := by
  have body : (fun (maxColumn : Int) (vp : ViewInstruction Value) =>
      if displays vp.opCode = true ∧ maxColumn < vp.tmpResult then vp.tmpResult else maxColumn) =
      fun maxColumn vp => if displays vp.opCode then max maxColumn vp.tmpResult else maxColumn := by
    funext maxColumn vp
    by_cases shown : displays vp.opCode = true
    · simp only [shown, true_and, if_true]
      split <;> omega
    · simp [shown]
  have sorted : RightCommutative (max : Int → Int → Int) := ⟨fun a b c => by omega⟩
  rw [findMaxColumnDef, body, ← List.foldl_filter, ← List.foldl_map, list.columns.foldl_eq, foldl_max_range]

variable {tables : Tables Value}

section

variable (made : list.iv.foldlM (Tables.reformat temps) (Tables.start list.iv temps) = some tables)
include made

theorem viewInst_get (inside : column < list.count) :
    CheckedVector.get tables.viewInst column = some ((findColumnDef list.iv column).filter (keeps temps)) := by
  obtain ⟨before, vp, behind, defines⟩ := column_defined list inside
  have empty : CheckedVector.get (start list.iv temps).viewInst column = some none := by
    rw [start, findMaxColumnDef_eq, CheckedVector.get, if_pos (by omega),
      List.getElem?_replicate, if_pos (by omega)]
  have silent : ∀ {others : List (ViewInstruction Value)},
      (∀ other ∈ others, displays other.opCode = true → other.tmpResult ≠ Int.ofNat column) →
      others.filterMap (valueAt (fun vp => some (columnEntry temps vp)) column) = [] := by
    intro others elsewhere
    refine List.filterMap_eq_nil_iff.mpr fun other member => ?_
    rw [valueAt, join_some, columnEntry]
    split
    · rename_i entered
      exact if_neg (elsewhere other member entered.1)
    · rfl
  have own : valueAt (fun vp => some (columnEntry temps vp)) column vp =
      if keeps temps vp then some (some vp) else none := by
    rw [valueAt, join_some, columnEntry]
    cases keeps temps vp with
    | false => simp
    | true =>
      rw [if_pos ⟨defines.shown, rfl⟩]
      exact if_pos defines.place
  rw [CheckedVector.get_after_writeAll _ column (reformatAll_viewInst made), empty,
    defines.findColumnDef, defines.split, List.filterMap_append, silent defines.before_other,
    List.nil_append, List.filterMap_cons, own, silent defines.behind_other]
  rw [filter_some]
  cases keeps temps vp <;> rfl

theorem viewInst_eq : tables.viewInst = (List.range list.count).map fun column : Nat =>
      (findColumnDef list.iv column).filter (keeps temps) := by
  have length : tables.viewInst.length = list.count := by
    rw [CheckedVector.length_of_writeAll _ (reformatAll_viewInst made), start,
      findMaxColumnDef_eq, List.length_replicate]
    omega
  refine List.ext_getElem? fun column => ?_
  by_cases inside : column < list.count
  · have found := viewInst_get list made inside
    rw [CheckedVector.get, if_pos (by omega)] at found
    rw [List.getElem?_map, List.getElem?_range inside]
    exact found
  · rw [List.getElem?_eq_none (by omega), List.getElem?_eq_none (by simp; omega)]

end

theorem columnsFrom_eq : ∀ (count i : Nat), i ≤ list.count → list.count - i ≤ count →
    (columnsFrom list.iv count i).map some =
      (List.range' i (list.count - i)).map fun column : Nat => findColumnDef list.iv column := by
  intro count
  induction count with
  | zero =>
    intro i below enough
    rw [show list.count - i = 0 by omega]
    rfl
  | succ count ih =>
    intro i below enough
    rw [columnsFrom]
    by_cases last : i = list.count
    · rw [findColumnDef_past list (by omega), last, Nat.sub_self]
      rfl
    · obtain ⟨before, vp, behind, defines⟩ := column_defined list (by omega : i < list.count)
      rw [defines.findColumnDef, show list.count - i = list.count - (i + 1) + 1 by omega,
        List.range'_succ, map_cons, map_cons, defines.findColumnDef]
      rw [ih (i + 1) (by omega) (by omega)]

theorem count_le : list.count ≤ list.iv.length := by
  have length := list.columns.length_eq
  rw [length_map, length_map, List.length_range] at length
  rw [← length]
  exact List.length_filter_le _ _

theorem headerColumns_eq : (headerColumns list.iv).map some =
    (List.range list.count).map fun column : Nat => findColumnDef list.iv column := by
  rw [headerColumns, columnsFrom_eq list list.iv.length 0 (Nat.zero_le _) (count_le list),
    Nat.sub_zero, List.range_eq_range']

theorem headerColumns_length : (headerColumns list.iv).length = list.count := by
  have length := congrArg List.length (headerColumns_eq list)
  rwa [length_map, length_map, List.length_range] at length

theorem viewInst_complete_iff (made : list.iv.foldlM (reformat temps) (start list.iv temps) = some tables) :
    tables.viewInst = (headerColumns list.iv).map some ↔
      ∀ vp ∈ list.iv, displays vp.opCode = true → keeps temps vp = true := by
  rw [viewInst_eq list made, headerColumns_eq, List.map_inj_left]
  constructor
  · intro same vp member shown
    obtain ⟨column, inside, place⟩ := column_bounds list member shown
    obtain ⟨before, found, behind, defines⟩ := column_defined list inside
    have only : vp = found := by
      rw [defines.split] at member
      rcases List.mem_append.mp member with early | late
      · exact absurd place (defines.before_other vp early shown)
      · rcases List.mem_cons.mp late with rfl | late
        · rfl
        · exact absurd place (defines.behind_other vp late shown)
    have kept := same column (mem_range.mpr inside)
    rw [defines.findColumnDef, ← only] at kept
    by_contra lost
    rw [filter_some, if_neg lost] at kept
    cases kept
  · intro all column inside
    obtain ⟨before, vp, behind, defines⟩ := column_defined list (mem_range.mp inside)
    have member : vp ∈ list.iv := by rw [defines.split]; simp
    rw [defines.findColumnDef, filter_some, if_pos (all vp member defines.shown)]

end

section

variable (results : Results Number Value) (list : ColumnList Value)

/-- A view is put out as a rectangle: the header has one column for each definition, and the rows and the
summary have a place for each, with its own instruction. -/
structure Rectangular (hv : List String) (title : String) (totalValue : List (Option Value))
    (first : Item Value) (rest : List (Item Value)) : Prop where
  header : ∃ titles, headers list.iv hv title = some titles ∧ titles.length = list.count + 1
  instructions : ∃ tables, list.iv.foldlM (Tables.reformat first.temps.length)
      (Tables.start list.iv first.temps.length) = some tables ∧
    tables.viewInst = (headerColumns list.iv).map some
  report : ∃ report, constructViewOutput results list.iv totalValue (first :: rest) = some report ∧
    (∀ row ∈ report.rows, row.length = list.count + 1) ∧
    ∀ ender ∈ report.ender, ender.length = list.count + 1

def ValuesPresent (totalValue : List (Option Value)) (first : Item Value) (rest : List (Item Value)) : Prop :=
  ∃ tables, list.iv.foldlM (Tables.reformat first.temps.length)
      (Tables.start list.iv first.temps.length) = some tables ∧
    (showItems results totalValue (percentOfColumn list.iv totalValue)
      { tables with viewInst := (headerColumns list.iv).map some } (first :: rest)).isSome

theorem headers_length (hv : List String) (title : String) :
    (∃ titles, headers list.iv hv title = some titles ∧ titles.length = list.count + 1) ↔ 0 < list.count := by
  have length := headerColumns_length list
  rw [headerColumns] at length
  unfold headers
  dsimp only
  constructor
  · rintro ⟨titles, made, -⟩
    split at made
    · cases made
    · rename_i some_
      rw [← length]
      exact List.length_pos_iff.mpr some_
  · intro positive
    have some_ : columnsFrom list.iv list.iv.length 0 ≠ [] :=
      List.length_pos_iff.mp (by omega)
    rw [if_neg some_]
    exact ⟨_, rfl, by simp [length]⟩

end

def onNumbers (operation : Int → Int → Int) : Int ⊕ String → Int ⊕ String → Int ⊕ String
  | .inl a, .inl b => .inl (operation a b)
  | a, _ => a

def integersAndTexts : Results Int (Int ⊕ String) where
  ofInt := .inl
  ofFloat := .inl
  sameType a b := a.isLeft == b.isLeft
  accumulateValue := onNumbers (· + ·)
  accumulateMin := onNumbers min
  accumulateMax := onNumbers max
  calculateUminus _ := none
  calculateAbs _ := none
  calculateAdd _ _ := none
  calculateSub _ _ := none
  calculateMult _ _ := none
  calculateDiv _ _ := none
  calculateMod _ _ := none
  calculateMin _ _ := none
  calculateMax _ _ := none
  calculateSqrt _ := none
  calculateStdDev _ _ _ := none
  calculatePercent _ _ := none
  calculateCondexp _ _ _ := none
  convertToUint _ := none
  convertToInt _ := none
  convertToFloat _ := none
  calculateRatio _ _ := none
  valueIsNull value := value = .inl 0
  ofString := .inr
  calculateAverage _ _ := none
  calculateFlops _ _ := none
  calculateRatioPercent _ _ := none
  calculateInverseRatioPercent _ _ := none

def repeatedTime : ColumnList (Int ⊕ String) where
  iv := [.displayTmp 0 1, .displayTmp 1 1, .displayTmp 2 1]
  count := 3
  columns := by decide

def timeByThread : ColumnList (Int ⊕ String) where
  iv := [.displayTmp 0 1, ⟨.displayByThreadMetric, .error, 1, 0, 4, -1, none⟩]
  count := 2
  columns := by decide

def mainItem : Item (Int ⊕ String) :=
  ⟨.inr "main", [none, some (.inl 7)]⟩

end OpenSpeedShop.ViewOutput
