import OpenSpeedShop.Cli.CallStacks
import OpenSpeedShop.Cli.ViewTables

/-!
How the rows of a view get the value they are sorted by, and how rows without one are suppressed. A null
pointer that is looked into and a failed assertion end with `none`.
-/

namespace OpenSpeedShop.SetupSort

open MetricExpressions ViewOutput
open CallStacks (packVectorElements)
open Option (bind_eq_bind bind_some bind_eq_some_iff isSome_iff_exists)

variable {Number Value : Type}

def vMultiSortTemp : Int := 0

def readTemp (row : Row Value) (temp : Int) : Option (Option Value) := do
  let value ← CheckedVector.get row temp
  if temp = vMultiSortTemp ∧ value.isSome then none else some value

section

variable (results : Results Number Value) (totalValues : List (Option Value))
  (viewSuppressUnusedElements : Bool)

def suppressElement (item : Item Value) : Option (Option (Item Value)) := do
  let sortValue ← (CheckedVector.get item.temps vMultiSortTemp).join
  some (if results.valueIsNull sortValue then none else some item)

def suppressUnusedElements (items : List (Item Value)) : Option (List (Item Value)) := do
  let marked ← items.mapM (suppressElement results)
  if marked.any Option.isNone then some (packVectorElements marked.length marked)
  else some items

def setSortValue (newValue : Row Value → Option (Option Value)) (item : Item Value) : Option (Item Value) := do
  let _ ← CheckedVector.get item.temps vMultiSortTemp
  let value ← (newValue item.temps).join
  let temps ← CheckedVector.set item.temps vMultiSortTemp (some value)
  some { item with temps }

def setSortValues (newValue : Row Value → Option (Option Value)) (items : List (Item Value)) :
    Option (List (Item Value)) := do
  let items ← items.mapM (setSortValue newValue)
  if viewSuppressUnusedElements then suppressUnusedElements results items else some items

def copyTemp (tempIndex : Int) (row : Row Value) : Option (Option Value) :=
  (readTemp row tempIndex).join.map some

def setupSortTemp (tempIndex : Int) (items : List (Item Value)) : Option (List (Item Value)) :=
  if tempIndex = vMultiSortTemp then some items
  else setSortValues results viewSuppressUnusedElements (copyTemp tempIndex) items

def sortValue (vinst : ViewInstruction Value) (row : Row Value) : Option (Option Value) := do
  let V1 ← readTemp row vinst.tmpIndex1
  match vinst.opCode with
  | .displayTmp =>
    match V1 with
    | some value => some (some value)
    | none => CheckedVector.get totalValues vinst.tmpIndex1
  -- the value without the percentage, the order will be the same
  | .displayPercentTmp => V1.map some
  | .displayAverageTmp => do
      let value ← V1
      if results.valueIsNull value then some none
      else do
        let V2 ← readTemp row vinst.tmpIndex2
        some (results.calculateAverage (some value) V2)
  | .displayStdDeviationTmp => do
      let V2 ← readTemp row vinst.tmpIndex2
      let V3 ← readTemp row vinst.tmpIndex3
      some (results.calculateStdDev V1 V2 V3)
  | .displayFlopsTmp => do
      let V2 ← readTemp row vinst.tmpIndex2
      some (results.calculateFlops V1 V2)
  -- the two temps are read and nothing is calculated
  | .displayRatioTmp | .displayRatioPercentTmp | .displayInverseRatioPercentTmp => do
      let _ ← readTemp row vinst.tmpIndex2
      some none
  | .expression => do
      let V2 ← readTemp row vinst.tmpIndex2
      let V3 ← readTemp row vinst.tmpIndex3
      some (results.calculateExpression vinst.expressionOp V1 V2 V3)
  | _ => some none

def setupSort (vinst : ViewInstruction Value) (items : List (Item Value)) : Option (List (Item Value)) :=
  if vinst.opCode = .displayMetric ∨ vinst.opCode = .displayPercentColumn then some items
  else setSortValues results viewSuppressUnusedElements (sortValue results totalValues vinst) items

end

/-!
The sort of a view, for rows that have a value for each of their temps: every row gets a
sort value, only null values are suppressed, and the other temps stay as they are.
-/

open CallStacks (packVectorElements packVectorElements_eq)

structure ValuedItem (Value : Type) where
  id : Value
  sortTemp : Value
  others : List Value

namespace ValuedItem

def item (row : ValuedItem Value) : Item Value :=
  ⟨row.id, (row.sortTemp :: row.others).map some⟩

def other (row : ValuedItem Value) (temp : Int) : Option Value :=
  CheckedVector.get row.others (temp - 1)

theorem get_sortTemp (row : ValuedItem Value) :
    CheckedVector.get row.item.temps vMultiSortTemp = some (some row.sortTemp) :=
  rfl

theorem item_length (row : ValuedItem Value) : row.item.temps.length = row.others.length + 1 := by
  rw [item, List.length_map, List.length_cons]

theorem get_item (row : ValuedItem Value) (place : Nat) :
    CheckedVector.get row.item.temps ((place : Int) + 1) = (row.others[place]?).map some := by
  have next : ((place : Int) + 1).toNat = place + 1 := by omega
  rw [CheckedVector.get, if_pos (by omega), next, item, List.map_cons, List.getElem?_cons_succ,
    List.getElem?_map]

theorem readTemp_item (row : ValuedItem Value) (temp : Int) :
    readTemp row.item.temps temp = (row.other temp).map some := by
  rcases Int.lt_trichotomy temp 0 with negative | rfl | positive
  · rw [readTemp, other, CheckedVector.get_negative negative, CheckedVector.get_negative (by omega)]
    rfl
  · rfl
  · obtain ⟨place, rfl⟩ : ∃ place : Nat, temp = place + 1 := ⟨temp.toNat - 1, by omega⟩
    have used : ¬((place : Int) + 1 = vMultiSortTemp) := by
      rw [vMultiSortTemp]
      omega
    rw [readTemp, get_item, other, Int.add_sub_cancel, CheckedVector.get, if_pos (by omega), Int.toNat_natCast]
    cases row.others[place]? with
    | none => rfl
    | some value =>
      simp only [Option.map_some, bind_eq_bind, bind_some, used, false_and, if_false]

end ValuedItem

structure SortedRow (before after : Item Value) : Prop where
  id : after.id = before.id
  length : after.temps.length = before.temps.length
  sortTemp : ∃ value, CheckedVector.get after.temps vMultiSortTemp = some (some value)
  others : ∀ temp ≠ vMultiSortTemp, CheckedVector.get after.temps temp = CheckedVector.get before.temps temp

theorem SortedRow.refl {item : Item Value}
    (sortTemp : ∃ value, CheckedVector.get item.temps vMultiSortTemp = some (some value)) :
    SortedRow item item :=
  ⟨rfl, rfl, sortTemp, fun _ _ => rfl⟩

section

variable (results : Results Number Value) (totalValues : List (Option Value))
  (viewSuppressUnusedElements : Bool)

variable {newValue : Row Value → Option (Option Value)}

theorem setSortValue_sorted {before after : Item Value} (ran : setSortValue newValue before = some after) :
    SortedRow before after ∧ ∃ value, newValue before.temps = some (some value) := by
  obtain ⟨old, -, ran⟩ := bind_eq_some_iff.mp ran
  obtain ⟨value, made, ran⟩ := bind_eq_some_iff.mp ran
  obtain ⟨temps, wrote, returned⟩ := bind_eq_some_iff.mp ran
  obtain rfl := Option.some.inj returned
  refine ⟨⟨rfl, CheckedVector.length_of_set wrote, ⟨value, CheckedVector.get_written_same wrote⟩,
    fun temp other => CheckedVector.get_written_other wrote other⟩, value, ?_⟩
  exact Option.join_eq_some_iff.mp made

theorem setSortValue_of_value
    (row : ValuedItem Value) {value : Value} (made : newValue row.item.temps = some (some value)) :
    ∃ after, setSortValue newValue row.item = some after ∧ SortedRow row.item after := by
  have positive : vMultiSortTemp < row.item.temps.length := by
    rw [vMultiSortTemp, row.item_length]
    omega
  obtain ⟨after, ran⟩ : ∃ after, setSortValue newValue row.item = some after := by
    have wrote : CheckedVector.set row.item.temps vMultiSortTemp (some value) = some _ :=
      CheckedVector.set_eq_some (Int.le_refl vMultiSortTemp) positive
    simp only [setSortValue, row.get_sortTemp, made, bind_eq_bind, bind_some,
      Option.join_some, wrote]
    exact ⟨_, rfl⟩
  exact ⟨after, ran, (setSortValue_sorted ran).1⟩

def isUsed (item : Item Value) : Bool :=
  ((CheckedVector.get item.temps vMultiSortTemp).join).any fun sortValue =>
    !results.valueIsNull sortValue

theorem suppressUnusedElements_eq {items : List (Item Value)}
    (sorted : ∀ item ∈ items, ∃ value, CheckedVector.get item.temps vMultiSortTemp = some (some value)) :
    suppressUnusedElements results items = some (items.filter (isUsed results)) := by
  have marks : items.mapM (suppressElement results) = some (items.map (Option.guard (isUsed results))) := by
    refine Fallible.mapM_eq_some fun item member => ?_
    obtain ⟨value, found⟩ := sorted item member
    rw [suppressElement, Option.guard, isUsed, found]
    cases null : results.valueIsNull value <;> simp [null]
  rw [suppressUnusedElements, marks]
  dsimp only [bind_eq_bind, bind_some]
  split
  · rw [packVectorElements_eq _ (Nat.le_refl _), List.filterMap_map, Function.id_comp,
      List.filterMap_eq_filter]
  · rename_i kept
    have all : ∀ item ∈ items, isUsed results item = true := by
      intro item member
      by_contra unused
      refine kept (List.any_eq_true.mpr ⟨none, List.mem_map.mpr ⟨item, member, ?_⟩, rfl⟩)
      rw [Option.guard, if_neg unused]
    rw [List.filter_eq_self.mpr all]

def kept (items : List (Item Value)) : List (Item Value) :=
  if viewSuppressUnusedElements then items.filter (isUsed results) else items

/-- The sort ends, with a sort value for every row, the same other temps, and the rows with
a value that is null and no others taken out. -/
def SortCorrect (sort : List (Item Value) → Option (List (Item Value))) (items : List (Item Value)) : Prop :=
  ∃ rows, List.Forall₂ SortedRow items rows ∧ sort items = some (kept results viewSuppressUnusedElements rows)

theorem setSortValues_eq
    {items rows : List (Item Value)} (ran : items.mapM (setSortValue newValue) = some rows) :
    setSortValues results viewSuppressUnusedElements newValue items =
      some (kept results viewSuppressUnusedElements rows) := by
  have sorted : ∀ row ∈ rows, ∃ value, CheckedVector.get row.temps vMultiSortTemp = some (some value) := by
    intro row member
    obtain ⟨item, -, set⟩ := Fallible.mem_of_mapM ran row member
    exact (setSortValue_sorted set).1.sortTemp
  rw [setSortValues, ran, kept]
  cases viewSuppressUnusedElements with
  | false => rfl
  | true => exact suppressUnusedElements_eq results sorted

theorem setSortValues_correct_iff (items : List (ValuedItem Value)) :
    SortCorrect results viewSuppressUnusedElements
        (setSortValues results viewSuppressUnusedElements newValue) (items.map ValuedItem.item) ↔
      ∀ row ∈ items, ∃ value, newValue row.item.temps = some (some value) := by
  constructor
  · rintro ⟨rows, -, ran⟩ row member
    obtain ⟨set, ran, -⟩ := bind_eq_some_iff.mp ran
    obtain ⟨after, -, here⟩ := Fallible.value_of_mapM ran row.item (List.mem_map_of_mem member)
    exact (setSortValue_sorted here).2
  · intro made
    have each : ∀ item ∈ items.map ValuedItem.item, ∃ after,
        setSortValue newValue item = some after ∧ SortedRow item after := by
      refine List.forall_mem_map.mpr fun row member => ?_
      obtain ⟨value, here⟩ := made row member
      exact setSortValue_of_value row here
    obtain ⟨rows, ran, sorted⟩ := Fallible.mapM_forall₂.mpr each
    exact ⟨rows, sorted, setSortValues_eq results viewSuppressUnusedElements ran⟩

/-- A row has the temps that a column is calculated from, beside the sort value, and the
calculation has a result. Nothing is calculated for ratios and for a reduction by thread. -/
def Sortable (vinst : ViewInstruction Value) (row : ValuedItem Value) : Prop :=
  match vinst.opCode with
  | .displayTmp | .displayPercentTmp => (row.other vinst.tmpIndex1).isSome
  | .displayAverageTmp => ∃ V1 V2, row.other vinst.tmpIndex1 = some V1 ∧
      row.other vinst.tmpIndex2 = some V2 ∧ results.valueIsNull V1 = false ∧
      (results.calculateAverage (some V1) (some V2)).isSome
  | .displayStdDeviationTmp => ∃ V1 V2 V3, row.other vinst.tmpIndex1 = some V1 ∧
      row.other vinst.tmpIndex2 = some V2 ∧ row.other vinst.tmpIndex3 = some V3 ∧
      (results.calculateStdDev (some V1) (some V2) (some V3)).isSome
  | .displayFlopsTmp => ∃ V1 V2, row.other vinst.tmpIndex1 = some V1 ∧
      row.other vinst.tmpIndex2 = some V2 ∧ (results.calculateFlops (some V1) (some V2)).isSome
  | _ => False

def SortHolds (vinst : ViewInstruction Value) (items : List (ValuedItem Value)) : Prop :=
  if vinst.opCode = .displayMetric ∨ vinst.opCode = .displayPercentColumn then
    viewSuppressUnusedElements = true → ∀ row ∈ items, results.valueIsNull row.sortTemp = false
  else ∀ row ∈ items, Sortable results vinst row

theorem sortValue_iff {vinst : ViewInstruction Value} (shown : displays vinst.opCode = true)
    (row : ValuedItem Value) :
    (∃ value, sortValue results totalValues vinst row.item.temps = some (some value)) ↔
      Sortable results vinst row := by
  cases opCode : vinst.opCode
  all_goals
    simp only [sortValue, Sortable, opCode, row.readTemp_item, bind_eq_bind]
  case expression =>
    rw [opCode] at shown
    cases shown
  case displayTmp | displayPercentTmp =>
    cases row.other vinst.tmpIndex1 <;> simp
  case displayAverageTmp =>
    cases row.other vinst.tmpIndex1 with
    | none => simp
    | some V1 =>
      cases null : results.valueIsNull V1 with
      | true => simp [null]
      | false =>
        cases row.other vinst.tmpIndex2 <;> simp [null, isSome_iff_exists]
  case displayStdDeviationTmp =>
    cases row.other vinst.tmpIndex1 <;> cases row.other vinst.tmpIndex2 <;>
      cases row.other vinst.tmpIndex3 <;> simp [isSome_iff_exists]
  case displayFlopsTmp =>
    cases row.other vinst.tmpIndex1 <;> cases row.other vinst.tmpIndex2 <;>
      simp [isSome_iff_exists]
  case displayRatioTmp | displayRatioPercentTmp | displayInverseRatioPercentTmp =>
    cases row.other vinst.tmpIndex1 <;> cases row.other vinst.tmpIndex2 <;> simp
  all_goals
    cases row.other vinst.tmpIndex1 <;> simp

theorem setupSort_correct_iff {iv : List (ViewInstruction Value)} {vinst : ViewInstruction Value}
    (defined : findColumnDef iv 0 = some vinst) (items : List (ValuedItem Value)) :
    SortCorrect results viewSuppressUnusedElements
        (setupSort results totalValues viewSuppressUnusedElements vinst)
        (items.map ValuedItem.item) ↔
      SortHolds results viewSuppressUnusedElements vinst items := by
  have shown : displays vinst.opCode = true := by
    have found := List.find?_some defined
    exact (of_decide_eq_true found).2
  unfold SortHolds setupSort
  split
  · constructor
    · rintro ⟨rows, sorted, same⟩ suppress row member
      rw [kept, if_pos suppress, Option.some.injEq] at same
      have all : rows.filter (isUsed results) = rows := by
        refine List.filter_sublist.eq_of_length ?_
        rw [← same, sorted.length_eq]
      rw [all] at same
      have used := List.filter_eq_self.mp all row.item (by
        rw [← same]
        exact List.mem_map_of_mem member)
      rw [isUsed, row.get_sortTemp] at used
      simpa using used
    · intro used
      refine ⟨items.map ValuedItem.item, ?_, congrArg some ?_⟩
      · refine List.forall₂_same.mpr (List.forall_mem_map.mpr fun row _ => ?_)
        exact .refl ⟨row.sortTemp, row.get_sortTemp⟩
      · rw [kept]
        split
        · rename_i suppress
          refine (List.filter_eq_self.mpr (List.forall_mem_map.mpr fun row member => ?_)).symm
          rw [isUsed, row.get_sortTemp, Option.join_some, Option.any_some, used suppress row member]
          rfl
        · rfl
  · rw [setSortValues_correct_iff]
    exact forall₂_congr fun row _ => sortValue_iff results totalValues shown row

end

def quotient : Option (Int ⊕ String) → Option (Int ⊕ String) → Option (Int ⊕ String)
  | some (.inl a), some (.inl b) => if b = 0 then none else some (.inl (a / b))
  | _, _ => none

def integerQuotients : Results Int (Int ⊕ String) :=
  { integersAndTexts with calculateAverage := quotient, calculateRatio := quotient }

def firstColumn (opCode : ViewOpCode) (temp1 temp2 : Int) : ViewInstruction (Int ⊕ String) :=
  ⟨opCode, .error, 0, temp1, temp2, -1, none⟩

def mainRow (time count : Int) : ValuedItem (Int ⊕ String) :=
  ⟨.inr "main", .inl 0, [.inl time, .inl count]⟩

theorem setupSort_correct_iff_average :
    SortCorrect integerQuotients true
      (setupSort integerQuotients [] true (firstColumn .displayAverageTmp 1 2))
      ([mainRow 6 2, mainRow 1 3].map ValuedItem.item) := by
  refine (setupSort_correct_iff integerQuotients [] true
    (rfl : findColumnDef [firstColumn .displayAverageTmp 1 2] 0 = some _) _).mpr ?_
  intro row member
  rcases List.mem_pair.mp member with rfl | rfl
  · exact ⟨.inl 6, .inl 2, rfl, rfl, rfl, rfl⟩
  · exact ⟨.inl 1, .inl 3, rfl, rfl, rfl, rfl⟩

theorem sorts_not_correct :
    (∀ vinst row, (vinst, row) ∈ [(firstColumn .displayRatioTmp 1 2, mainRow 6 2),
        (firstColumn .displayByThreadMetric 1 2, mainRow 6 2),
        (firstColumn .displayAverageTmp 1 2, mainRow 0 2),
        (firstColumn .displayAverageTmp 1 2, mainRow 6 0),
        (firstColumn .displayTmp 0 (-1), mainRow 6 2)] →
      findColumnDef [vinst] 0 = some vinst ∧
        setupSort integerQuotients [] true vinst [row.item] = none ∧
        ¬SortCorrect integerQuotients true (setupSort integerQuotients [] true vinst) [row.item]) ∧
    setupSort integerQuotients [] true (firstColumn .displayMetric 0 (-1)) [(mainRow 6 2).item] =
        some [(mainRow 6 2).item] ∧
      ¬SortCorrect integerQuotients true
        (setupSort integerQuotients [] true (firstColumn .displayMetric 0 (-1)))
        [(mainRow 6 2).item] := by
  refine ⟨fun vinst row member => ?_, rfl, ?_⟩
  · have stops : findColumnDef [vinst] 0 = some vinst ∧
        setupSort integerQuotients [] true vinst [row.item] = none := by
      simp only [List.mem_cons, List.not_mem_nil, or_false, Prod.mk.injEq] at member
      rcases member with ⟨rfl, rfl⟩ | ⟨rfl, rfl⟩ | ⟨rfl, rfl⟩ | ⟨rfl, rfl⟩ | ⟨rfl, rfl⟩ <;>
        exact ⟨rfl, rfl⟩
    refine ⟨stops.1, stops.2, ?_⟩
    rintro ⟨rows, -, ran⟩
    rw [stops.2] at ran
    cases ran
  · rintro ⟨rows, sorted, same⟩
    rw [kept, if_pos rfl] at same
    have used : isUsed integerQuotients (mainRow 6 2).item = true := by
      have member : (mainRow 6 2).item ∈ rows.filter (isUsed integerQuotients) := by
        rw [← Option.some.inj same]
        exact List.mem_singleton_self _
      exact (List.mem_filter.mp member).2
    cases used

end OpenSpeedShop.SetupSort
