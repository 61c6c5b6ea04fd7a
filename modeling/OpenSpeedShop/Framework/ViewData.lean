import OpenSpeedShop.Framework.SavedViews
import OpenSpeedShop.Library.CString
import Mathlib.Data.List.ReduceOption

/-!
The data of a saved view: a file is copied block by block into the row of its command, and
read from there.
-/

namespace OpenSpeedShop.SavedViews

open CString

def ViewRow.asRead (row : ViewRow) : ViewRow :=
  { row with
    viewCmd := row.viewCmd.map (upToNul '\x00')
    viewData := row.viewData.map (upToNul 0) }

def nextId (rows : List ViewRow) : Int :=
  rows.foldl (fun last row => max last row.id) 0 + 1

def setDatabaseViewHeader (rows : List ViewRow) (viewCmdArg : List Char) : List ViewRow :=
  if searchForViewCommandHeaderMatch (rows.map ViewRow.asRead) viewCmdArg true < 0 then
    rows ++ [⟨nextId rows, some viewCmdArg, none⟩]
  else rows

def copyBufferSize : Nat := 4096

/-- The loop over the blocks of the file: the string is ended behind the last block, unless
that is a whole one. -/
def copyBlocks (file : List UInt8) (headerLength : Nat) (pstrTemp : List UInt8) : List UInt8 :=
  if file = [] then pstrTemp
  else if whole : copyBufferSize ≤ file.length then
    copyBlocks (file.drop copyBufferSize) 0 (pstrTemp ++ (file.take copyBufferSize).drop headerLength)
  else pstrTemp ++ file.drop headerLength ++ [0]
termination_by file.length
decreasing_by
  rw [copyBufferSize] at whole ⊢
  rw [List.length_drop]
  omega

/-- `view_cmd = ? AND id = ?` -/
def isEntry (idOfMatch : Int) (viewCmdArg : List Char) (row : ViewRow) : Sql.Truth :=
  Sql.both (Sql.equal (some row.id) (some idOfMatch)) (Sql.equal row.viewCmd (some viewCmdArg))

def addViewCommandAndDataEntries (rows : List ViewRow) (viewCmdArg : List Char)
    (file : List UInt8) (viewFileHeaderOffset : Nat) : Bool × List ViewRow :=
  let rows := setDatabaseViewHeader rows viewCmdArg
  let pstr := upToNul 0 (copyBlocks file viewFileHeaderOffset [])
  match (rows.map ViewRow.asRead).find? (headerMatches viewCmdArg true) with
  | none => (false, rows)
  | some found =>
    if found.id > 0 then
      (true, Sql.update (isEntry found.id viewCmdArg) (fun row => { row with viewData := some pstr }) rows)
    else (true, rows)

def getViewFromExistingCommandEntry (rows : List ViewRow) (viewCmdArg : List Char)
    (returnedViewData : List UInt8) : Bool × List UInt8 :=
  match (rows.map ViewRow.asRead).find? (headerMatches viewCmdArg true) with
  | none => (false, returnedViewData)
  | some found =>
    if found.id > 0 then
      let selected := (Sql.select (isEntry found.id viewCmdArg) rows).map fun row =>
        row.asRead.viewData
      if none ∈ selected then (false, returnedViewData)
      else (true, upToNul 0 (selected.reduceOption.getLastD []))
    else (true, returnedViewData)

theorem upToNul_copyBlocks (file : List UInt8) (headerLength : Nat) (pstrTemp : List UInt8) :
    upToNul 0 (copyBlocks file headerLength pstrTemp) = upToNul 0 (pstrTemp ++
      ((file.take copyBufferSize).drop headerLength ++ file.drop copyBufferSize)) := by
  induction file, headerLength, pstrTemp using copyBlocks.induct with
  | case1 headerLength pstrTemp => simp [copyBlocks]
  | case2 file headerLength pstrTemp some_ whole ih =>
    rw [copyBlocks, if_neg some_, dif_pos whole, ih, List.drop_zero, List.take_append_drop, List.append_assoc]
  | case3 file headerLength pstrTemp some_ part =>
    have short : file.length ≤ copyBufferSize := by omega
    rw [copyBlocks, if_neg some_, dif_neg part, upToNul_ended, List.take_of_length_le short,
      List.drop_eq_nil_of_le short, List.append_nil]

theorem copied_in_block {file : List UInt8} {header : Nat} (inside : header ≤ file.length)
    (first : header ≤ copyBufferSize) :
    (file.take copyBufferSize).drop header ++ file.drop copyBufferSize = file.drop header := by
  have bound : header ≤ (file.take copyBufferSize).length := by
    rw [List.length_take]
    omega
  rw [← List.drop_append_of_le_length bound, List.take_append_drop]

theorem copied_past_block {file : List UInt8} {header : Nat} (past : copyBufferSize < header) :
    (file.take copyBufferSize).drop header ++ file.drop copyBufferSize = file.drop copyBufferSize := by
  have empty : (file.take copyBufferSize).drop header = [] := by
    refine List.drop_eq_nil_of_le ?_
    rw [List.length_take]
    omega
  rw [empty, List.nil_append]

structure ViewCommand where
  chars : List Char
  string : '\x00' ∉ chars

structure CommandViews extends Views where
  strings : ∀ row ∈ rows, ∀ command ∈ row.viewCmd, '\x00' ∉ command
  room : ∀ row ∈ rows, row.id + 1 < 2 ^ 31

section

variable {rows : List ViewRow}

theorem lt_nextId : 0 < nextId rows ∧ ∀ row ∈ rows, row.id < nextId rows := by
  have below : ∀ (others : List ViewRow) (start : Int),
      start ≤ others.foldl (fun last row => max last row.id) start ∧
        ∀ row ∈ others, row.id ≤ others.foldl (fun last row => max last row.id) start := by
    intro others
    induction others with
    | nil => simp
    | cons first rest ih =>
      intro start
      obtain ⟨here, there⟩ := ih (max start first.id)
      rw [List.foldl_cons, List.forall_mem_cons]
      exact ⟨by omega, by omega, there⟩
  obtain ⟨start, last⟩ := below rows 0
  rw [nextId]
  exact ⟨by omega, fun row member => by have known := last row member; omega⟩

theorem isEntry_iff {row : ViewRow} {id : Int} {command : List Char} :
    isEntry id command row = some true ↔ row.id = id ∧ row.viewCmd = some command := by
  rw [isEntry, Sql.both_eq_true, Sql.equal_eq_true, Sql.equal_eq_true]
  constructor
  · rintro ⟨⟨_, same⟩, _, text⟩
    exact ⟨Option.some.inj same, text⟩
  · rintro ⟨same, text⟩
    exact ⟨⟨rfl, congrArg some same⟩, by simp [text], text⟩

theorem select_isEntry (distinct : (rows.map ViewRow.id).Nodup) {row : ViewRow} {command : List Char}
    (member : row ∈ rows) (own : row.viewCmd = some command) :
    Sql.select (isEntry row.id command) rows = [row] := by
  refine (List.filter_congr fun other among => ?_).trans (Sql.filter_key distinct member)
  refine decide_eq_decide.mpr (isEntry_iff.trans ⟨And.left, fun same => ⟨same, ?_⟩⟩)
  rw [List.inj_on_of_nodup_map distinct among member same, own]

end

structure Entry (rows : List ViewRow) (command : List Char) (row : ViewRow) : Prop where
  distinct : (rows.map ViewRow.id).Nodup
  positive : 0 < row.id
  own : row.viewCmd = some command
  first : rows.find? (fun other => headerMatches command true other.asRead) = some row

namespace Entry

variable {rows : List ViewRow} {command : List Char} {row : ViewRow}

section

variable (entry : Entry rows command row)
include entry

theorem find_asRead : (rows.map ViewRow.asRead).find? (headerMatches command true) = some row.asRead := by
  rw [List.find?_map]
  exact congrArg (Option.map ViewRow.asRead) entry.first

theorem select : Sql.select (isEntry row.id command) rows = [row] :=
  select_isEntry entry.distinct (List.mem_of_find?_eq_some entry.first) entry.own

theorem update (pstr : List UInt8) :
    Entry (Sql.update (isEntry row.id command) (fun row => { row with viewData := some pstr }) rows)
      command { row with viewData := some pstr } := by
  have found := isEntry_iff.mpr ⟨rfl, entry.own⟩
  refine ⟨?_, entry.positive, entry.own, ?_⟩
  · have same : (Sql.update (isEntry row.id command)
        (fun row => { row with viewData := some pstr }) rows).map ViewRow.id = rows.map ViewRow.id := by
      rw [Sql.update, List.map_map]
      refine List.map_congr_left fun other _ => ?_
      rw [Function.comp_apply]
      split <;> rfl
    rw [same]
    exact entry.distinct
  · have same : ((fun other : ViewRow => headerMatches command true other.asRead) ∘ fun other =>
        if isEntry row.id command other = some true then { other with viewData := some pstr }
        else other) = fun other => headerMatches command true other.asRead := by
      funext other
      rw [Function.comp_apply]
      split <;> rfl
    rw [Sql.update, List.find?_map, same, entry.first, Option.map_some, if_pos found]

theorem get {data : List UInt8} (known : row.viewData = some data) (returnedViewData : List UInt8) :
    getViewFromExistingCommandEntry rows command returnedViewData = (true, upToNul 0 data) := by
  rw [getViewFromExistingCommandEntry, entry.find_asRead]
  refine (if_pos entry.positive).trans ?_
  have selected : (Sql.select (isEntry row.asRead.id command) rows).map
      (fun row => row.asRead.viewData) = [some (upToNul 0 data)] := by
    refine (congrArg _ entry.select).trans ?_
    rw [List.map_singleton, ViewRow.asRead, known, Option.map_some]
  rw [selected, if_neg (by simp), List.reduceOption_cons_of_some, List.reduceOption_nil,
    List.getLastD_cons, List.getLastD_nil, upToNul_twice]

end

end Entry

def others (command : List Char) (rows : List ViewRow) : List ViewRow :=
  rows.filter fun row => row.viewCmd ≠ some command

theorem headerMatches_asRead (views : CommandViews) (command : List Char) :
    ∀ row ∈ views.rows, headerMatches command true row.asRead = true ↔ row.viewCmd = some command := by
  intro row member
  have strings := views.strings row member
  rw [headerMatches, ViewRow.asRead]
  cases known : row.viewCmd with
  | none => simp
  | some text => simp [upToNul_eq (strings text known)]

theorem setDatabaseViewHeader_spec (views : CommandViews) (command : ViewCommand) :
    (∃ row, Entry (setDatabaseViewHeader views.rows command.chars) command.chars row) ∧
      others command.chars (setDatabaseViewHeader views.rows command.chars) =
        others command.chars views.rows := by
  have same := headerMatches_asRead views command.chars
  rw [setDatabaseViewHeader, searchForViewCommandHeaderMatch, List.find?_map]
  cases found : views.rows.find? (headerMatches command.chars true ∘ ViewRow.asRead) with
  | none =>
    have new : headerMatches command.chars true
        (ViewRow.asRead ⟨nextId views.rows, some command.chars, none⟩) = true := by
      simp [headerMatches, ViewRow.asRead, upToNul_eq command.string]
    have key := @lt_nextId views.rows
    rw [Option.map_none, if_pos (by decide)]
    refine ⟨⟨⟨nextId views.rows, some command.chars, none⟩, ?_, key.1, rfl, ?_⟩, by simp [others]⟩
    · rw [List.map_append, List.map_singleton, ← List.concat_eq_append, List.nodup_concat]
      refine ⟨fun member => ?_, views.distinct⟩
      obtain ⟨row, among, last⟩ := List.mem_map.mp member
      exact absurd last (Int.ne_of_lt (key.2 row among))
    · refine List.find?_append.trans ((Option.or_eq_right_of_none found).trans ?_)
      exact List.find?_cons_of_pos new
  | some row =>
    have member := List.mem_of_find?_eq_some found
    have positive := views.positive row member
    rw [Option.map_some]
    refine (if_neg (Int.not_lt.mpr (Int.le_of_lt positive))).symm ▸ ⟨⟨row, ?_⟩, rfl⟩
    have matched : headerMatches command.chars true row.asRead = true :=
      List.find?_some (p := headerMatches command.chars true ∘ ViewRow.asRead) found
    exact ⟨views.distinct, positive, (same row member).mp matched, found⟩

theorem addViewCommandAndDataEntries_spec (views : CommandViews) (command : ViewCommand)
    (file returnedViewData : List UInt8) (header : Nat) :
    let added := addViewCommandAndDataEntries views.rows command.chars file header
    added.1 = true ∧
      getViewFromExistingCommandEntry added.2 command.chars returnedViewData =
        (true, upToNul 0 ((file.take copyBufferSize).drop header ++ file.drop copyBufferSize)) ∧
      others command.chars added.2 = others command.chars views.rows := by
  obtain ⟨⟨row, entry⟩, frame⟩ := setDatabaseViewHeader_spec views command
  have positive : row.asRead.id > 0 := entry.positive
  rw [addViewCommandAndDataEntries, entry.find_asRead]
  simp only [if_pos positive, true_and]
  refine ⟨?_, ?_⟩
  · refine ((entry.update _).get rfl _).trans ?_
    rw [upToNul_twice, upToNul_copyBlocks, List.nil_append]
  · refine (Sql.filter_update (fun other found => ?_) _).trans frame
    have own := (isEntry_iff.mp found).2
    exact ⟨by simp [own], by simp [own]⟩

/-- The bytes behind the header come back exactly when the header is within the first block, or when those
behind that block begin with a copy of them. -/
theorem viewData_round_trip_iff (views : CommandViews) (command : ViewCommand)
    (file returnedViewData : List UInt8) {header : Nat} (inside : header ≤ file.length)
    (string : 0 ∉ file.drop header) :
    ((addViewCommandAndDataEntries views.rows command.chars file header).1 = true ∧
      getViewFromExistingCommandEntry
        (addViewCommandAndDataEntries views.rows command.chars file header).2 command.chars
          returnedViewData = (true, file.drop header) ∧
      others command.chars (addViewCommandAndDataEntries views.rows command.chars file header).2 =
        others command.chars views.rows) ↔
      header ≤ copyBufferSize ∨ file.drop header ++ [0] <+: file.drop copyBufferSize := by
  obtain ⟨added, read, frame⟩ :=
    addViewCommandAndDataEntries_spec views command file returnedViewData header
  have exactly : ∀ data : List UInt8, (true, data) = (true, file.drop header) ↔
      data = file.drop header := fun data => by simp
  simp only [added, read, frame, true_and, and_true, exactly]
  by_cases first : header ≤ copyBufferSize
  · simp only [first, true_or, iff_true]
    rw [copied_in_block inside first, upToNul_eq string]
  · have past : copyBufferSize < header := Nat.lt_of_not_le first
    have longer : file.drop copyBufferSize ≠ file.drop header := by
      intro same
      have lengths := congrArg List.length same
      rw [List.length_drop, List.length_drop] at lengths
      omega
    rw [copied_past_block past, upToNul_eq_iff string]
    simp only [longer, first, false_or]

def threeViews : CommandViews where
  rows := [⟨1, none, none⟩, ⟨2, some ['e', 'x', 'p'], some [1]⟩, ⟨3, some cview, some [2]⟩]
  distinct := by decide
  positive := by decide
  small := by decide
  strings := by decide
  room := by decide

def expViewCommand : ViewCommand := ⟨['e', 'x', 'p'], by decide⟩

theorem viewData_round_trip_short :
    (addViewCommandAndDataEntries threeViews.rows expViewCommand.chars [7, 0, 8, 9] 2).1 = true ∧
      getViewFromExistingCommandEntry
        (addViewCommandAndDataEntries threeViews.rows expViewCommand.chars [7, 0, 8, 9] 2).2
          expViewCommand.chars [] = (true, [8, 9]) ∧
      others expViewCommand.chars
        (addViewCommandAndDataEntries threeViews.rows expViewCommand.chars [7, 0, 8, 9] 2).2 =
        others expViewCommand.chars threeViews.rows :=
  (viewData_round_trip_iff threeViews expViewCommand [7, 0, 8, 9] [] (by decide) (by decide)).mpr
    (.inl (by decide))

theorem viewData_long_header : ∃ file : List UInt8, ∃ header : Nat,
    header ≤ file.length ∧ 0 ∉ file.drop header ∧
      getViewFromExistingCommandEntry
        (addViewCommandAndDataEntries threeViews.rows expViewCommand.chars file header).2
          expViewCommand.chars [] ≠ (true, file.drop header) := by
  have size : (List.replicate copyBufferSize (97 : UInt8) ++ [97]).length = copyBufferSize + 1 := by
    rw [List.length_append, List.length_replicate, List.length_singleton]
  have none := List.drop_of_length_le (Nat.le_of_eq size)
  obtain ⟨_, read, _⟩ := addViewCommandAndDataEntries_spec threeViews expViewCommand
    (List.replicate copyBufferSize 97 ++ [97]) [] (copyBufferSize + 1)
  refine ⟨List.replicate copyBufferSize 97 ++ [97], copyBufferSize + 1, Nat.le_of_eq size.symm, ?_, ?_⟩
  · rw [none]
    exact List.not_mem_nil
  rw [read, none, copied_past_block (Nat.lt_succ_self _), List.drop_left' List.length_replicate]
  decide

end OpenSpeedShop.SavedViews
