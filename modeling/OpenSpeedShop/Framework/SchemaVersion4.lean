import OpenSpeedShop.Framework.AddressBitmapContents
import OpenSpeedShop.Framework.ThreadLookup
import OpenSpeedShop.Library.Sql

/-!
The update of a database to version 4 of the schema, in which the address ranges of the
functions have a table of their own, with bitmaps.
-/

namespace OpenSpeedShop

open Fallible

structure OldFunctionRow where
  id : Int32
  linkedObject : Int32
  addrBegin : Int64
  addrEnd : Int64
  name : String
deriving DecidableEq

structure FunctionRangeRow where
  function : Int32
  addrBegin : Int64
  addrEnd : Int64
  validBitmap : Option (List UInt8)
deriving DecidableEq

namespace OldFunctionRow

def range (row : OldFunctionRow) : AddressRange :=
  ⟨OffsetBinary.decode row.addrBegin, OffsetBinary.decode row.addrEnd⟩

/-- `INSERT INTO Functions SELECT id, linked_object, name FROM OldFunctions;` -/
def function (row : OldFunctionRow) : ObjectRow String := ⟨row.id.toInt, row.linkedObject, row.name⟩

/-- `INSERT INTO FunctionRanges SELECT id, addr_begin, addr_end FROM OldFunctions;` -/
def functionRange (row : OldFunctionRow) : FunctionRangeRow :=
  ⟨row.id, row.addrBegin, row.addrEnd, none⟩

end OldFunctionRow

namespace FunctionRangeRow

/-- `WHERE function = ? AND addr_begin = ? AND addr_end = ?` -/
def isRange (row other : FunctionRangeRow) : Sql.Truth :=
  Sql.both (Sql.equal (some other.function) (some row.function))
    (Sql.both (Sql.equal (some other.addrBegin) (some row.addrBegin))
      (Sql.equal (some other.addrEnd) (some row.addrEnd)))

def range (row : FunctionRangeRow) : AddressRange :=
  ⟨OffsetBinary.decode row.addrBegin, OffsetBinary.decode row.addrEnd⟩

def validBlob (row : FunctionRangeRow) : Result (List UInt8) := do
  let range : AddressRange ← Interval.make row.range.dmBegin row.range.dmEnd
  let validBitmap ← (AddressRange.addresses range).foldlM
    (fun bitmap addr => AddressBitmap.setValue bitmap addr true) (AddressBitmap.ofRange range)
  AddressBitmap.getBlob validBitmap

def setValidBitmap (rows : List FunctionRangeRow) (row : FunctionRangeRow) :
    Result (List FunctionRangeRow) := do
  let blob ← row.validBlob
  return Sql.update row.isRange (fun other => { other with validBitmap := some blob }) rows

def asRead (row : FunctionRangeRow) : RangeRow :=
  ⟨row.function, row.addrBegin, row.addrEnd, row.validBitmap.getD []⟩

end FunctionRangeRow

def updateToVersion4 (oldFunctions : List OldFunctionRow) : Result (ObjectTables String) := do
  let functionRanges := oldFunctions.map OldFunctionRow.functionRange
  let functionRanges ← functionRanges.foldlM FunctionRangeRow.setValidBitmap functionRanges
  return ⟨oldFunctions.map OldFunctionRow.function, functionRanges.map FunctionRangeRow.asRead⟩

def Thread.foundAt {Columns : Type} (tables : ObjectTables Columns) (linkedObject : Int32)
    (offset : Address) : Result (List Int) :=
  collect (fun row => do
    let bitmap ← row.2.bitmap
    let valid ← bitmap.getValue offset
    return if valid then [row.1] else [])
    (rangesAt tables linkedObject offset)

theorem AddressBitmap.setValues_total {addresses : List Address} :
    ∀ {bitmap : AddressBitmap}, bitmap.dmRange.dmBegin ≤ bitmap.dmRange.dmEnd →
      bitmap.dmRange.getWidth.toNat < 2 ^ 63 →
      (∀ address ∈ addresses, bitmap.dmRange.doesContain address = true) →
      ∃ after, addresses.foldlM (fun bitmap addr => bitmap.setValue addr true) bitmap = .ok after ∧
        after.dmRange = bitmap.dmRange ∧
        ∀ other, after.Holds true other ↔ bitmap.Holds true other ∨ other ∈ addresses := by
  induction addresses with
  | nil => exact fun _ _ _ => ⟨_, rfl, rfl, by simp⟩
  | cons address rest ih =>
    intro bitmap ordered near inside
    obtain ⟨here, later⟩ := List.forall_mem_cons.mp inside
    have index := index_lt here
    rw [toNat_sub_of_le ((Interval.doesContain_iff _ _).mp here).1] at index
    obtain ⟨next, set, same, holds⟩ := setValue_total here (by omega)
    obtain ⟨after, ran, range, all⟩ := ih (same ▸ ordered) (same ▸ near) (same ▸ later)
    refine ⟨after, by rw [List.foldlM_cons, set, ok_bind, ran], range.trans same, fun other => ?_⟩
    rw [all, holds, List.mem_cons, or_assoc]

theorem AddressBitmap.setValues_range {addresses : List Address} {after : AddressBitmap} :
    ∀ {bitmap : AddressBitmap},
      addresses.foldlM (fun bitmap addr => bitmap.setValue addr true) bitmap = .ok after →
      after.dmRange = bitmap.dmRange := by
  induction addresses with
  | nil =>
    intro bitmap ran
    cases ran
    rfl
  | cons address rest ih =>
    intro bitmap ran
    rw [List.foldlM_cons, bind_eq_ok] at ran
    obtain ⟨next, set, ran⟩ := ran
    have same : next.dmRange = bitmap.dmRange := by
      simp only [setValue, bind_eq_ok] at set
      obtain ⟨_, _, _, _, returned⟩ := set
      cases returned
      rfl
    exact (ih ran).trans same

namespace FunctionRangeRow

variable {row : FunctionRangeRow}

theorem validBlob_narrow {blob : List UInt8} (written : row.validBlob = .ok blob) :
    row.range.getWidth.toNat < 2 ^ 32 := by
  simp only [validBlob, bind_eq_ok, Interval.make_eq_ok] at written
  obtain ⟨range, ⟨_, rfl⟩, bitmap, set, written⟩ := written
  have same := AddressBitmap.setValues_range set
  by_contra wide
  refine AddressBitmap.getBlob_ne_ok ?_ blob written
  rw [same]
  exact Nat.le_of_not_lt wide

theorem validBlob_total (ordered : row.range.dmBegin < row.range.dmEnd)
    (narrow : row.range.getWidth.toNat < 2 ^ 32) :
    ∃ blob bitmap, row.validBlob = .ok blob ∧ AddressBitmap.ofBlob row.range blob = .ok bitmap ∧
      ∀ address, row.range.doesContain address = true → bitmap.Holds true address := by
  have inOrder := le_of_lt ordered
  have positive : 0 < row.range.getWidth.toNat := by
    rw [AddressRange.toNat_getWidth inOrder]
    rw [UInt64.lt_iff_toNat_lt] at ordered
    omega
  obtain ⟨bitmap, set, same, holds⟩ := @AddressBitmap.setValues_total row.range.addresses
    (AddressBitmap.ofRange row.range) inOrder (narrow.trans (by decide))
    fun address => (AddressRange.mem_addresses inOrder).mp
  have own : bitmap.dmRange = row.range := same
  obtain ⟨blob, written, read⟩ := @AddressBitmap.ofBlob_getBlob bitmap (by rw [own]; exact positive)
    (by rw [own]; exact narrow)
  refine ⟨blob, bitmap, ?_, own ▸ read, fun address within => (holds address).mpr (.inr ?_)⟩
  · have made : Interval.make row.range.dmBegin row.range.dmEnd = .ok row.range :=
      Interval.make_eq_ok.mpr ⟨ordered, rfl⟩
    rw [validBlob, made, ok_bind, set, ok_bind, written]
  · exact (AddressRange.mem_addresses inOrder).mpr within

theorem isRange_iff {other : FunctionRangeRow} : row.isRange other = some true ↔
    other.function = row.function ∧ other.addrBegin = row.addrBegin ∧ other.addrEnd = row.addrEnd := by
  simp [isRange]

def filled (row : FunctionRangeRow) : FunctionRangeRow :=
  { row with validBitmap := row.validBlob.toOption }

section

variable (items : List FunctionRangeRow) (each : ∀ item ∈ items, ∃ blob, item.validBlob = .ok blob)
include items each

theorem setValidBitmaps :
    ∀ table : List FunctionRangeRow, items.foldlM setValidBitmap table = .ok (table.map fun row =>
        if items.any (fun item => item.isRange row = some true) then row.filled else row) := by
  induction items with
  | nil => exact fun table => congrArg Except.ok (List.map_id table).symm
  | cons item rest ih =>
    intro table
    obtain ⟨⟨blob, written⟩, others⟩ := List.forall_mem_cons.mp each
    have stepped : setValidBitmap table item = .ok (Sql.update item.isRange
        (fun other => { other with validBitmap := some blob }) table) := by
      rw [setValidBitmap, written]
      rfl
    rw [List.foldlM_cons, stepped, ok_bind, ih others, Sql.update, List.map_map]
    refine congrArg Except.ok (List.map_congr_left fun row _ => ?_)
    rw [Function.comp_apply, List.any_cons]
    by_cases found : item.isRange row = some true
    · obtain ⟨_, sameBegin, sameEnd⟩ := isRange_iff.mp found
      have sameBlob : row.validBlob = .ok blob := by
        rw [← written, validBlob, validBlob, range, range, sameBegin, sameEnd]
      have done : ({ row with validBitmap := some blob } : FunctionRangeRow) = row.filled := by
        rw [filled, sameBlob]
        rfl
      have both : (if rest.any (fun item => item.isRange row.filled = some true) then
          row.filled.filled else row.filled) = row.filled := ite_self _
      rw [if_pos found, done, both, decide_eq_true found, Bool.true_or, if_pos rfl]
    · rw [if_neg found, decide_eq_false found, Bool.false_or]

theorem setAll : items.foldlM setValidBitmap items = .ok (items.map filled) := by
  rw [setValidBitmaps items each]
  refine congrArg Except.ok (List.map_congr_left fun row member => if_pos ?_)
  exact List.any_eq_true.mpr ⟨row, member, by simp [isRange_iff]⟩

end

end FunctionRangeRow

structure OldFunctions where
  rows : List OldFunctionRow
  distinct : (rows.map OldFunctionRow.id).Nodup
  nonempty : ∀ row ∈ rows, row.range.dmBegin < row.range.dmEnd

def OldFunctions.foundAt (old : OldFunctions) (linkedObject : Int32) (offset : Address) : List Int :=
  (old.rows.filter fun row => row.linkedObject = linkedObject && row.range.doesContain offset).map
    fun row => row.id.toInt

def OldFunctionRow.newRange (row : OldFunctionRow) : RangeRow := row.functionRange.filled.asRead

theorem updateToVersion4_returns_iff (old : OldFunctions) :
    (∃ tables, updateToVersion4 old.rows = .ok tables) ↔
      ∀ row ∈ old.rows, row.range.getWidth.toNat < 2 ^ 32 := by
  have each : ∀ item ∈ old.rows.map OldFunctionRow.functionRange, ∀ table,
      (∃ next, FunctionRangeRow.setValidBitmap table item = .ok next) ↔
        item.range.getWidth.toNat < 2 ^ 32 := by
    intro item member table
    obtain ⟨row, among, rfl⟩ := List.mem_map.mp member
    constructor
    · rintro ⟨next, ran⟩
      rw [FunctionRangeRow.setValidBitmap, bind_eq_ok] at ran
      exact FunctionRangeRow.validBlob_narrow ran.choose_spec.1
    · intro narrow
      obtain ⟨blob, _, written, _⟩ := @FunctionRangeRow.validBlob_total
        row.functionRange (old.nonempty row among) narrow
      exact ⟨_, by rw [FunctionRangeRow.setValidBitmap, written, ok_bind]; rfl⟩
  have runs := foldlM_returns_iff each (old.rows.map OldFunctionRow.functionRange)
  rw [List.forall_mem_map] at runs
  refine Iff.trans ⟨?_, ?_⟩ runs
  · rintro ⟨tables, ran⟩
    rw [updateToVersion4, bind_eq_ok] at ran
    exact ⟨_, ran.choose_spec.1⟩
  · rintro ⟨ranges, ran⟩
    exact ⟨_, by rw [updateToVersion4, ran, ok_bind]; rfl⟩

theorem updateToVersion4_eq (old : OldFunctions)
    (narrow : ∀ row ∈ old.rows, row.range.getWidth.toNat < 2 ^ 32) : updateToVersion4 old.rows =
      .ok ⟨old.rows.map OldFunctionRow.function, old.rows.map OldFunctionRow.newRange⟩ := by
  have each : ∀ item ∈ old.rows.map OldFunctionRow.functionRange, ∃ blob, item.validBlob = .ok blob := by
    intro item member
    obtain ⟨row, among, rfl⟩ := List.mem_map.mp member
    obtain ⟨blob, _, written, _⟩ := @FunctionRangeRow.validBlob_total
      row.functionRange (old.nonempty row among) (narrow row among)
    exact ⟨blob, written⟩
  rw [updateToVersion4, FunctionRangeRow.setAll _ each, ok_bind, List.map_map, List.map_map]
  rfl

theorem OldFunctionRow.newRange_holds {row : OldFunctionRow}
    (ordered : row.range.dmBegin < row.range.dmEnd) (narrow : row.range.getWidth.toNat < 2 ^ 32) :
    ∃ bitmap, row.newRange.bitmap = .ok bitmap ∧
      ∀ address, row.range.doesContain address = true → bitmap.getValue address = .ok true := by
  obtain ⟨blob, bitmap, written, read, holds⟩ := @FunctionRangeRow.validBlob_total
    row.functionRange ordered narrow
  have stored : row.newRange = ⟨row.id, row.addrBegin, row.addrEnd, blob⟩ := by
    rw [newRange, FunctionRangeRow.filled, written]
    rfl
  have decoded : row.newRange.bitmap = .ok bitmap := by
    have made : Interval.make (OffsetBinary.decode row.addrBegin)
        (OffsetBinary.decode row.addrEnd) = .ok row.range := Interval.make_eq_ok.mpr ⟨ordered, rfl⟩
    rw [stored, RangeRow.bitmap, made, ok_bind]
    exact read
  refine ⟨bitmap, decoded, fun address inside => ?_⟩
  obtain ⟨valid, got⟩ := RangeRow.getValue_total decoded
    (between_iff.mpr ((Interval.doesContain_iff _ _).mp inside))
  rw [got, (AddressBitmap.getValue_eq_ok got).1.unique (holds address inside)]

theorem between_range {row : OldFunctionRow} {offset : Address} :
    between offset row.addrBegin row.addrEnd = row.range.doesContain offset := by
  rw [Bool.eq_iff_iff, between_iff, Interval.doesContain_iff]
  rfl

theorem OldFunctions.joined (old : OldFunctions) {row : OldFunctionRow} (member : row ∈ old.rows)
    (linkedObject : Int32) (offset : Address) : ((old.rows.map OldFunctionRow.function).filter fun object =>
      object.id = row.newRange.object.toInt && object.linkedObject = linkedObject &&
        between offset row.newRange.addrBegin row.newRange.addrEnd) =
      if row.linkedObject = linkedObject && row.range.doesContain offset then [row.function] else [] := by
  have own : (fun other : OldFunctionRow => decide (other.id = row.id)) =
      fun other => decide (other.function.id = row.newRange.object.toInt) :=
    funext fun other => decide_eq_decide.mpr Int32.toInt_inj.symm
  have key := Sql.filter_key old.distinct member
  have inside : between offset row.newRange.addrBegin row.newRange.addrEnd =
      row.range.doesContain offset := between_range
  have apart : (fun object : ObjectRow String => object.id = row.newRange.object.toInt &&
      object.linkedObject = linkedObject &&
        between offset row.newRange.addrBegin row.newRange.addrEnd) ∘ OldFunctionRow.function =
      fun other => (other.linkedObject = linkedObject && row.range.doesContain offset) &&
        decide (other.function.id = row.newRange.object.toInt) := by
    funext other
    rw [Function.comp_apply, inside, Bool.and_assoc]
    exact Bool.and_comm _ _
  rw [List.filter_map, apart, ← List.filter_filter, ← own, key, List.filter_singleton, Bool.cond_eq_ite]
  split <;> rfl

theorem OldFunctions.rangesAt_eq (old : OldFunctions) (linkedObject : Int32) (offset : Address) :
    Thread.rangesAt
      ⟨old.rows.map OldFunctionRow.function, old.rows.map OldFunctionRow.newRange⟩ linkedObject offset =
      (old.rows.filter fun row =>
        row.linkedObject = linkedObject && row.range.doesContain offset).map fun row =>
          (row.id.toInt, row.newRange) := by
  have chosen : ∀ rows : List OldFunctionRow,
      (rows.filter fun row => row.linkedObject = linkedObject && row.range.doesContain offset).map
        (fun row => (row.id.toInt, row.newRange)) = rows.flatMap fun row =>
          (if row.linkedObject = linkedObject && row.range.doesContain offset then [row.function]
            else []).map fun object => (object.id, row.newRange) := by
    intro rows
    induction rows with
    | nil => rfl
    | cons row rest ih =>
      rw [List.flatMap_cons, ← ih, List.filter_cons]
      split <;> rfl
  rw [Thread.rangesAt, List.flatMap_map, chosen]
  exact List.flatMap_congr fun row member =>
    congrArg (List.map fun object => (object.id, row.newRange)) (old.joined member linkedObject offset)

theorem collect_found {Item Value : Type} {body : Item → Result (List Value)} {value : Item → Value}
    {items : List Item} (each : ∀ item ∈ items, body item = .ok [value item]) :
    collect body items = .ok (items.map value) := by
  refine collect_eq_ok.mpr ⟨fun item member => ⟨_, each item member⟩, ?_⟩
  rw [List.map_eq_flatMap]
  exact List.flatMap_congr fun item member => (given_of_ok (each item member)).symm

theorem OldFunctions.foundAt_eq (old : OldFunctions)
    (narrow : ∀ row ∈ old.rows, row.range.getWidth.toNat < 2 ^ 32) (linkedObject : Int32) (offset : Address) :
    Thread.foundAt ⟨old.rows.map OldFunctionRow.function, old.rows.map OldFunctionRow.newRange⟩
      linkedObject offset = .ok (old.foundAt linkedObject offset) := by
  rw [Thread.foundAt, old.rangesAt_eq, foundAt]
  refine (@collect_found _ _ _ Prod.fst _ fun item member => ?_).trans ?_
  · obtain ⟨row, chosen, rfl⟩ := List.mem_map.mp member
    obtain ⟨among, inside⟩ := List.mem_filter.mp chosen
    obtain ⟨bitmap, decoded, holds⟩ :=
      OldFunctionRow.newRange_holds (old.nonempty row among) (narrow row among)
    have got := holds offset (Bool.and_eq_true_iff.mp inside).2
    simp only [decoded, ok_bind, got, if_true]
    rfl
  · rw [List.map_map]
    rfl

/-- The functions stay, and each is found at the offsets in its half-open range only, exactly when each
range is within the reach of the encoder's counter: from there on the update does not end. -/
theorem updateToVersion4_preserves_iff (old : OldFunctions) :
    (∃ tables, updateToVersion4 old.rows = .ok tables ∧
      tables.objects = old.rows.map OldFunctionRow.function ∧
      ∀ linkedObject offset,
        Thread.foundAt tables linkedObject offset = .ok (old.foundAt linkedObject offset)) ↔
      ∀ row ∈ old.rows, row.range.getWidth.toNat < 2 ^ 32 := by
  constructor
  · rintro ⟨tables, ran, _⟩
    exact (updateToVersion4_returns_iff old).mp ⟨tables, ran⟩
  · intro narrow
    exact ⟨_, updateToVersion4_eq old narrow, rfl, old.foundAt_eq narrow⟩

def wideFunction : OldFunctions where
  rows := [⟨1, 1, OffsetBinary.encode 0, OffsetBinary.encode 0x100000000, "main"⟩]
  distinct := by decide
  nonempty := by decide

theorem wideFunction_endless : ¬ ∃ tables, updateToVersion4 wideFunction.rows = .ok tables := by
  intro returns
  have narrow := (updateToVersion4_returns_iff wideFunction).mp returns
  exact absurd (narrow _ (List.mem_singleton.mpr rfl)) (by decide)

end OpenSpeedShop
