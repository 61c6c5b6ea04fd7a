import OpenSpeedShop.Framework.Partitions
import OpenSpeedShop.Framework.ThreadLookup
import OpenSpeedShop.Library.Turns

/-!
Storing a symbol table and looking its symbols up again: the accepted ranges of a symbol are
partitioned, written as bitmaps and read back as the same addresses.
-/

namespace OpenSpeedShop

open Fallible

namespace AddressBitmap

theorem setValue_eq_ok {self after : AddressBitmap} {address : Address}
    (ran : self.setValue address true = .ok after) : after.dmRange = self.dmRange ∧
      ∀ other, after.Holds true other ↔ self.Holds true other ∨ other = address := by
  have parts := ran
  simp only [setValue, bind_eq_ok, check_eq_ok] at parts
  obtain ⟨_, inside, _, subtracted, -⟩ := parts
  have above := ((Interval.doesContain_iff _ _).mp inside).1
  obtain ⟨expected, total, same, holds⟩ :=
    setValue_total inside (Address.sub_eq_ok above subtracted).2
  obtain rfl : expected = after := Except.ok.inj (total.symm.trans ran)
  exact ⟨same, holds⟩

theorem getBlob_eq_ok {bitmap : AddressBitmap} {blob : List UInt8}
    (ordered : bitmap.dmRange.dmBegin < bitmap.dmRange.dmEnd)
    (ran : bitmap.getBlob = .ok blob) : ofBlob bitmap.dmRange blob = .ok bitmap := by
  have parts := ran
  simp only [getBlob, bind_eq_ok] at parts
  obtain ⟨_, counted, -⟩ := parts
  have nonempty : 0 < bitmap.dmRange.getWidth.toNat := by
    rw [AddressRange.toNat_getWidth ordered.le]
    rw [UInt64.lt_iff_toNat_lt] at ordered
    omega
  obtain ⟨expected, written, read⟩ := ofBlob_getBlob nonempty (counter_eq_ok counted).1
  obtain rfl : expected = blob := Except.ok.inj (written.symm.trans ran)
  exact read

theorem holds_ofRange {range : AddressRange} {address : Address} : ¬ (ofRange range).Holds true address := by
  rintro ⟨-, found⟩
  obtain ⟨_, clear⟩ := Vector.getElem?_eq_some_iff.mp found
  simp [ofRange] at clear

end AddressBitmap

namespace SymbolTable

variable {addresses : List Address}

theorem setValues_eq_ok : ∀ {bitmap after : AddressBitmap},
    addresses.foldlM (fun bitmap address => bitmap.setValue address true) bitmap = .ok after →
    after.dmRange = bitmap.dmRange ∧
      ∀ other, after.Holds true other ↔ bitmap.Holds true other ∨ other ∈ addresses := by
  induction addresses with
  | nil =>
    intro bitmap after ran
    obtain rfl : bitmap = after := Except.ok.inj ran
    simp
  | cons address rest ih =>
    intro bitmap after ran
    rw [List.foldlM_cons] at ran
    obtain ⟨middle, first, others⟩ := bind_eq_ok.mp ran
    obtain ⟨sameFirst, holdsFirst⟩ := AddressBitmap.setValue_eq_ok first
    obtain ⟨sameRest, holdsRest⟩ := ih others
    refine ⟨sameRest.trans sameFirst, fun other => ?_⟩
    rw [holdsRest, holdsFirst, List.mem_cons, or_assoc]

theorem setValues_total : ∀ {bitmap : AddressBitmap},
    (∀ address ∈ addresses, bitmap.dmRange.doesContain address = true ∧
      address.toNat - bitmap.dmRange.dmBegin.toNat < 2 ^ 63) →
    ∃ after, addresses.foldlM (fun bitmap address => bitmap.setValue address true) bitmap = .ok after := by
  induction addresses with
  | nil => exact fun {bitmap} _ => ⟨bitmap, rfl⟩
  | cons address rest ih =>
    intro bitmap each
    obtain ⟨here, later⟩ := List.forall_mem_cons.mp each
    obtain ⟨next, stepped, same, -⟩ := AddressBitmap.setValue_total here.1 here.2
    obtain ⟨after, ran⟩ := @ih next (by rw [same]; exact later)
    exact ⟨after, by rw [List.foldlM_cons, stepped, ok_bind, ran]⟩

theorem populate_eq_ok {range : AddressRange} {bitmap : AddressBitmap}
    (ran : populate range addresses = .ok bitmap) :
    bitmap.dmRange = range ∧ ∀ address, bitmap.Holds true address ↔ address ∈ addresses := by
  obtain ⟨same, holds⟩ := setValues_eq_ok ran
  exact ⟨same, fun address => by
    rw [holds, or_iff_right (@AddressBitmap.holds_ofRange range address)]⟩

end SymbolTable

def RangeRow.Covers (row : RangeRow) (addresses : Address → Prop) : Prop :=
  ∃ bitmap, row.bitmap = .ok bitmap ∧ ∀ address, bitmap.Holds true address ↔ addresses address

theorem RangeRow.Covers.marks {row : RangeRow} {addresses : Address → Prop}
    (covers : row.Covers addresses) (address : Address) : row.Marks address ↔ addresses address := by
  obtain ⟨bitmap, decoded, holds⟩ := covers
  rw [← holds]
  constructor
  · rintro ⟨other, decodedOther, held⟩
    obtain rfl : bitmap = other := Except.ok.inj (decoded.symm.trans decodedOther)
    exact held
  · exact fun held => ⟨bitmap, decoded, held⟩

namespace ObjectTables

variable {Columns : Type}

def nextObject (tables : ObjectTables Columns) : Int := nextId (tables.objects.map ObjectRow.id)

structure AddsRanges (object : Int32) (before after : ObjectTables Columns)
    (addresses : Address → Prop) : Prop where
  objects : after.objects = before.objects
  ranges : ∃ rows : List RangeRow, after.ranges = before.ranges ++ rows ∧
    (∀ row ∈ rows, row.object = object ∧ ∃ bitmap, row.bitmap = .ok bitmap) ∧
    ∀ address, (∃ row ∈ rows, row.Marks address) ↔ addresses address

theorem AddsRanges.refl (object : Int32) (tables : ObjectTables Columns) :
    AddsRanges object tables tables fun _ => False :=
  ⟨rfl, [], by simp, by simp, by simp⟩

theorem AddsRanges.trans {object : Int32} {before middle after : ObjectTables Columns}
    {first second : Address → Prop} (one : AddsRanges object before middle first)
    (two : AddsRanges object middle after second) :
    AddsRanges object before after fun address => first address ∨ second address := by
  obtain ⟨rows, sameRows, owned, marks⟩ := one.ranges
  obtain ⟨others, sameOthers, ownedOthers, marksOthers⟩ := two.ranges
  refine ⟨two.objects.trans one.objects, rows ++ others, ?_, fun row member => ?_, fun address => ?_⟩
  · rw [sameOthers, sameRows, List.append_assoc]
  · rcases List.mem_append.mp member with early | late
    · exact owned row early
    · exact ownedOthers row late
  · rw [← marks, ← marksOthers]
    simp only [List.mem_append, or_and_right, exists_or]

theorem insertRange_ok {object : Int32} {before after : ObjectTables Columns}
    {bitmap : AddressBitmap} {addresses : Address → Prop}
    (ordered : bitmap.dmRange.dmBegin < bitmap.dmRange.dmEnd)
    (holds : ∀ address, bitmap.Holds true address ↔ addresses address)
    (ran : before.insertRange object bitmap = .ok after) : AddsRanges object before after addresses := by
  simp only [insertRange, bind_eq_ok] at ran
  obtain ⟨blob, written, returned⟩ := ran
  cases returned
  have decoded : (RangeRow.mk object (OffsetBinary.encode bitmap.dmRange.dmBegin)
      (OffsetBinary.encode bitmap.dmRange.dmEnd) blob).bitmap = .ok bitmap := by
    simp only [RangeRow.bitmap, OffsetBinary.decode_encode, Interval.make_eq_ok.mpr ⟨ordered, rfl⟩, ok_bind]
    exact AddressBitmap.getBlob_eq_ok ordered written
  refine ⟨rfl, _, rfl, fun row member => ?_, fun address => ?_⟩
  · rw [List.mem_singleton.mp member]
    exact ⟨rfl, bitmap, decoded⟩
  · simp only [List.mem_singleton, exists_eq_left]
    exact RangeRow.Covers.marks ⟨bitmap, decoded, holds⟩ address

end ObjectTables

namespace SymbolTable

variable {Columns : Type}

variable {addresses : AddressSet}

theorem storeAddressSet_ok {object : Int32} {before after : ObjectTables Columns}
    (ran : storeAddressSet object before addresses = .ok after) :
    ObjectTables.AddsRanges object before after (· ∈ addresses.addresses) := by
  unfold storeAddressSet at ran
  split at ran
  next first last _ _ =>
    simp only [bind_eq_ok, Interval.make_eq_ok] at ran
    obtain ⟨range, ⟨ordered, rfl⟩, bitmap, populated, inserted⟩ := ran
    obtain ⟨same, holds⟩ := populate_eq_ok populated
    exact ObjectTables.insertRange_ok (by rw [same]; exact ordered) holds inserted
  next => cases ran

theorem storeAddressSets_ok {object : Int32} {addressSets : List AddressSet} :
    ∀ {before after : ObjectTables Columns}, addressSets.foldlM (storeAddressSet object) before = .ok after →
    ObjectTables.AddsRanges object before after fun address =>
      ∃ addresses ∈ addressSets, address ∈ addresses.addresses := by
  induction addressSets with
  | nil =>
    intro before after ran
    obtain rfl : before = after := Except.ok.inj ran
    simpa using ObjectTables.AddsRanges.refl object before
  | cons addresses rest ih =>
    intro before after ran
    rw [List.foldlM_cons] at ran
    obtain ⟨middle, first, others⟩ := bind_eq_ok.mp ran
    simpa using (storeAddressSet_ok first).trans (ih others)

def Offsets (dmRange : AddressRange) (ranges : List AddressRange) (offset : Address) : Prop :=
  ∃ range ∈ ranges, range.doesContain (dmRange.dmBegin + offset) = true

theorem sub_eq_iff {address first offset : Address} : address - first = offset ↔ address = first + offset := by
  constructor
  · rintro rfl
    rw [UInt64.add_comm, UInt64.sub_add_cancel]
  · rintro rfl
    rw [UInt64.add_comm, UInt64.add_sub_cancel]

theorem mem_insert {address other : Address} :
    other ∈ (addresses.insert address).addresses ↔ other = address ∨ other ∈ addresses.addresses :=
  AddressSet.mem_insertSorted

def Above (dmRange : AddressRange) (ranges : List AddressRange) : Prop :=
  ∀ range ∈ ranges, range.dmBegin < range.dmEnd ∧ dmRange.dmBegin ≤ range.dmBegin

theorem relativeAddresses_ok {dmRange : AddressRange} {ranges : List AddressRange}
    (above : Above dmRange ranges)
    (ran : relativeAddresses dmRange ranges = .ok addresses) (offset : Address) :
    offset ∈ addresses.addresses ↔ Offsets dmRange ranges offset := by
  have visited : ∀ k ∈ ranges.flatMap AddressRange.addresses, dmRange.dmBegin ≤ k := by
    intro k member
    obtain ⟨range, present, inside⟩ := List.mem_flatMap.mp member
    obtain ⟨nonempty, isAbove⟩ := above range present
    exact isAbove.trans ((Interval.doesContain_iff _ _).mp
      ((AddressRange.mem_addresses nonempty.le).mp inside)).1
  have looped : ∀ (keys : List Address), (∀ k ∈ keys, dmRange.dmBegin ≤ k) →
      ∀ {start final : AddressSet}, keys.foldlM (fun addresses k => do
        let address ← Address.sub k dmRange.dmBegin
        return addresses.insert address.toUInt64) start = .ok final →
      (offset ∈ final.addresses ↔ offset ∈ start.addresses ∨ dmRange.dmBegin + offset ∈ keys) := by
    intro keys
    induction keys with
    | nil =>
      intro _ start final ran
      obtain rfl : start = final := Except.ok.inj ran
      simp
    | cons k rest ih =>
      intro each start final ran
      obtain ⟨here, later⟩ := List.forall_mem_cons.mp each
      rw [List.foldlM_cons] at ran
      obtain ⟨middle, first, others⟩ := bind_eq_ok.mp ran
      obtain ⟨difference, subtracted, returned⟩ := bind_eq_ok.mp first
      cases returned
      rw [ih later others, mem_insert, (Address.sub_eq_ok here subtracted).1, List.mem_cons,
        eq_comm, sub_eq_iff, eq_comm]
      tauto
  rw [looped _ visited ran]
  simp only [AddressSet.empty, List.not_mem_nil, false_or, List.mem_flatMap, Offsets]
  refine exists_congr fun range => and_congr_right fun present => ?_
  exact AddressRange.mem_addresses (above range present).1.le

end SymbolTable

namespace ObjectTables

variable {Columns : Type}

def Referenced (tables : ObjectTables Columns) : Prop :=
  ∀ range ∈ tables.ranges, range.object.toInt ∈ tables.objects.map ObjectRow.id

def Fits (tables : ObjectTables Columns) (count : Nat) : Prop :=
  ∀ i < count, (Int32.ofInt (tables.nextObject + i)).toInt = tables.nextObject + i

theorem lt_nextObject {tables : ObjectTables Columns} {id : Int}
    (member : id ∈ tables.objects.map ObjectRow.id) : id < tables.nextObject := lt_nextId member

structure AddsSymbol (linkedObject : Int32) (before after : ObjectTables Columns)
    (columns : Columns) (addresses : Address → Prop) : Prop where
  objects : after.objects = before.objects ++ [⟨before.nextObject, linkedObject, columns⟩]
  ranges : ∃ rows : List RangeRow, after.ranges = before.ranges ++ rows ∧
    (∀ row ∈ rows, row.object = Int32.ofInt before.nextObject ∧ ∃ bitmap, row.bitmap = .ok bitmap) ∧
    ∀ address, (∃ row ∈ rows, row.Marks address) ↔ addresses address

theorem AddsRanges.addsSymbol {linkedObject object : Int32} {before inserted after : ObjectTables Columns}
    {columns : Columns} {addresses : Address → Prop}
    (inserts : before.insertObject linkedObject columns = (object, inserted))
    (adds : AddsRanges object inserted after addresses) :
    AddsSymbol linkedObject before after columns addresses := by
  cases inserts
  exact ⟨adds.objects, adds.ranges⟩

section

variable {linkedObject : Int32} {before after : ObjectTables Columns} {columns : Columns}
  {addresses : Address → Prop} (adds : AddsSymbol linkedObject before after columns addresses)

include adds

theorem AddsSymbol.numbers :
    after.objects.map ObjectRow.id = before.objects.map ObjectRow.id ++ [before.nextObject] := by
  rw [adds.objects, List.map_append, List.map_singleton]

theorem AddsSymbol.nextObject : after.nextObject = before.nextObject + 1 := by
  rw [ObjectTables.nextObject, adds.numbers, ObjectTables.nextObject, nextId_snoc]

theorem AddsSymbol.referenced (referenced : before.Referenced)
    (fits : (Int32.ofInt before.nextObject).toInt = before.nextObject) : after.Referenced := by
  obtain ⟨rows, same, owned, -⟩ := adds.ranges
  intro range member
  rw [same] at member
  rw [adds.numbers]
  rcases List.mem_append.mp member with old | new
  · exact List.mem_append_left _ (referenced range old)
  · rw [(owned range new).1, fits]
    simp

theorem AddsSymbol.marks_iff (referenced : before.Referenced)
    (fits : (Int32.ofInt before.nextObject).toInt = before.nextObject) {object : Int}
    {other : Int32} {address : Address} : after.Marks object other address ↔
      before.Marks object other address ∨
        (other = linkedObject ∧ object = before.nextObject ∧ addresses address) := by
  obtain ⟨rows, sameRanges, owned, marks⟩ := adds.ranges
  simp only [Marks, sameRanges, adds.objects, List.mem_append, List.mem_singleton]
  constructor
  · rintro ⟨range, oldRange | newRange, row, oldRow | rfl, joined, number, linked, marked⟩
    · exact .inl ⟨range, oldRange, row, oldRow, joined, number, linked, marked⟩
    · have below := lt_nextObject (referenced range oldRange)
      exact absurd joined below.ne'
    · rw [(owned range newRange).1, fits] at joined
      have below := lt_nextObject (List.mem_map.mpr ⟨row, oldRow, rfl⟩)
      exact absurd joined below.ne
    · exact .inr ⟨linked.symm, number.symm, (marks address).mp ⟨range, newRange, marked⟩⟩
  · rintro (⟨range, oldRange, row, oldRow, joined, number, linked, marked⟩ | ⟨rfl, rfl, covered⟩)
    · exact ⟨range, .inl oldRange, row, .inl oldRow, joined, number, linked, marked⟩
    · obtain ⟨range, newRange, marked⟩ := (marks address).mpr covered
      refine ⟨range, .inr newRange, _, .inr rfl, ?_, rfl, rfl, marked⟩
      rw [(owned range newRange).1, fits]

end

structure AddsSymbols {Symbol : Type} (linkedObject : Int32) (columns : Symbol → Columns → Prop)
    (addresses : Symbol → Address → Prop) (before after : ObjectTables Columns)
    (symbols : List Symbol) : Prop where
  objects : ∃ rows : List (ObjectRow Columns), after.objects = before.objects ++ rows ∧
    rows.map ObjectRow.id = (List.range symbols.length).map (fun i : Nat => before.nextObject + i) ∧
    List.Forall₂ (fun symbol row => row.linkedObject = linkedObject ∧ columns symbol row.columns) symbols rows
  nextObject : after.nextObject = before.nextObject + symbols.length
  referenced : after.Referenced
  ranges : ∃ rows : List RangeRow, after.ranges = before.ranges ++ rows ∧
    ∀ row ∈ rows, ∃ bitmap, row.bitmap = .ok bitmap
  marks : ∀ object other address, after.Marks object other address ↔
    before.Marks object other address ∨ (other = linkedObject ∧
      ∃ (i : Nat) (symbol : Symbol), symbols[i]? = some symbol ∧
        object = before.nextObject + i ∧ addresses symbol address)

section

variable {Symbol : Type} {linkedObject : Int32} {columns : Symbol → Columns → Prop}
  {addresses : Symbol → Address → Prop} {before middle after : ObjectTables Columns}
  {symbols : List Symbol}

theorem AddsSymbols.nil (referenced : before.Referenced) :
    AddsSymbols linkedObject columns addresses before before [] where
  objects := ⟨[], by simp, rfl, .nil⟩
  nextObject := by simp
  referenced := referenced
  ranges := ⟨[], by simp, by simp⟩
  marks := by simp

theorem AddsSymbols.mono (adds : AddsSymbols linkedObject columns addresses before after symbols)
    {weaker : Symbol → Columns → Prop} (weakens : ∀ symbol own, columns symbol own → weaker symbol own) :
    AddsSymbols linkedObject weaker addresses before after symbols := by
  obtain ⟨rows, same, numbers, each⟩ := adds.objects
  exact { adds with
    objects := ⟨rows, same, numbers, each.imp fun symbol row fits => ⟨fits.1, weakens _ _ fits.2⟩⟩ }

theorem AddsSymbols.snoc (adds : AddsSymbols linkedObject columns addresses before middle symbols)
    {symbol : Symbol} {own : Columns}
    (last : AddsSymbol linkedObject middle after own (addresses symbol)) (named : columns symbol own)
    (fits : (Int32.ofInt middle.nextObject).toInt = middle.nextObject) :
    AddsSymbols linkedObject columns addresses before after (symbols ++ [symbol]) := by
  obtain ⟨rows, sameRows, numbers, each⟩ := adds.objects
  obtain ⟨ranges, sameRanges, decoded⟩ := adds.ranges
  obtain ⟨others, sameOthers, owned, -⟩ := last.ranges
  refine ⟨⟨rows ++ [⟨middle.nextObject, linkedObject, own⟩], ?_, ?_, ?_⟩, ?_,
    last.referenced adds.referenced fits, ⟨ranges ++ others, ?_, fun row member => ?_⟩,
    fun object other address => ?_⟩
  · rw [last.objects, sameRows, List.append_assoc]
  · simp [numbers, adds.nextObject, List.range_succ]
  · exact List.rel_append each (.cons ⟨rfl, named⟩ .nil)
  · rw [last.nextObject, adds.nextObject, List.length_append, List.length_singleton]
    omega
  · rw [sameOthers, sameRanges, List.append_assoc]
  · rcases List.mem_append.mp member with early | late
    · exact decoded row early
    · exact (owned row late).2
  · rw [last.marks_iff adds.referenced fits, adds.marks, or_assoc, ← and_or_left]
    refine or_congr_right (and_congr_right fun _ => ?_)
    constructor
    · rintro (⟨i, found, here, number, covered⟩ | ⟨number, covered⟩)
      · exact ⟨i, found, by rw [List.getElem?_append_left (List.getElem?_eq_some_iff.mp here).1, here],
          number, covered⟩
      · exact ⟨symbols.length, symbol, by simp, by rw [number, adds.nextObject], covered⟩
    · rintro ⟨i, found, here, number, covered⟩
      rcases lt_trichotomy i symbols.length with early | rfl | late
      · rw [List.getElem?_append_left early] at here
        exact .inl ⟨i, found, here, number, covered⟩
      · simp only [List.getElem?_concat_length, Option.some.injEq] at here
        subst here
        exact .inr ⟨by rw [number, adds.nextObject], covered⟩
      · rw [List.getElem?_eq_none (by simp; omega)] at here
        cases here

theorem AddsSymbols.run {step : ObjectTables Columns → Symbol → Result (ObjectTables Columns)}
    (each : ∀ symbol ∈ symbols, ∀ tables next, step tables symbol = .ok next →
      ∃ own, columns symbol own ∧ AddsSymbol linkedObject tables next own (addresses symbol))
    (referenced : before.Referenced) (fits : before.Fits symbols.length)
    (ran : symbols.foldlM step before = .ok after) :
    AddsSymbols linkedObject columns addresses before after symbols := by
  have whole := @Turns.foldlM_history Symbol (ObjectTables Columns) Failure step
    (fun seen tables => before.Fits seen.length → (∀ symbol ∈ seen, symbol ∈ symbols) →
      AddsSymbols linkedObject columns addresses before tables seen)
    (fun seen tables symbol next related stepped => ?_) symbols [] before after
    (fun _ _ => .nil referenced) ran
  · exact whole fits fun symbol member => member
  · intro fitsNow members
    have adds := related (fun i inside => fitsNow i (by simp; omega))
      fun other member => members other (by simp [member])
    obtain ⟨own, named, last⟩ := each symbol (members symbol (by simp)) tables next stepped
    refine adds.snoc last named ?_
    rw [adds.nextObject]
    exact fitsNow seen.length (by simp)

end

end ObjectTables

namespace SymbolTable

variable {dmRange : AddressRange} {linkedObject : Int32}

theorem storeEntry_ok {Columns : Type}
    {columns : Columns} {ranges : List AddressRange} {before after : ObjectTables Columns}
    (above : Above dmRange ranges) (ran : storeEntry dmRange linkedObject columns ranges before = .ok after) :
    ObjectTables.AddsSymbol linkedObject before after columns (Offsets dmRange ranges) := by
  simp only [storeEntry, bind_eq_ok] at ran
  obtain ⟨addresses, relative, sets, partitioned, stored⟩ := ran
  have adds := storeAddressSets_ok stored
  have exact : (fun offset => ∃ addresses ∈ sets, offset ∈ addresses.addresses) = Offsets dmRange ranges := by
    funext offset
    exact propext ((partitionAddressSet_ok partitioned).1.mem_iff.symm.trans
      (relativeAddresses_ok above relative offset))
  rw [exact] at adds
  exact adds.addsSymbol rfl

theorem doesContain_sub {dmRange range : AddressRange} (above : dmRange.dmBegin ≤ range.dmBegin)
    (nonempty : range.dmBegin < range.dmEnd) (offset : Address) :
    Interval.doesContain ⟨range.dmBegin - dmRange.dmBegin, range.dmEnd - dmRange.dmBegin⟩ offset =
        true ↔ range.doesContain (dmRange.dmBegin + offset) = true := by
  rw [Interval.doesContain_iff, Interval.doesContain_iff, UInt64.le_iff_toNat_le,
    UInt64.lt_iff_toNat_lt, UInt64.le_iff_toNat_le, UInt64.lt_iff_toNat_lt, toNat_sub_of_le above,
    toNat_sub_of_le (above.trans nonempty.le), UInt64.toNat_add]
  rw [UInt64.le_iff_toNat_le] at above
  rw [UInt64.lt_iff_toNat_lt] at nonempty
  have bound := range.dmEnd.toNat_lt
  have offsetBound := offset.toNat_lt
  omega

theorem storeFunction_ok {before after : ObjectTables String} {entry : AddressRange × String}
    (above : Above dmRange [entry.1]) (ran : storeFunction dmRange linkedObject before entry = .ok after) :
    ObjectTables.AddsSymbol linkedObject before after entry.2 (Offsets dmRange [entry.1]) := by
  obtain ⟨nonempty, isAbove⟩ := above entry.1 (by simp)
  simp only [storeFunction, bind_eq_ok, Interval.make_eq_ok] at ran
  obtain ⟨first, subFirst, last, subLast, range, ⟨ordered, rfl⟩, bitmap, populated, inserted⟩ := ran
  obtain ⟨same, holds⟩ := populate_eq_ok populated
  rw [(Address.sub_eq_ok isAbove subFirst).1,
    (Address.sub_eq_ok (isAbove.trans nonempty.le) subLast).1] at same holds ordered
  refine (ObjectTables.insertRange_ok (by rw [same]; exact ordered) (fun offset => ?_) inserted).addsSymbol rfl
  rw [holds, AddressRange.mem_addresses ordered.le, doesContain_sub isAbove nonempty]
  simp [Offsets]

theorem storeFunctions_ok {entries : List (AddressRange × String)} {before after : ObjectTables String}
    (above : ∀ entry ∈ entries, Above dmRange [entry.1]) (referenced : before.Referenced)
    (fits : before.Fits entries.length)
    (ran : entries.foldlM (storeFunction dmRange linkedObject) before = .ok after) :
    ObjectTables.AddsSymbols linkedObject (fun entry name => name = entry.2)
      (fun entry => Offsets dmRange [entry.1]) before after entries :=
  ObjectTables.AddsSymbols.run (fun entry member _ _ stepped =>
    ⟨entry.2, rfl, storeFunction_ok (above entry member) stepped⟩) referenced fits ran

theorem storeLoops_ok {entries : List (Address × List AddressRange)} {before after : ObjectTables Int64}
    (above : ∀ entry ∈ entries, Above dmRange entry.2) (referenced : before.Referenced)
    (fits : before.Fits entries.length)
    (ran : entries.foldlM (storeLoop dmRange linkedObject) before = .ok after) :
    ObjectTables.AddsSymbols linkedObject
      (fun entry head => head = OffsetBinary.encode (entry.1 - dmRange.dmBegin))
      (fun entry => Offsets dmRange entry.2) before after entries := by
  refine ObjectTables.AddsSymbols.run (fun entry member tables next stepped => ?_) referenced fits ran
  obtain ⟨head, subtracted, stored⟩ := bind_eq_ok.mp stepped
  refine ⟨_, ?_, storeEntry_ok (above entry member) stored⟩
  rw [Address.toUInt64_of_sub subtracted]

def NamesFile (files : List FileRow) (path : String) (number : Int32) : Prop :=
  ∃ file ∈ files, number.toInt = file.id ∧ file.path = path

structure FilesFit (files : List FileRow) (count : Nat) : Prop where
  stored : ∀ file ∈ files, (Int32.ofInt file.id).toInt = file.id
  next : ∀ i < count, (Int32.ofInt (nextId (files.map FileRow.id) + i)).toInt =
    nextId (files.map FileRow.id) + i

theorem findFile_names {files : List FileRow} {path : String}
    (stored : ∀ file ∈ files, (Int32.ofInt file.id).toInt = file.id)
    (found : findFile files path ≠ -1) : NamesFile files path (findFile files path) := by
  unfold findFile at found ⊢
  cases last : ((files.filter fun file => file.path = path).map fun file => Int32.ofInt file.id).getLast? with
  | none => simp [last] at found
  | some number =>
    obtain ⟨file, member, rfl⟩ := List.mem_map.mp (List.mem_of_getLast? last)
    obtain ⟨present, same⟩ := List.mem_filter.mp member
    exact ⟨file, present, stored file present, of_decide_eq_true same⟩

def StatementIn (files : List FileRow) (statement : StatementEntry) (columns : StatementColumns) :
    Prop :=
  NamesFile files statement.dmPath columns.file ∧ columns.line = statement.dmLine ∧
    columns.column = statement.dmColumn

theorem StatementIn.mono {files later : List FileRow} (kept : files ⊆ later)
    {statement : StatementEntry} {columns : StatementColumns}
    (stored : StatementIn files statement columns) : StatementIn later statement columns := by
  obtain ⟨⟨file, member, number, path⟩, rest⟩ := stored
  exact ⟨⟨file, kept member, number, path⟩, rest⟩

variable {before after : List FileRow × ObjectTables StatementColumns}

theorem storeStatement_ok
    {entry : StatementEntry × List AddressRange} (above : Above dmRange entry.2) {count : Nat}
    (fits : FilesFit before.1 (count + 1))
    (ran : storeStatement dmRange linkedObject before entry = .ok after) :
    before.1 ⊆ after.1 ∧ FilesFit after.1 count ∧ ∃ columns, StatementIn after.1 entry.1 columns ∧
      ObjectTables.AddsSymbol linkedObject before.2 after.2 columns (Offsets dmRange entry.2) := by
  have newFits : (Int32.ofInt (nextId (before.1.map FileRow.id))).toInt =
      nextId (before.1.map FileRow.id) := by
    simpa using fits.next 0 (by omega)
  unfold storeStatement at ran
  dsimp only at ran
  split at ran
  next missing =>
    obtain ⟨statements, stored, returned⟩ := bind_eq_ok.mp ran
    cases returned
    refine ⟨List.subset_append_left _ _, ⟨fun file member => ?_, fun i inside => ?_⟩, _,
      ⟨⟨⟨nextId (before.1.map FileRow.id), entry.1.dmPath⟩, by simp, newFits, rfl⟩, rfl, rfl⟩,
      storeEntry_ok above stored⟩
    · rcases List.mem_append.mp member with old | new
      · exact fits.stored file old
      · rw [List.mem_singleton.mp new]
        exact newFits
    · have later := fits.next (i + 1) (by omega)
      rw [List.map_append, List.map_singleton, nextId_snoc, add_assoc, add_comm 1]
      exact_mod_cast later
  next found =>
    obtain ⟨statements, stored, returned⟩ := bind_eq_ok.mp ran
    cases returned
    exact ⟨fun file member => member, ⟨fits.stored, fun i inside => fits.next i (by omega)⟩, _,
      ⟨findFile_names fits.stored found, rfl, rfl⟩, storeEntry_ok above stored⟩

theorem storeStatements_ok {entries : List (StatementEntry × List AddressRange)}
    (above : ∀ entry ∈ entries, Above dmRange entry.2) (referenced : before.2.Referenced)
    (fits : before.2.Fits entries.length) (filesFit : FilesFit before.1 entries.length)
    (ran : entries.foldlM (storeStatement dmRange linkedObject) before = .ok after) :
    ObjectTables.AddsSymbols linkedObject (fun entry => StatementIn after.1 entry.1)
      (fun entry => Offsets dmRange entry.2) before.2 after.2 entries := by
  have whole := @Turns.foldlM_history (StatementEntry × List AddressRange)
    (List FileRow × ObjectTables StatementColumns) Failure (storeStatement dmRange linkedObject)
    (fun seen state => ∀ rest, entries = seen ++ rest → FilesFit state.1 rest.length ∧
      ObjectTables.AddsSymbols linkedObject (fun entry => StatementIn state.1 entry.1)
        (fun entry => Offsets dmRange entry.2) before.2 state.2 seen)
    (fun seen state entry next related stepped => ?_) entries [] before after
    (fun rest split => ⟨by rw [List.nil_append] at split; rwa [← split], .nil referenced⟩) ran
  · exact (whole [] (by simp)).2
  · intro rest split
    obtain ⟨filesNow, adds⟩ := related (entry :: rest) (by rw [split]; simp)
    obtain ⟨kept, filesNext, columns, named, last⟩ :=
      storeStatement_ok (above entry (by simp [split])) filesNow stepped
    refine ⟨filesNext, (adds.mono fun _ _ => StatementIn.mono kept).snoc last named ?_⟩
    rw [adds.nextObject]
    exact fits seen.length (by simp [split])

end SymbolTable

end OpenSpeedShop
