import OpenSpeedShop.Framework.StoreReturns

/-!
Symbols that were added to the symbol table of a linked object are found again in
the threads that use it, at the addresses of their accepted ranges.
-/

namespace OpenSpeedShop

open Fallible
open OffsetBinary (decode encode)
open Thread (objectsAt mem_rangesAt spacesAt rangesAt getLoopsAt)

namespace ObjectTables

section

variable {Columns Symbol : Type} {linkedObject : Int32} {columns : Symbol → Columns → Prop}
  {addresses : Symbol → Address → Prop} {before after : ObjectTables Columns}
  {symbols : List Symbol}

section

variable (adds : AddsSymbols linkedObject columns addresses before after symbols)
  (referenced : before.Referenced)
include adds referenced

theorem AddsSymbols.mem_rangesAt {other : Int32} {offset : Address} {row : Int × RangeRow}
    (member : row ∈ rangesAt after other offset) :
    row ∈ rangesAt before other offset ∨ ∃ bitmap, row.2.bitmap = .ok bitmap := by
  obtain ⟨inRanges, within, object, inObjects, joined, number, linked⟩ :=
    Thread.mem_rangesAt.mp member
  obtain ⟨ranges, sameRanges, decoded⟩ := adds.ranges
  rw [sameRanges] at inRanges
  rcases List.mem_append.mp inRanges with old | new
  · left
    obtain ⟨rows, sameRows, numbers, -⟩ := adds.objects
    rw [sameRows] at inObjects
    refine Thread.mem_rangesAt.mpr ⟨old, within, object, ?_, joined, number, linked⟩
    rcases List.mem_append.mp inObjects with earlier | later
    · exact earlier
    · have isNew : object.id ∈ rows.map ObjectRow.id := List.mem_map.mpr ⟨object, later, rfl⟩
      rw [numbers] at isNew
      obtain ⟨i, -, same⟩ := List.mem_map.mp isNew
      have below := lt_nextObject (referenced row.2 old)
      omega
  · exact .inr (decoded row.2 new)

theorem AddsSymbols.objectsAt {space : AddressSpaceRow} {address : Address}
    {previous : List Int} (linked : space.linkedObject = linkedObject)
    (above : decode space.addrBegin ≤ address)
    (looked : Thread.objectsAt before space address = .ok previous) :
    ∃ found, Thread.objectsAt after space address = .ok found ∧ ∀ object, object ∈ found ↔ object ∈ previous ∨
        ∃ (i : Nat) (symbol : Symbol), symbols[i]? = some symbol ∧ object = before.nextObject + i ∧
          addresses symbol (address - decode space.addrBegin) := by
  have parts := looked
  simp only [Thread.objectsAt, bind_eq_ok] at parts
  obtain ⟨offset, subtracted, collected⟩ := parts
  have each := (collect_eq_ok.mp collected).1
  have total : ∃ found, Thread.objectsAt after space address = .ok found := by
    simp only [Thread.objectsAt, subtracted, ok_bind]
    refine ⟨_, collect_total fun row member => ?_⟩
    rcases adds.mem_rangesAt referenced member with earlier | ⟨bitmap, decoded⟩
    · exact each row earlier
    · obtain ⟨valid, got⟩ :=
        RangeRow.getValue_total decoded (Thread.mem_rangesAt.mp member).2.1
      exact ⟨_, by simp only [decoded, ok_bind, got]; rfl⟩
  obtain ⟨found, ran⟩ := total
  refine ⟨found, ran, fun object => ?_⟩
  rw [Thread.mem_objectsAt ran above, Thread.mem_objectsAt looked above, adds.marks, and_iff_right linked]

end

end

structure HasRows {Columns Key : Type} (linkedObject : Int32) (before after : ObjectTables Columns)
    (keys : Key → Prop) (columns : Key → Columns → Prop) (rowOf : Key → Int) : Prop where
  stored : ∀ key, keys key → ∃ own, columns key own ∧ ⟨rowOf key, linkedObject, own⟩ ∈ after.objects
  new : ∀ key, keys key → ∀ row ∈ before.objects, row.id ≠ rowOf key
  injective : ∀ first second, keys first → keys second → rowOf first = rowOf second →
    first = second

def rowOf {Columns Key Value : Type} [DecidableEq Key] (before : ObjectTables Columns)
    (entries : List (Key × Value)) (key : Key) : Int :=
  before.nextObject + (entries.map Prod.fst).idxOf key

section

variable {Columns Key : Type} [DecidableEq Key] {less : Key → Key → Bool} {linkedObject : Int32}
  {dmRange : AddressRange} {entries : List (Key × List AddressRange)}
  {added : Key → AddressRange → Prop} {columns : Key → Columns → Prop}
  {before after : ObjectTables Columns}

theorem getElem?_idxOf {key : Key} {ranges : List AddressRange}
    (nodup : (entries.map Prod.fst).Nodup) (member : (key, ranges) ∈ entries) :
    entries[(entries.map Prod.fst).idxOf key]? = some (key, ranges) := by
  have present : key ∈ entries.map Prod.fst := List.mem_map.mpr ⟨_, member, rfl⟩
  have here := List.getElem?_idxOf present
  rw [List.getElem?_map, Option.map_eq_some_iff] at here
  obtain ⟨entry, found, same⟩ := here
  rw [found, List.inj_on_of_nodup_map nodup (List.mem_of_getElem? found) member same]

theorem exists_of_forall₂ {One Other : Type} {related : One → Other → Prop} {ones : List One}
    {others : List Other} (each : List.Forall₂ related ones others) :
    ∀ {i : Nat} {one : One}, ones[i]? = some one → ∃ other, others[i]? = some other ∧ related one other := by
  induction each with
  | nil =>
    intro i one here
    cases here
  | cons first rest ih =>
    intro i one here
    cases i with
    | zero =>
      obtain rfl := Option.some.inj here
      exact ⟨_, rfl, first⟩
    | succ i => exact ih here

theorem AddsSymbols.hasRows (adds : AddsSymbols linkedObject (fun entry => columns entry.1)
      (fun entry => SymbolTable.Offsets dmRange entry.2) before after entries)
    (order : OrderedMap.StrictTotal less) (collects : OrderedMap.Collects less entries added) :
    HasRows linkedObject before after (fun key => ∃ range, added key range) columns
      (before.rowOf entries) := by
  have nodup := collects.sorted.keys_nodup order
  obtain ⟨rows, sameRows, numbers, each⟩ := adds.objects
  refine ⟨?_, ?_, ?_⟩
  · rintro key ⟨range, isAdded⟩
    obtain ⟨ranges, member⟩ := collects.exists_mem order isAdded
    have here := getElem?_idxOf nodup member
    obtain ⟨row, rowHere, linked, named⟩ := exists_of_forall₂ each here
    have number : row.id = before.rowOf entries key := by
      have both := congrArg (·[(entries.map Prod.fst).idxOf key]?) numbers
      have inside := (List.getElem?_eq_some_iff.mp here).1
      simpa [rowHere, inside, rowOf] using both
    refine ⟨row.columns, named, ?_⟩
    rw [sameRows, ← number, ← linked]
    exact List.mem_append_right _ (List.mem_of_getElem? rowHere)
  · rintro key - row member same
    have below := lt_nextObject (List.mem_map.mpr ⟨row, member, rfl⟩)
    rw [same, rowOf] at below
    omega
  · rintro first second ⟨range, isAdded⟩ - same
    obtain ⟨ranges, member⟩ := collects.exists_mem order isAdded
    have present : first ∈ entries.map Prod.fst := List.mem_map.mpr ⟨_, member, rfl⟩
    refine (List.idxOf_inj present).mp ?_
    simpa [rowOf] using same

theorem exists_symbol_iff (order : OrderedMap.StrictTotal less)
    (collects : OrderedMap.Collects less entries added) {offset : Address} {object : Int} :
    (∃ (i : Nat) (entry : Key × List AddressRange), entries[i]? = some entry ∧
      object = before.nextObject + i ∧ SymbolTable.Offsets dmRange entry.2 offset) ↔
    ∃ key range, added key range ∧ range.doesContain (dmRange.dmBegin + offset) = true ∧
      object = before.rowOf entries key := by
  have nodup := collects.sorted.keys_nodup order
  constructor
  · rintro ⟨i, ⟨key, ranges⟩, here, rfl, range, inRanges, contains⟩
    have member := List.mem_of_getElem? here
    refine ⟨key, range, (collects.mem_iff order member range).mp inRanges, contains, ?_⟩
    have same := (List.getElem?_inj (List.getElem?_eq_some_iff.mp here).1 nodup.of_map).mp
      (here.trans (getElem?_idxOf nodup member).symm)
    rw [rowOf, ← same]
  · rintro ⟨key, range, isAdded, contains, rfl⟩
    obtain ⟨ranges, member⟩ := collects.exists_mem order isAdded
    exact ⟨_, (key, ranges), getElem?_idxOf nodup member, rfl, range,
      (collects.mem_iff order member range).mpr isAdded, contains⟩

end

end ObjectTables

def FindsAlso (before after : Result (Finset Entry)) (new : Entry → Prop) : Prop :=
  ∀ previous, before = .ok previous → ∃ found, after = .ok found ∧
    ∀ symbol, symbol ∈ found ↔ symbol ∈ previous ∨ new symbol

section

variable {tables after : SymbolTables} {thread : Entry} {address : Address} {time : Time}
  {space : AddressSpaceRow}

def entriesOf (database : DatabasePtr) (rows : Result (List Int)) : Result (Finset Entry) :=
  rows.map fun found => (found.map fun id => (⟨database, id⟩ : Entry)).toFinset

theorem getLoopsAt_single (single : spacesAt tables thread address time = [space]) :
    getLoopsAt (fun _ => tables) thread address time =
      entriesOf thread.dmDatabase (objectsAt tables.loops space address) := by
  simp only [getLoopsAt, single]
  cases objectsAt tables.loops space address <;> rfl

theorem getStatementsAt_single (single : spacesAt tables thread address time = [space]) :
    Thread.getStatementsAt (fun _ => tables) thread address time =
      entriesOf thread.dmDatabase (objectsAt tables.statements space address) := by
  simp only [Thread.getStatementsAt, single]
  cases objectsAt tables.statements space address <;> rfl

theorem findsAlso_entriesOf {database : DatabasePtr} {first second : Result (List Int)} {new : Int → Prop}
    (grows : ∀ previous, first = .ok previous → ∃ found, second = .ok found ∧
      ∀ object, object ∈ found ↔ object ∈ previous ∨ new object) :
    FindsAlso (entriesOf database first) (entriesOf database second)
      fun symbol => symbol.dmDatabase = database ∧ new symbol.dmEntry := by
  intro previous ran
  cases first with
  | error failure => cases ran
  | ok rows =>
    obtain ⟨found, same, members⟩ := grows rows rfl
    cases ran
    refine ⟨_, by rw [same]; rfl, fun symbol => ?_⟩
    simp only [List.mem_toFinset, List.mem_map, members]
    constructor
    · rintro ⟨id, earlier | isNew, rfl⟩
      · exact .inl ⟨id, earlier, rfl⟩
      · exact .inr ⟨rfl, isNew⟩
    · rintro (⟨id, earlier, rfl⟩ | ⟨rfl, isNew⟩)
      · exact ⟨id, .inl earlier, rfl⟩
      · exact ⟨symbol.dmEntry, .inr isNew, rfl⟩

end

namespace SymbolTable

structure HasRoom (tables : SymbolTables) (count : Nat) : Prop where
  loopsReferenced : tables.loops.Referenced
  statementsReferenced : tables.statements.Referenced
  loops : tables.loops.Fits count
  statements : tables.statements.Fits count
  files : FilesFit tables.files count

section

variable {dmRange : AddressRange} {calls : List Call} {table : SymbolTable}
  {linkedObject : Int32} {tables after : SymbolTables}

theorem above_of_accepted {ranges : List AddressRange}
    (accepted : ∀ range ∈ ranges, Accepted dmRange range) : Above dmRange ranges :=
  fun range present => ⟨(accepted range present).1, (accepted range present).2.1⟩

section

variable (holds : Holds dmRange calls table) (room : HasRoom tables calls.length)
  (stored : table.processAndStore linkedObject tables = .ok after)
include holds room stored

theorem Holds.addsLoops : ObjectTables.AddsSymbols linkedObject
      (fun entry own => own = encode (entry.1 - dmRange.dmBegin))
      (fun entry => Offsets dmRange entry.2) tables.loops after.loops table.dmLoops := by
  obtain ⟨-, -, loops, -⟩ := processAndStore_eq_ok.mp stored
  rw [holds.range] at loops
  exact storeLoops_ok (fun entry member => above_of_accepted (holds.loopsAbove entry member))
    room.loopsReferenced (fun i inside => room.loops i (inside.trans_le holds.loopCount)) loops

theorem Holds.addsStatements :
    ObjectTables.AddsSymbols linkedObject (fun entry => StatementIn after.files entry.1)
      (fun entry => Offsets dmRange entry.2) tables.statements after.statements table.dmStatements := by
  obtain ⟨-, -, -, statements⟩ := processAndStore_eq_ok.mp stored
  rw [holds.range] at statements
  have files : FilesFit tables.files table.dmStatements.length :=
    ⟨room.files.stored, fun i inside => room.files.next i (inside.trans_le holds.statementCount)⟩
  have fits : tables.statements.Fits table.dmStatements.length :=
    fun i inside => room.statements i (inside.trans_le holds.statementCount)
  exact @storeStatements_ok dmRange linkedObject (tables.files, tables.statements)
    (after.files, after.statements) table.dmStatements
    (fun entry member => above_of_accepted (holds.statementsAbove entry member))
    room.statementsReferenced fits files statements

end

def LoopsAt (dmRange : AddressRange) (calls : List Call) (loopRow : Address → Int)
    (offset : Address) (loop : Int) : Prop :=
  ∃ head range, LoopAdded dmRange calls head range ∧
    range.doesContain (dmRange.dmBegin + offset) = true ∧ loop = loopRow head

def StatementsAt (dmRange : AddressRange) (calls : List Call)
    (statementRow : StatementEntry → Int) (offset : Address) (statement : Int) : Prop :=
  ∃ entry range, StatementAdded dmRange calls entry range ∧
    range.doesContain (dmRange.dmBegin + offset) = true ∧ statement = statementRow entry

theorem objectsAt_unused {Columns : Type} {objects : ObjectTables Columns} {space : AddressSpaceRow}
    {address : Address} (unused : ∀ row ∈ objects.objects, row.linkedObject ≠ space.linkedObject)
    (above : decode space.addrBegin ≤ address)
    (near : address.toNat - (decode space.addrBegin).toNat < 2 ^ 63) :
    objectsAt objects space address = .ok [] := by
  have nothing : ∀ offset, rangesAt objects space.linkedObject offset = [] := by
    intro offset
    rw [List.eq_nil_iff_forall_not_mem]
    intro row member
    obtain ⟨-, -, object, inObjects, -, -, linked⟩ := mem_rangesAt.mp member
    exact unused object inObjects linked
  simp only [objectsAt, Address.sub_of_le above near, ok_bind, nothing]
  rfl

end

structure MappedOnce (tables : SymbolTables) (thread : Entry) (time : Time) (linkedObject : Int32)
    (dmRange : AddressRange) (space : AddressSpaceRow) : Prop where
  linked : space.linkedObject = linkedObject
  size : (OffsetBinary.decode space.addrEnd).toNat - (OffsetBinary.decode space.addrBegin).toNat =
    dmRange.dmEnd.toNat - dmRange.dmBegin.toNat
  single : ∀ address, OffsetBinary.decode space.addrBegin ≤ address →
    address < OffsetBinary.decode space.addrEnd →
    Thread.spacesAt tables thread address time = [space]

/-- The table is stored, each symbol in its own row, and a lookup in the image finds just the rows of the
symbols that have an accepted range at the address. -/
def FindsStored (dmRange : AddressRange) (calls : List Call) (linkedObject : Int32)
    (tables : SymbolTables) (thread : Entry) (time : Time) (space : AddressSpaceRow) : Prop :=
  ∃ table after, Runs.run Call.step (SymbolTable.new dmRange) calls = some table ∧
    table.processAndStore linkedObject tables = .ok after ∧
    ∃ (loopRow : Address → Int) (statementRow : StatementEntry → Int),
      ObjectTables.HasRows linkedObject tables.loops after.loops
        (fun head => ∃ range, LoopAdded dmRange calls head range)
        (fun head own => own = OffsetBinary.encode (head - dmRange.dmBegin)) loopRow ∧
      ObjectTables.HasRows linkedObject tables.statements after.statements
        (fun statement => ∃ range, StatementAdded dmRange calls statement range)
        (StatementIn after.files) statementRow ∧
      ∀ address, OffsetBinary.decode space.addrBegin ≤ address →
        address < OffsetBinary.decode space.addrEnd →
        ∃ loops statements, Thread.getLoopsAt (fun _ => after) thread address time = .ok loops ∧
          Thread.getStatementsAt (fun _ => after) thread address time = .ok statements ∧
          (∀ loop, loop ∈ loops ↔ loop.dmDatabase = thread.dmDatabase ∧ LoopsAt dmRange calls
            loopRow (address - OffsetBinary.decode space.addrBegin) loop.dmEntry) ∧
          ∀ statement, statement ∈ statements ↔ statement.dmDatabase = thread.dmDatabase ∧
            StatementsAt dmRange calls statementRow
              (address - OffsetBinary.decode space.addrBegin) statement.dmEntry

section

variable {dmRange : AddressRange} {calls : List Call} {linkedObject : Int32}
  {tables after : SymbolTables} {thread : Entry} {time : Time} {space : AddressSpaceRow}

theorem findsAlso_unused {Columns : Type} {objects later : ObjectTables Columns}
    {address : Address} {new : Entry → Prop}
    (unused : ∀ row ∈ objects.objects, row.linkedObject ≠ space.linkedObject)
    (above : decode space.addrBegin ≤ address)
    (near : address.toNat - (decode space.addrBegin).toNat < 2 ^ 63)
    (grows : FindsAlso (entriesOf thread.dmDatabase (objectsAt objects space address))
      (entriesOf thread.dmDatabase (objectsAt later space address)) new) :
    ∃ found, entriesOf thread.dmDatabase (objectsAt later space address) = .ok found ∧
      ∀ symbol, symbol ∈ found ↔ new symbol := by
  rw [objectsAt_unused unused above near] at grows
  obtain ⟨found, looked, members⟩ := grows ∅ rfl
  exact ⟨found, looked, fun symbol => by rw [members]; simp⟩

theorem getLoopsAt_far {address : Address} (single : spacesAt after thread address time = [space])
    (far : 2 ^ 63 ≤ address.toNat - (decode space.addrBegin).toNat) (loops : Finset Entry) :
    getLoopsAt (fun _ => after) thread address time ≠ .ok loops := by
  intro looked
  rw [getLoopsAt_single single] at looked
  cases found : objectsAt after.loops space address with
  | error failure =>
    rw [found] at looked
    cases looked
  | ok rows =>
    simp only [objectsAt, bind_eq_ok] at found
    obtain ⟨offset, subtracted, -⟩ := found
    have near := (Address.sub_returns_iff.mp ⟨offset, subtracted⟩).1
    omega

/-- Storing a symbol table and looking up its loops and statements works exactly
where no checked subtraction and no counter of 32 bits fails. -/
theorem findsStored_iff (room : HasRoom tables calls.length)
    (mapped : MappedOnce tables thread time linkedObject dmRange space)
    (loopsUnused : ∀ row ∈ tables.loops.objects, row.linkedObject ≠ linkedObject)
    (statementsUnused : ∀ row ∈ tables.statements.objects, row.linkedObject ≠ linkedObject) :
    FindsStored dmRange calls linkedObject tables thread time space ↔
      Storable dmRange calls ∧ dmRange.dmEnd.toNat - dmRange.dmBegin.toNat ≤ 2 ^ 63 := by
  have sameSpaces : ∀ {table : SymbolTable} {stored : SymbolTables},
      table.processAndStore linkedObject tables = .ok stored → ∀ address,
      OffsetBinary.decode space.addrBegin ≤ address → address < OffsetBinary.decode space.addrEnd →
      Thread.spacesAt stored thread address time = [space] := by
    intro table stored ran address above below
    rw [← mapped.single address above below, Thread.spacesAt, Thread.spacesAt,
      (processAndStore_eq_ok.mp ran).1]
  constructor
  · rintro ⟨table, stored, ran, storing, loopRow, statementRow, -, -, lookups⟩
    have returns := run_returns_iff.mp ⟨table, ran⟩
    refine ⟨(processAndStore_returns_iff (holds_of_run ran) (keepsFirst_of_run ran) returns).mp
      ⟨stored, storing⟩, ?_⟩
    by_contra large
    -- the image has an address that is 2^63 above its beginning
    have bound := (OffsetBinary.decode space.addrEnd).toNat_lt
    have size := mapped.size
    have value : (UInt64.ofNat ((OffsetBinary.decode space.addrBegin).toNat + 2 ^ 63)).toNat =
        (OffsetBinary.decode space.addrBegin).toNat + 2 ^ 63 :=
      UInt64.toNat_ofNat_of_lt' (by simp only [UInt64.size]; omega)
    have above : OffsetBinary.decode space.addrBegin ≤
        UInt64.ofNat ((OffsetBinary.decode space.addrBegin).toNat + 2 ^ 63) := by
      rw [UInt64.le_iff_toNat_le]
      omega
    have below : UInt64.ofNat ((OffsetBinary.decode space.addrBegin).toNat + 2 ^ 63) <
        OffsetBinary.decode space.addrEnd := by
      rw [UInt64.lt_iff_toNat_lt]
      omega
    obtain ⟨loops, -, looked, -⟩ := lookups _ above below
    exact getLoopsAt_far (sameSpaces storing _ above below) (by omega) loops looked
  · rintro ⟨storable, small⟩
    obtain ⟨table, ran⟩ := run_returns_iff.mpr storable.returns
    have holds := holds_of_run ran
    obtain ⟨stored, storing⟩ := (@processAndStore_returns_iff _ _ _ linkedObject tables holds
      (keepsFirst_of_run ran) storable.returns).mpr storable
    have loops := holds.addsLoops room storing
    have statements := holds.addsStatements room storing
    refine ⟨table, stored, ran, storing, tables.loops.rowOf table.dmLoops,
      tables.statements.rowOf table.dmStatements, loops.hasRows Address.less_strictTotal holds.loops,
      statements.hasRows StatementEntry.less_strictTotal holds.statements, ?_⟩
    intro address above below
    have single := sameSpaces storing address above below
    have near : address.toNat - (OffsetBinary.decode space.addrBegin).toNat < 2 ^ 63 := by
      have size := mapped.size
      rw [UInt64.le_iff_toNat_le] at above
      rw [UInt64.lt_iff_toNat_lt] at below
      omega
    have loopsFound := findsAlso_unused (by rw [mapped.linked]; exact loopsUnused) above near
      (@findsAlso_entriesOf thread.dmDatabase _ _ _ fun previous looked =>
        loops.objectsAt room.loopsReferenced mapped.linked above looked)
    have statementsFound := findsAlso_unused (by rw [mapped.linked]; exact statementsUnused) above
      near (@findsAlso_entriesOf thread.dmDatabase _ _ _ fun previous looked =>
        statements.objectsAt room.statementsReferenced mapped.linked above looked)
    obtain ⟨foundLoops, lookedLoops, loopMembers⟩ := loopsFound
    obtain ⟨foundStatements, lookedStatements, statementMembers⟩ := statementsFound
    refine ⟨foundLoops, foundStatements, by rw [getLoopsAt_single single, lookedLoops],
      by rw [getStatementsAt_single single, lookedStatements], fun loop => ?_, fun statement => ?_⟩
    · rw [loopMembers, ObjectTables.exists_symbol_iff Address.less_strictTotal holds.loops]
      rfl
    · rw [statementMembers, ObjectTables.exists_symbol_iff StatementEntry.less_strictTotal holds.statements]
      rfl

end

/-- Linked object 1, without symbols, is mapped at `[65536, 65552)` in thread 1. -/
def sixteenMapped : SymbolTables where
  addressSpaces := [⟨1, OffsetBinary.encode 0, OffsetBinary.encode 100, OffsetBinary.encode 65536,
    OffsetBinary.encode 65552, 1⟩]
  functions := ⟨[], []⟩
  loops := ⟨[], []⟩
  files := []
  statements := ⟨[], []⟩

theorem sixteenMapped_hasRoom : HasRoom sixteenMapped 1 where
  loopsReferenced := fun _ member => absurd member List.not_mem_nil
  statementsReferenced := fun _ member => absurd member List.not_mem_nil
  loops := by unfold ObjectTables.Fits; decide
  statements := by unfold ObjectTables.Fits; decide
  files := ⟨fun _ member => absurd member List.not_mem_nil, by decide⟩

def sixteenAddresses : AddressSpaceRow :=
  ⟨1, OffsetBinary.encode 0, OffsetBinary.encode 100, OffsetBinary.encode 65536, OffsetBinary.encode 65552, 1⟩

theorem sixteenMapped_once {dmRange : AddressRange}
    (size : 16 = dmRange.dmEnd.toNat - dmRange.dmBegin.toNat) :
    MappedOnce sixteenMapped ⟨1, 1⟩ 5 1 dmRange sixteenAddresses where
  linked := rfl
  size := size
  single := by
    intro address above below
    have inside : between address sixteenAddresses.addrBegin sixteenAddresses.addrEnd = true :=
      between_iff.mpr ⟨above, below⟩
    change List.filter _ [sixteenAddresses] = _
    rw [List.filter_cons_of_pos, List.filter_nil]
    rw [inside]
    decide

theorem findsStored_sixteenMapped :
    FindsStored ⟨4096, 4112⟩ [.addStatement 4096 4100 "main.c" 3 0] 1 sixteenMapped ⟨1, 1⟩ 5
      sixteenAddresses :=
  (findsStored_iff sixteenMapped_hasRoom (sixteenMapped_once (by decide)) (by simp [sixteenMapped])
    (by simp [sixteenMapped])).mpr
    ⟨storable_of_narrow (by decide) (by simp [Call.Returns, Call.bounds]) (by simp [LoopAdded]), by decide⟩

theorem upperHalf_aborts : HasRoom sixteenMapped 1 ∧
    MappedOnce sixteenMapped ⟨1, 1⟩ 5 1 ⟨0x8000000000000000, 0x8000000000000010⟩ sixteenAddresses ∧
    ¬ FindsStored ⟨0x8000000000000000, 0x8000000000000010⟩
      [.addStatement 0x8000000000000000 0x8000000000000008 "main.c" 3 0] 1 sixteenMapped ⟨1, 1⟩ 5
      sixteenAddresses := by
  refine ⟨sixteenMapped_hasRoom, sixteenMapped_once (by decide), ?_⟩
  rintro ⟨table, after, ran, -⟩
  have aborted : Runs.run Call.step (SymbolTable.new ⟨0x8000000000000000, 0x8000000000000010⟩)
      [.addStatement 0x8000000000000000 0x8000000000000008 "main.c" 3 0] = none := rfl
  rw [aborted] at ran
  cases ran

end SymbolTable

end OpenSpeedShop
