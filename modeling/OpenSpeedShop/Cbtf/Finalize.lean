import OpenSpeedShop.Cbtf.FinalizeStore

/-!
Linked objects of different processes get in each other's way in the map of symbol tables, functions of
an earlier experiment in that of functions, and the clean-up leaves rows that name deleted ones.
-/

namespace OpenSpeedShop

open Fallible
open List (mem_map mem_filter map_map)

namespace Cbtf

section

variable {tables : Tables}

theorem mem_cleanUp_threads {id : Int} : id ∈ (cleanUp tables).threads ↔
    id ∈ tables.threads ∧ id ∈ tables.data.map Int32.toInt := by
  change id ∈ List.filter _ tables.threads ↔ _
  rw [mem_filter, decide_eq_true_eq]

theorem mem_cleanUp_linkedObjects {row : LinkedObjectRow} :
    row ∈ (cleanUp tables).linkedObjects ↔ row ∈ tables.linkedObjects ∧
      (row.id ∈ tables.functions.objects.map (·.linkedObject.toInt) ∨
        row.id ∈ tables.statements.objects.map (·.linkedObject.toInt)) := by
  change row ∈ List.filter _ tables.linkedObjects ↔ _
  rw [mem_filter, decide_eq_true_eq]

theorem mem_cleanUp_files {row : FileRow} : row ∈ (cleanUp tables).files ↔ row ∈ tables.files ∧
      (row.id ∈ (cleanUp tables).linkedObjects.map (·.file.toInt) ∨
        row.id ∈ tables.statements.objects.map (·.columns.file.toInt)) := by
  change row ∈ List.filter _ tables.files ↔ _
  rw [mem_filter, decide_eq_true_eq]
  rfl

theorem mem_cleanUp_addressSpaces {row : AddressSpaceRow} :
    row ∈ (cleanUp tables).addressSpaces ↔ row ∈ tables.addressSpaces ∧
      (row.linkedObject.toInt ∈ (cleanUp tables).linkedObjects.map (·.id) ∨
        row.linkedObject ∈ tables.statements.objects.map (·.linkedObject)) ∧
      row.thread.toInt ∈ (cleanUp tables).threads := by
  change row ∈ List.filter _ (List.filter _ tables.addressSpaces) ↔ _
  rw [mem_filter, mem_filter, decide_eq_true_eq, decide_eq_true_eq, and_assoc]
  rfl

theorem mem_cleanUp_objectIds {linkedObject : Int32}
    (known : linkedObject.toInt ∈ tables.linkedObjects.map LinkedObjectRow.id) :
    linkedObject.toInt ∈ (cleanUp tables).linkedObjects.map LinkedObjectRow.id ↔
      tables.functions.HasAny linkedObject ∨ tables.statements.HasAny linkedObject := by
  have named : ∀ {Columns : Type} (objects : List (ObjectRow Columns)),
      linkedObject.toInt ∈ objects.map (·.linkedObject.toInt) ↔
        ∃ row ∈ objects, row.linkedObject = linkedObject := by
    intro Columns objects
    rw [mem_map]
    exact exists_congr fun row => and_congr_right fun _ => Int32.toInt_inj
  simp only [ObjectTables.HasAny, ← named]
  constructor
  · intro member
    obtain ⟨row, kept, number⟩ := mem_map.mp member
    rw [← number]
    exact (mem_cleanUp_linkedObjects.mp kept).2
  · intro used
    obtain ⟨row, member, number⟩ := mem_map.mp known
    rw [← number] at used
    exact mem_map.mpr ⟨row, mem_cleanUp_linkedObjects.mpr ⟨member, used⟩, number⟩

theorem cleanUp_intact_iff (intact : Intact tables) : Intact (cleanUp tables) ↔
    (∀ thread ∈ tables.collecting, thread.toInt ∈ tables.data.map Int32.toInt) ∧
      ∀ linkedObject, tables.loops.HasAny linkedObject →
        tables.functions.HasAny linkedObject ∨ tables.statements.HasAny linkedObject := by
  constructor
  · intro after
    refine ⟨fun thread member =>
      (mem_cleanUp_threads.mp (after.collectingThread thread member)).2, ?_⟩
    rintro linkedObject ⟨row, member, rfl⟩
    exact (mem_cleanUp_objectIds (intact.loopObject row member)).mp (after.loopObject row member)
  · rintro ⟨collecting, loops⟩
    have ofStatement : ∀ row ∈ tables.statements.objects,
        row.linkedObject.toInt ∈ (cleanUp tables).linkedObjects.map LinkedObjectRow.id :=
      fun row member => (mem_cleanUp_objectIds (intact.statementObject row member)).mpr
        (.inr ⟨row, member, rfl⟩)
    refine {
      spaceThread := fun row member => (mem_cleanUp_addressSpaces.mp member).2.2
      spaceObject := fun row member => ?_
      objectFile := fun row member => ?_
      functionObject := fun row member =>
        (mem_cleanUp_objectIds (intact.functionObject row member)).mpr (.inl ⟨row, member, rfl⟩)
      functionRange := intact.functionRange
      loopObject := fun row member => (mem_cleanUp_objectIds (intact.loopObject row member)).mpr
        (loops row.linkedObject ⟨row, member, rfl⟩)
      loopRange := intact.loopRange
      statementObject := ofStatement
      statementFile := fun row member => ?_
      statementRange := intact.statementRange
      dataThread := fun thread member => mem_cleanUp_threads.mpr
        ⟨intact.dataThread thread member, mem_map.mpr ⟨thread, member, rfl⟩⟩
      collectingThread := fun thread member => mem_cleanUp_threads.mpr
        ⟨intact.collectingThread thread member, collecting thread member⟩ }
    · rcases (mem_cleanUp_addressSpaces.mp member).2.1 with kept | stated
      · exact kept
      · obtain ⟨statement, present, same⟩ := mem_map.mp stated
        rw [← same]
        exact ofStatement statement present
    · obtain ⟨file, present, number⟩ :=
        mem_map.mp (intact.objectFile row (mem_cleanUp_linkedObjects.mp member).1)
      refine mem_map.mpr ⟨file, mem_cleanUp_files.mpr ⟨present, .inl ?_⟩, number⟩
      exact mem_map.mpr ⟨row, member, number.symm⟩
    · obtain ⟨file, present, number⟩ := mem_map.mp (intact.statementFile row member)
      refine mem_map.mpr ⟨file, mem_cleanUp_files.mpr ⟨present, .inr ?_⟩, number⟩
      exact mem_map.mpr ⟨row, member, number.symm⟩

variable {entries : SymbolTableMap}

theorem named_of_hasAny {Columns : Type} {before : ObjectTables Columns} {ids : List Int}
    {given : AddressRange × SymbolTable × Int32 → Prop}
    (old : ∀ row ∈ before.objects, row.linkedObject.toInt ∈ ids)
    (known : ∀ entry ∈ entries, entry.2.2.toInt ∈ ids) {linkedObject : Int32}
    (has : before.HasAny linkedObject ∨ ∃ entry ∈ entries, entry.2.2 = linkedObject ∧ given entry) :
    linkedObject.toInt ∈ ids := by
  rcases has with ⟨row, member, rfl⟩ | ⟨entry, member, rfl, -⟩
  · exact old row member
  · exact known entry member

theorem stored_intact (intact : Intact tables) {after : ExperimentTables}
    (stores : SymbolTable.StoresEach entries tables.toSymbolTables after.toSymbolTables)
    (threads : after.threads = tables.threads) (objects : after.linkedObjects = tables.linkedObjects)
    (known : ∀ entry ∈ entries, entry.2.2.toInt ∈ tables.linkedObjects.map LinkedObjectRow.id) :
    Intact { tables with toExperimentTables := after } := by
  have spaces := stores.addressSpaces
  obtain ⟨functions, loops, statements⟩ :=
    stores.referenced intact.functionRange intact.loopRange intact.statementRange
  refine {
    spaceThread := fun row member => ?_
    spaceObject := fun row member => ?_
    objectFile := fun row member => ?_
    functionObject := fun row member => ?_
    functionRange := functions
    loopObject := fun row member => ?_
    loopRange := loops
    statementObject := fun row member => ?_
    statementFile := stores.statementFile intact.statementFile
    statementRange := statements
    dataThread := fun thread member => ?_
    collectingThread := fun thread member => ?_ } <;> simp only [threads, objects, spaces] at member ⊢
  · exact intact.spaceThread row member
  · exact intact.spaceObject row member
  · exact List.map_subset _ stores.files (intact.objectFile row member)
  · exact named_of_hasAny intact.functionObject known (stores.hasFunction_iff.mp ⟨row, member, rfl⟩)
  · exact named_of_hasAny intact.loopObject known (stores.hasLoop_iff.mp ⟨row, member, rfl⟩)
  · exact named_of_hasAny intact.statementObject known (stores.hasStatement_iff.mp ⟨row, member, rfl⟩)
  · exact intact.dataThread thread member
  · exact intact.collectingThread thread member

end

def pairs (symtabmap : SymbolTableMap) : List (Int32 × AddressRange) :=
  symtabmap.map fun entry => (entry.2.2, entry.1)

def callCount (readers : Readers) (symtabmap : SymbolTableMap) : Nat :=
  ((pairs symtabmap).map fun pair => (readers pair.1 pair.2).length).sum

def HasFunction (tables : ObjectTables String) (linkedObject : Int32) (range : AddressRange)
    (function : AddressRange × String) : Prop :=
  tables.Has linkedObject function.2 (SymbolTable.Offsets range [function.1])

section

variable (readers : Readers) (sampled : List Address) (allfuncs : FunctionMap) (tables : RecordedTables)

/-- Every linked object with a sampled address gets exactly one symbol table, all of whose
functions are recorded in the end, and no row names a row that is not there. -/
def Finalizes : Prop :=
  ∃ symtabmap final after, symbolTables sampled tables.toExperimentTables = some symtabmap ∧
    finalize readers sampled allfuncs.entries tables.toTables = some (final, after) ∧
    OneTableEach sampled tables.toExperimentTables symtabmap ∧
    (∀ pair ∈ pairs symtabmap, ∀ function ∈ SymbolTable.firstCome pair.2 (readers pair.1 pair.2),
      HasFunction after.functions pair.1 pair.2 function) ∧
    Intact after

def Looped (linkedObject : Int32) : Prop :=
  tables.loops.HasAny linkedObject ∨ ∃ range,
    firstSampled sampled tables.toExperimentTables linkedObject = some range ∧
      ∃ head loop, SymbolTable.LoopAdded range (readers linkedObject range) head loop

def Kept (linkedObject : Int32) : Prop :=
  tables.functions.HasAny linkedObject ∨ tables.statements.HasAny linkedObject ∨ ∃ range,
    firstSampled sampled tables.toExperimentTables linkedObject = some range ∧
      (SymbolTable.firstCome range (readers linkedObject range) ≠ [] ∨
        ∃ statement place, SymbolTable.StatementAdded range (readers linkedObject range) statement place)

/-- The ranges do not get in each other's way, what the readers add can be stored, a function overlapping
an earlier one is recorded already, a thread without data is not collected in, no object has loops only.
-/
structure Unhindered : Prop where
  separate : Separate sampled tables
  storable : ∀ linkedObject range,
    firstSampled sampled tables.toExperimentTables linkedObject = some range →
      Storable allfuncs.entries range (readers linkedObject range)
  recorded : ∀ linkedObject range,
    firstSampled sampled tables.toExperimentTables linkedObject = some range →
      ∀ function ∈ SymbolTable.firstCome range (readers linkedObject range),
        ¬ IsNew allfuncs.entries function.1 → HasFunction tables.functions linkedObject range function
  collecting : ∀ thread ∈ tables.collecting, thread.toInt ∈ tables.data.map Int32.toInt
  kept : ∀ linkedObject, Looped readers sampled tables linkedObject → Kept readers sampled tables linkedObject

end

section

variable {readers : Readers} {sampled : List Address} {allfuncs : FunctionMap}
  {tables : RecordedTables}

theorem pairs_of_resolve {symtabmap filled : SymbolTableMap}
    (ran : resolve readers symtabmap = some filled) : pairs filled = pairs symtabmap := by
  have each := resolve_eq_some ran
  clear ran
  induction each with
  | nil => rfl
  | cons first others ih =>
    simp only [pairs, List.map_cons, first.1, first.2.1] at ih ⊢
    rw [ih]

theorem mem_pairs {symtabmap : SymbolTableMap} {linkedObject : Int32} {range : AddressRange} :
    (linkedObject, range) ∈ pairs symtabmap ↔
      ∃ entry ∈ symtabmap, entry.2.2 = linkedObject ∧ entry.1 = range := by
  simp only [pairs, mem_map, Prod.mk.injEq]

theorem Built.filled {found : Found} {filled : SymbolTableMap}
    (built : Built tables.toExperimentTables (chosen sampled tables.toExperimentTables) found)
    (ran : resolve readers found.symtabmap = some filled) : Filled readers filled := by
  have each := resolve_eq_some ran
  have keys : filled.map Prod.fst = found.symtabmap.map Prod.fst := by
    have same := congrArg (List.map Prod.snd) (pairs_of_resolve ran)
    rw [pairs, pairs, map_map, map_map] at same
    exact same
  have run : ∀ entry ∈ filled, Runs.run SymbolTable.Call.step (SymbolTable.new entry.1)
      (readers entry.2.2 entry.1) = some entry.2.1 := by
    intro entry member
    obtain ⟨i, here⟩ := List.getElem?_of_mem member
    obtain ⟨one, there, range, object, called⟩ := ObjectTables.exists_of_forall₂ each.flip here
    rw [(built.made one (List.mem_of_getElem? there)).2, ← range, ← object] at called
    exact called
  refine ⟨⟨?_, fun entry member => ?_⟩, fun entry member => SymbolTable.keepsFirst_of_run
    (run entry member), fun entry member => SymbolTable.holds_of_run (run entry member)⟩
  · have sorted := built.formed.sorted
    rw [OrderedMap.Sorted, ← List.pairwise_map (f := Prod.fst)
      (R := fun first second => AddressRange.less first second = true)] at sorted ⊢
    rw [keys]
    exact sorted
  · have present := List.mem_map_of_mem (f := Prod.fst) member
    rw [keys] at present
    obtain ⟨one, inTables, same⟩ := mem_map.mp present
    rw [← same]
    exact built.formed.nonempty one inTables

theorem collects_ne_nil_iff {Key : Type} {less : Key → Key → Bool}
    {entries : List (Key × List AddressRange)} {added : Key → AddressRange → Prop}
    (order : OrderedMap.StrictTotal less) (collects : OrderedMap.Collects less entries added) :
    entries ≠ [] ↔ ∃ key range, added key range := by
  constructor
  · intro some_
    obtain ⟨⟨key, ranges⟩, member⟩ := List.exists_mem_of_ne_nil _ some_
    obtain ⟨range, present⟩ := List.exists_mem_of_ne_nil _ (collects.filled _ member)
    exact ⟨key, range, (collects.mem_iff order member range).mp present⟩
  · rintro ⟨key, range, isAdded⟩
    obtain ⟨ranges, member⟩ := collects.exists_mem order isAdded
    exact List.ne_nil_of_mem member

theorem function_of_offsets {range : AddressRange} {symbolTable : SymbolTable}
    {calls : List SymbolTable.Call} (keeps : SymbolTable.KeepsFirst range calls symbolTable)
    {one other : AddressRange × String} (oneMember : one ∈ symbolTable.dmFunctions)
    (otherMember : other ∈ symbolTable.dmFunctions)
    (same : ∀ address, SymbolTable.Offsets range [one.1] address ↔
      SymbolTable.Offsets range [other.1] address) : one = other := by
  obtain ⟨nonempty, -, -⟩ := keeps.accepted one oneMember
  have first : SymbolTable.Offsets range [one.1] (one.1.dmBegin - range.dmBegin) := by
    refine ⟨one.1, by simp, (Interval.doesContain_iff _ _).mpr ?_⟩
    rw [← SymbolTable.sub_eq_iff.mp rfl]
    exact ⟨le_refl _, nonempty⟩
  obtain ⟨found, member, contains⟩ := (same _).mp first
  obtain rfl := List.mem_singleton.mp member
  rw [← SymbolTable.sub_eq_iff.mp rfl] at contains
  have inside := (Interval.doesContain_iff _ _).mp contains
  exact keeps.formed.disjoint oneMember otherMember ⟨inside.2, inside.1.trans_lt nonempty⟩

theorem finalize_eq_some {final : Functions} {after : Tables} :
    finalize readers sampled allfuncs.entries tables.toTables = some (final, after) ↔
      ∃ symtabmap filled stored, symbolTables sampled tables.toExperimentTables = some symtabmap ∧
        resolve readers symtabmap = some filled ∧
        filled.foldlM storeTable (allfuncs.entries, tables.toExperimentTables) = some (final, stored) ∧
        after = cleanUp { tables.toTables with toExperimentTables := stored } := by
  simp only [finalize, Option.bind_eq_bind, Option.bind_eq_some_iff, Option.pure_def, Option.some.injEq]
  constructor
  · rintro ⟨symtabmap, found, filled, resolved, ⟨_, stored⟩, ran, same⟩
    cases same
    exact ⟨symtabmap, filled, stored, found, resolved, ran, rfl⟩
  · rintro ⟨symtabmap, filled, stored, found, resolved, ran, rfl⟩
    exact ⟨symtabmap, found, filled, resolved, (final, stored), ran, rfl⟩

section

variable {found : Found} {filled : SymbolTableMap} {after : ExperimentTables}
  (built : Built tables.toExperimentTables (chosen sampled tables.toExperimentTables) found)
  (ran : resolve readers found.symtabmap = some filled)
  (separate : Separate sampled tables)

include built ran

theorem Built.firstSampled_of_mem {entry : AddressRange × SymbolTable × Int32} (member : entry ∈ filled) :
    firstSampled sampled tables.toExperimentTables entry.2.2 = some entry.1 := by
  have present : (entry.2.2, entry.1) ∈ pairs filled := mem_pairs.mpr ⟨entry, member, rfl, rfl⟩
  rw [pairs_of_resolve ran] at present
  obtain ⟨made, inMap, object, range⟩ := mem_pairs.mp present
  have isChosen := (built.made made inMap).1
  rw [object, range] at isChosen
  exact (mem_chosen tables.intact.spaceThread).mp isChosen

include separate in
theorem Built.exists_filled {linkedObject : Int32} {range : AddressRange}
    (first : firstSampled sampled tables.toExperimentTables linkedObject = some range) :
    ∃ entry ∈ filled, entry.2.2 = linkedObject ∧ entry.1 = range := by
  have tablesOf := (oneTableEach_iff sampled tables built).mpr separate
  obtain ⟨made, inMap, rfl⟩ := (tablesOf.exact linkedObject).mp (sampled_of_firstSampled first)
  have own := (mem_chosen tables.intact.spaceThread).mp (built.made made inMap).1
  obtain rfl := Option.some.inj (own.symm.trans first)
  have present := mem_pairs.mpr ⟨made, inMap, rfl, rfl⟩
  rw [← pairs_of_resolve ran] at present
  exact mem_pairs.mp present

include separate in
theorem Built.recorded_iff (stores : SymbolTable.StoresEach (storedTables allfuncs.entries filled)
      tables.toSymbolTables after.toSymbolTables) {linkedObject : Int32} {range : AddressRange}
    (first : firstSampled sampled tables.toExperimentTables linkedObject = some range)
    {function : AddressRange × String}
    (called : function ∈ SymbolTable.firstCome range (readers linkedObject range)) :
    HasFunction after.functions linkedObject range function ↔
      IsNew allfuncs.entries function.1 ∨ HasFunction tables.functions linkedObject range function := by
  have whole := built.filled ran
  rw [HasFunction, stores.function_iff, or_comm]
  refine or_congr_left ?_
  obtain ⟨entry, member, rfl, rfl⟩ := built.exists_filled ran separate first
  have keeps := whole.keeps entry member
  constructor
  · rintro ⟨_, inStored, object, other, isKept, -, same⟩
    obtain ⟨own, ownMember, rfl⟩ := mem_map.mp inStored
    have sameRange := built.firstSampled_of_mem ran ownMember
    simp only at object isKept same
    rw [object, built.firstSampled_of_mem ran member] at sameRange
    have ranges := Option.some.inj sameRange
    obtain ⟨otherCalled, isNew⟩ := (whole.mem_onlyNew ownMember).mp isKept
    rw [object, ← ranges] at otherCalled
    rw [← ranges] at same
    obtain rfl := function_of_offsets keeps ((keeps.exact other).mpr otherCalled)
      ((keeps.exact function).mpr called) same
    exact isNew
  · intro isNew
    exact ⟨_, mem_map.mpr ⟨entry, member, rfl⟩, rfl, function,
      (whole.mem_onlyNew member).mpr ⟨called, isNew⟩, rfl, fun _ => Iff.rfl⟩

theorem Built.exists_stored {holds : AddressRange × SymbolTable × Int32 → Prop} {linkedObject : Int32} :
    (∃ entry ∈ storedTables allfuncs.entries filled, entry.2.2 = linkedObject ∧ holds entry) ↔
      ∃ range, firstSampled sampled tables.toExperimentTables linkedObject = some range ∧
        ∃ entry ∈ filled, entry.2.2 = linkedObject ∧ entry.1 = range ∧
          holds (entry.1, onlyNew allfuncs.entries entry.2.1, entry.2.2) := by
  constructor
  · rintro ⟨_, inStored, object, held⟩
    obtain ⟨entry, member, rfl⟩ := mem_map.mp inStored
    obtain rfl : entry.2.2 = linkedObject := object
    exact ⟨entry.1, built.firstSampled_of_mem ran member, entry, member, rfl, rfl, held⟩
  · rintro ⟨range, -, entry, member, object, -, held⟩
    exact ⟨_, mem_map.mpr ⟨entry, member, rfl⟩, object, held⟩

include separate

section

variable (stores : SymbolTable.StoresEach (storedTables allfuncs.entries filled) tables.toSymbolTables after.toSymbolTables)
include stores

theorem Built.looped_iff {linkedObject : Int32} :
    after.loops.HasAny linkedObject ↔ Looped readers sampled tables linkedObject := by
  have whole := built.filled ran
  rw [stores.hasLoop_iff, Looped, built.exists_stored ran]
  refine or_congr_right (exists_congr fun range => and_congr_right fun first => ?_)
  constructor
  · rintro ⟨entry, member, rfl, rfl, some_⟩
    exact (collects_ne_nil_iff Address.less_strictTotal (whole.holds entry member).loops).mp some_
  · intro added
    obtain ⟨entry, member, rfl, rfl⟩ := built.exists_filled ran separate first
    exact ⟨entry, member, rfl, rfl,
      (collects_ne_nil_iff Address.less_strictTotal (whole.holds entry member).loops).mpr added⟩

theorem Built.kept_iff (recorded : ∀ linkedObject range,
      firstSampled sampled tables.toExperimentTables linkedObject = some range →
      ∀ function ∈ SymbolTable.firstCome range (readers linkedObject range),
        ¬ IsNew allfuncs.entries function.1 →
          HasFunction tables.functions linkedObject range function) {linkedObject : Int32} :
    after.functions.HasAny linkedObject ∨ after.statements.HasAny linkedObject ↔
      Kept readers sampled tables linkedObject := by
  have whole := built.filled ran
  rw [stores.hasFunction_iff, stores.hasStatement_iff, built.exists_stored ran, built.exists_stored ran, Kept]
  constructor
  · rintro ((before | ⟨range, first, entry, member, rfl, rfl, some_⟩) |
      (before | ⟨range, first, entry, member, rfl, rfl, some_⟩))
    · exact .inl before
    · obtain ⟨function, kept⟩ := List.exists_mem_of_ne_nil _ some_
      exact .inr (.inr ⟨entry.1, first, .inl (List.ne_nil_of_mem ((whole.mem_onlyNew member).mp kept).1)⟩)
    · exact .inr (.inl before)
    · exact .inr (.inr ⟨entry.1, first, .inr ((collects_ne_nil_iff
        StatementEntry.less_strictTotal (whole.holds entry member).statements).mp some_)⟩)
  · rintro (before | before | ⟨range, first, some_ | added⟩)
    · exact .inl (.inl before)
    · exact .inr (.inl before)
    · obtain ⟨entry, member, rfl, rfl⟩ := built.exists_filled ran separate first
      obtain ⟨function, called⟩ := List.exists_mem_of_ne_nil _ some_
      by_cases isNew : IsNew allfuncs.entries function.1
      · exact .inl (.inr ⟨entry.1, first, entry, member, rfl, rfl,
          List.ne_nil_of_mem ((whole.mem_onlyNew member).mpr ⟨called, isNew⟩)⟩)
      · obtain ⟨row, present, object, -⟩ := recorded _ _ first function called isNew
        exact .inl (.inl ⟨row, present, object⟩)
    · obtain ⟨entry, member, rfl, rfl⟩ := built.exists_filled ran separate first
      exact .inr (.inr ⟨entry.1, first, entry, member, rfl, rfl, (collects_ne_nil_iff
        StatementEntry.less_strictTotal (whole.holds entry member).statements).mpr added⟩)

end

end

theorem callCount_of_resolve {symtabmap filled : SymbolTableMap}
    (ran : resolve readers symtabmap = some filled) :
    (filled.map fun entry => (readers entry.2.2 entry.1).length).sum = callCount readers symtabmap := by
  rw [callCount, ← pairs_of_resolve ran, pairs, map_map]
  rfl

structure StoredFor (readers : Readers) (sampled : List Address) (allfuncs : FunctionMap)
    (tables : RecordedTables) (found : Found) (filled : SymbolTableMap) (after : ExperimentTables) :
    Prop where
  resolved : resolve readers found.symtabmap = some filled
  storable : ∀ entry ∈ filled, Storable allfuncs.entries entry.1 (readers entry.2.2 entry.1)
  stores : SymbolTable.StoresEach (storedTables allfuncs.entries filled) tables.toSymbolTables
    after.toSymbolTables
  intact : Intact { tables.toTables with toExperimentTables := after }

section

variable {found : Found}
  (built : Built tables.toExperimentTables (chosen sampled tables.toExperimentTables) found)
  (ready : SymbolTable.Ready tables.toSymbolTables (callCount readers found.symtabmap))

include built ready

theorem storedFor_of_run {filled : SymbolTableMap} {after : ExperimentTables}
    (resolved : resolve readers found.symtabmap = some filled)
    (ran : filled.foldlM (storeNew allfuncs.entries) tables.toExperimentTables = .ok after) :
    StoredFor readers sampled allfuncs tables found filled after := by
  have whole := built.filled resolved
  have made := (resolve_returns_iff fun entry member => (built.made entry member).2).mp ⟨filled, resolved⟩
  have returns : ∀ entry ∈ filled, ∀ call ∈ readers entry.2.2 entry.1, call.Returns entry.1 := by
    intro entry member
    have present := mem_pairs.mpr ⟨entry, member, rfl, rfl⟩
    rw [pairs_of_resolve resolved] at present
    obtain ⟨one, inMap, object, range⟩ := mem_pairs.mp present
    rw [← object, ← range]
    exact made one inMap
  rw [← callCount_of_resolve resolved] at ready
  obtain ⟨stores, threads, objects⟩ := storeNew_stores whole ready ran
  refine ⟨resolved, (whole.storeNew_returns_iff returns _).mp ⟨after, ran⟩, stores,
    stored_intact tables.intact stores threads objects fun entry member => ?_⟩
  obtain ⟨own, ownMember, rfl⟩ := mem_map.mp member
  obtain ⟨⟨row, present, object, -⟩, -⟩ :=
    firstSampled_eq_some (built.firstSampled_of_mem resolved ownMember)
  have known := known_of_row tables present
  rw [object] at known
  exact known

theorem storedFor_of_finalize {final : Functions} {after : Tables}
    (here : symbolTables sampled tables.toExperimentTables = some found.symtabmap)
    (finalized : finalize readers sampled allfuncs.entries tables.toTables = some (final, after)) :
    ∃ filled stored, StoredFor readers sampled allfuncs tables found filled stored ∧
      after = cleanUp { tables.toTables with toExperimentTables := stored } := by
  obtain ⟨symtabmap, filled, stored, sameMap, resolved, ran, rfl⟩ := finalize_eq_some.mp finalized
  obtain rfl := Option.some.inj (sameMap.symm.trans here)
  obtain ⟨_, -, same⟩ := @storeTables_eq readers allfuncs.entries filled allfuncs.entries
    tables.toExperimentTables allfuncs.formed (built.filled resolved) fun _ _ _ _ => Iff.rfl
  rw [same] at ran
  obtain ⟨_, storedHere, returned⟩ := Option.map_eq_some_iff.mp ran
  cases returned
  exact ⟨filled, stored, storedFor_of_run built ready resolved (toOption_eq_some.mp storedHere), rfl⟩

theorem finalize_of_storable (here : symbolTables sampled tables.toExperimentTables = some found.symtabmap)
    (storable : ∀ linkedObject range,
      firstSampled sampled tables.toExperimentTables linkedObject = some range →
        Storable allfuncs.entries range (readers linkedObject range)) :
    ∃ filled stored final, StoredFor readers sampled allfuncs tables found filled stored ∧
      finalize readers sampled allfuncs.entries tables.toTables =
        some (final, cleanUp { tables.toTables with toExperimentTables := stored }) := by
  have made : ∀ entry ∈ found.symtabmap,
      firstSampled sampled tables.toExperimentTables entry.2.2 = some entry.1 :=
    fun entry member => (mem_chosen tables.intact.spaceThread).mp (built.made entry member).1
  obtain ⟨filled, resolved⟩ :=
    (resolve_returns_iff fun entry member => (built.made entry member).2).mpr
      fun entry member => (storable _ _ (made entry member)).returns
  have whole := built.filled resolved
  have own : ∀ entry ∈ filled, Storable allfuncs.entries entry.1 (readers entry.2.2 entry.1) :=
    fun entry member => storable _ _ (built.firstSampled_of_mem resolved member)
  obtain ⟨stored, ran⟩ :=
    (whole.storeNew_returns_iff (fun entry member => (own entry member).returns)
      tables.toExperimentTables).mpr own
  obtain ⟨final, -, same⟩ := @storeTables_eq readers allfuncs.entries filled allfuncs.entries
    tables.toExperimentTables allfuncs.formed whole fun _ _ _ _ => Iff.rfl
  rw [ran] at same
  exact ⟨filled, stored, final, storedFor_of_run built ready resolved ran,
    finalize_eq_some.mpr ⟨_, filled, stored, here, resolved, same, rfl⟩⟩

end

end

/-- A finalisation does all that it should exactly when nothing hinders it. -/
theorem finalizes_iff (readers : Readers) (sampled : List Address) (allfuncs : FunctionMap)
    (tables : RecordedTables)
    (ready : ∀ symtabmap, symbolTables sampled tables.toExperimentTables = some symtabmap →
      SymbolTable.Ready tables.toSymbolTables (callCount readers symtabmap)) :
    Finalizes readers sampled allfuncs tables ↔ Unhindered readers sampled allfuncs tables := by
  obtain ⟨found, here, built⟩ := symbolTables_ok sampled tables
  have room := ready _ here
  constructor
  · rintro ⟨symtabmap, final, after, sameMap, finalized, tablesOf, recorded, intactAfter⟩
    obtain rfl := Option.some.inj (sameMap.symm.trans here)
    have separate := (oneTableEach_iff sampled tables built).mp tablesOf
    obtain ⟨filled, stored, storedFor, rfl⟩ := storedFor_of_finalize built room here finalized
    have knows : ∀ linkedObject range,
        firstSampled sampled tables.toExperimentTables linkedObject = some range →
        ∀ function ∈ SymbolTable.firstCome range (readers linkedObject range),
          ¬ IsNew allfuncs.entries function.1 → HasFunction tables.functions linkedObject range function := by
      intro linkedObject range first function called known
      have present : (linkedObject, range) ∈ pairs found.symtabmap := by
        rw [← pairs_of_resolve storedFor.resolved]
        exact mem_pairs.mpr (built.exists_filled storedFor.resolved separate first)
      exact ((built.recorded_iff storedFor.resolved separate storedFor.stores first called).mp
        (recorded _ present function called)).resolve_left known
    obtain ⟨collecting, loops⟩ := (cleanUp_intact_iff storedFor.intact).mp intactAfter
    refine ⟨separate, fun linkedObject range first => ?_, knows, collecting, fun linkedObject looped => ?_⟩
    · obtain ⟨entry, member, rfl, rfl⟩ := built.exists_filled storedFor.resolved separate first
      exact storedFor.storable entry member
    · exact (built.kept_iff storedFor.resolved separate storedFor.stores knows).mp
        (loops linkedObject ((built.looped_iff storedFor.resolved separate storedFor.stores).mpr looped))
  · intro unhindered
    have separate := unhindered.separate
    obtain ⟨filled, stored, final, storedFor, finalized⟩ :=
      finalize_of_storable built room here unhindered.storable
    refine ⟨_, final, _, here, finalized, (oneTableEach_iff sampled tables built).mpr separate,
      ?_, (cleanUp_intact_iff storedFor.intact).mpr ⟨unhindered.collecting, ?_⟩⟩
    · rintro ⟨linkedObject, range⟩ present function called
      rw [← pairs_of_resolve storedFor.resolved] at present
      obtain ⟨entry, member, rfl, rfl⟩ := mem_pairs.mp present
      have first := built.firstSampled_of_mem storedFor.resolved member
      refine (built.recorded_iff storedFor.resolved separate storedFor.stores first called).mpr ?_
      by_cases isNew : IsNew allfuncs.entries function.1
      · exact .inl isNew
      · exact .inr (unhindered.recorded _ _ first function called isNew)
    · intro linkedObject loops
      exact (built.kept_iff storedFor.resolved separate storedFor.stores
        unhindered.recorded).mpr (unhindered.kept linkedObject
          ((built.looped_iff storedFor.resolved separate storedFor.stores).mp loops))

def mapping (thread linkedObject : Int32) (range : AddressRange) : AddressSpaceRow where
  thread := thread
  timeBegin := OffsetBinary.encode Time.theBeginning
  timeEnd := OffsetBinary.encode Time.theEnd
  addrBegin := OffsetBinary.encode range.dmBegin
  addrEnd := OffsetBinary.encode range.dmEnd
  linkedObject := linkedObject

def twoPrograms (first second : AddressRange) : Tables where
  addressSpaces := [mapping 1 1 first, mapping 2 2 second]
  functions := ⟨[], []⟩
  loops := ⟨[], []⟩
  files := [⟨1, "/bin/first"⟩, ⟨2, "/bin/second"⟩]
  statements := ⟨[], []⟩
  threads := [1, 2]
  linkedObjects := [⟨1, 1, true⟩, ⟨2, 2, true⟩]
  data := [1, 2]
  collecting := []

theorem mapped_mapping (thread linkedObject : Int32) (range : AddressRange) :
    mapped (mapping thread linkedObject range) = range := by
  simp [mapped, mapping, OffsetBinary.decode_encode]

theorem twoPrograms_intact (first second : AddressRange) : Intact (twoPrograms first second) := by
  constructor <;> simp [twoPrograms, mapping, ObjectTables.Referenced]

def recordedPrograms (first second : AddressRange) (firstFilled : first.dmBegin < first.dmEnd)
    (secondFilled : second.dmBegin < second.dmEnd) : RecordedTables where
  toTables := twoPrograms first second
  intact := twoPrograms_intact first second
  objectIds := by simp [twoPrograms]
  fileIds := by simp [twoPrograms]
  named := by simp [twoPrograms]
  nonempty := by simp [twoPrograms, mapped_mapping, firstFilled, secondFilled]

def oneFunction : Readers := fun _ range =>
  [.addFunction range.dmBegin (range.dmBegin + 16) "main"]

def noFunctions : FunctionMap := ⟨[], RangeMap.formed_nil⟩

theorem oneFunction_storable {linkedObject : Int32} {range : AddressRange}
    (narrow : range.dmEnd.toNat - range.dmBegin.toNat < 2 ^ 32) (low : (range.dmBegin + 16).toNat ≤ 2 ^ 63) :
    Storable noFunctions.entries range (oneFunction linkedObject range) := by
  have returns : ∀ call ∈ oneFunction linkedObject range, call.Returns range := by
    intro call member _ _
    rw [List.mem_singleton.mp member]
    exact low
  have storable := SymbolTable.storable_of_narrow narrow returns fun head loop added => by
    simp [SymbolTable.LoopAdded, oneFunction] at added
  exact ⟨returns, fun function called _ => storable.functions function called, storable.heads,
    storable.loops, storable.statements⟩

theorem firstSampled_programs {sampled : List Address} {first second range : AddressRange}
    {linkedObject : Int32} (found : firstSampled sampled
      (twoPrograms first second).toExperimentTables linkedObject = some range) :
    (linkedObject = 1 ∧ range = first) ∨ (linkedObject = 2 ∧ range = second) := by
  obtain ⟨⟨row, member, rfl, rfl⟩, -⟩ := firstSampled_eq_some found
  simp only [twoPrograms, List.mem_cons, List.not_mem_nil, or_false] at member
  rcases member with rfl | rfl
  · exact .inl ⟨rfl, mapped_mapping 1 1 first⟩
  · exact .inr ⟨rfl, mapped_mapping 2 2 second⟩

theorem programs_unhindered : Unhindered oneFunction [4100, 8200] noFunctions
    (recordedPrograms ⟨4096, 8192⟩ ⟨8192, 12288⟩ (by decide) (by decide)) where
  separate := by
    refine ⟨?_, fun one other range place different here there => ?_⟩
    · rintro linkedObject ⟨row, member, rfl, -⟩
      simp only [recordedPrograms, twoPrograms, List.mem_cons, List.not_mem_nil, or_false] at member
      rcases member with rfl | rfl
      · exact ⟨⟨4096, 8192⟩, by rfl⟩
      · exact ⟨⟨8192, 12288⟩, by rfl⟩
    · rcases firstSampled_programs here with ⟨rfl, rfl⟩ | ⟨rfl, rfl⟩ <;>
        rcases firstSampled_programs there with ⟨rfl, rfl⟩ | ⟨rfl, rfl⟩
      · exact absurd rfl different
      · exact ⟨by decide, by decide⟩
      · exact ⟨by decide, by decide⟩
      · exact absurd rfl different
  storable linkedObject range found := by
    rcases firstSampled_programs found with ⟨-, rfl⟩ | ⟨-, rfl⟩
    · exact oneFunction_storable (by decide) (by decide)
    · exact oneFunction_storable (by decide) (by decide)
  recorded linkedObject range _ function _ known := absurd rfl known
  collecting := by simp [recordedPrograms, twoPrograms]
  kept := by
    rintro linkedObject (⟨row, member, -⟩ | ⟨range, -, head, loop, added⟩)
    · simp [recordedPrograms, twoPrograms] at member
    · simp [SymbolTable.LoopAdded, oneFunction] at added

theorem programs_ready : SymbolTable.Ready (twoPrograms ⟨4096, 8192⟩ ⟨8192, 12288⟩).toSymbolTables 2 where
  loopsReferenced := (twoPrograms_intact _ _).loopRange
  statementsReferenced := (twoPrograms_intact _ _).statementRange
  loops := by simp only [ObjectTables.Fits]; decide
  statements := by simp only [ObjectTables.Fits]; decide
  files := ⟨by decide, by decide⟩
  functionsReferenced := (twoPrograms_intact _ _).functionRange
  functions := by simp only [ObjectTables.Fits]; decide

theorem finalizes_apart : Finalizes oneFunction [4100, 8200] noFunctions
    (recordedPrograms ⟨4096, 8192⟩ ⟨8192, 12288⟩ (by decide) (by decide)) := by
  refine (finalizes_iff oneFunction [4100, 8200] noFunctions _ fun symtabmap made => ?_).mpr
    programs_unhindered
  have both : symbolTables [4100, 8200]
      (twoPrograms ⟨4096, 8192⟩ ⟨8192, 12288⟩).toExperimentTables =
        some [(⟨4096, 8192⟩, SymbolTable.new ⟨4096, 8192⟩, 1),
          (⟨8192, 12288⟩, SymbolTable.new ⟨8192, 12288⟩, 2)] := by rfl
  obtain rfl := Option.some.inj (both.symm.trans made)
  exact programs_ready

theorem sameAddresses_lost : Sampled [4100] (twoPrograms ⟨4096, 8192⟩ ⟨4096, 8192⟩).toExperimentTables 2 ∧
    (symbolTables [4100] (twoPrograms ⟨4096, 8192⟩ ⟨4096, 8192⟩).toExperimentTables).map pairs =
      some [(1, ⟨4096, 8192⟩)] ∧
    ¬ Finalizes oneFunction [4100] noFunctions
      (recordedPrograms ⟨4096, 8192⟩ ⟨4096, 8192⟩ (by decide) (by decide)) := by
  have isSampled : Sampled [4100] (twoPrograms ⟨4096, 8192⟩ ⟨4096, 8192⟩).toExperimentTables 2 :=
    ⟨mapping 2 2 ⟨4096, 8192⟩, by simp [twoPrograms], rfl, 4100, by simp, by
      rw [mapped_mapping]
      decide⟩
  have only : (symbolTables [4100]
      (twoPrograms ⟨4096, 8192⟩ ⟨4096, 8192⟩).toExperimentTables).map pairs =
        some [(1, ⟨4096, 8192⟩)] := by rfl
  refine ⟨isSampled, only, ?_⟩
  rintro ⟨symtabmap, -, -, made, -, tablesOf, -⟩
  obtain ⟨entry, member, object⟩ := (tablesOf.exact 2).mp isSampled
  rw [recordedPrograms] at made
  rw [made] at only
  have present : (2, entry.1) ∈ pairs symtabmap := mem_pairs.mpr ⟨entry, member, object, rfl⟩
  rw [Option.some.inj only] at present
  simp at present

end Cbtf

end OpenSpeedShop
