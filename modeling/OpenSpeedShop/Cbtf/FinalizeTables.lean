import OpenSpeedShop.Cbtf.FinalizeCore
import OpenSpeedShop.Framework.FunctionTable
import OpenSpeedShop.Framework.SymbolTable

/-!
The symbol tables of the sampled linked objects: a path has one table, over its first sampled
range, and a table whose range overlaps another's is not inserted.
-/

namespace OpenSpeedShop

open Fallible
open AddressRange (less)
open List (mem_map mem_filter mem_cons)
open Option (pure_def bind_eq_bind bind_some bind_eq_some_iff)
open SymbolTable (new)

namespace Cbtf

structure Intact (tables : Tables) : Prop where
  spaceThread : ∀ row ∈ tables.addressSpaces, row.thread.toInt ∈ tables.threads
  spaceObject : ∀ row ∈ tables.addressSpaces,
    row.linkedObject.toInt ∈ tables.linkedObjects.map LinkedObjectRow.id
  objectFile : ∀ row ∈ tables.linkedObjects, row.file.toInt ∈ tables.files.map FileRow.id
  functionObject : ∀ row ∈ tables.functions.objects,
    row.linkedObject.toInt ∈ tables.linkedObjects.map LinkedObjectRow.id
  functionRange : tables.functions.Referenced
  loopObject : ∀ row ∈ tables.loops.objects,
    row.linkedObject.toInt ∈ tables.linkedObjects.map LinkedObjectRow.id
  loopRange : tables.loops.Referenced
  statementObject : ∀ row ∈ tables.statements.objects,
    row.linkedObject.toInt ∈ tables.linkedObjects.map LinkedObjectRow.id
  statementFile : ∀ row ∈ tables.statements.objects, row.columns.file.toInt ∈ tables.files.map FileRow.id
  statementRange : tables.statements.Referenced
  dataThread : ∀ thread ∈ tables.data, thread.toInt ∈ tables.threads
  collectingThread : ∀ thread ∈ tables.collecting, thread.toInt ∈ tables.threads

def mapped (row : AddressSpaceRow) : AddressRange :=
  ⟨OffsetBinary.decode row.addrBegin, OffsetBinary.decode row.addrEnd⟩

/-- The tables of an experiment whose address spaces are recorded: only ranges with an
address are recorded, for linked objects that have a path. -/
structure RecordedTables extends Tables where
  intact : Intact toTables
  objectIds : (linkedObjects.map LinkedObjectRow.id).Nodup
  fileIds : (files.map FileRow.id).Nodup
  named : ∀ object ∈ linkedObjects, ∀ file ∈ files, object.file.toInt = file.id → file.path ≠ ""
  nonempty : ∀ row ∈ addressSpaces, (mapped row).dmBegin < (mapped row).dmEnd

section

variable (sampled : List Address) (tables : ExperimentTables)

def spacesOf (linkedObject : Int32) : List AddressSpaceRow :=
  tables.addressSpaces.filter fun row => row.linkedObject = linkedObject

def Sampled (linkedObject : Int32) : Prop :=
  ∃ row ∈ tables.addressSpaces, row.linkedObject = linkedObject ∧
    ∃ address ∈ sampled, (mapped row).doesContain address = true

def distinct (ranges : List AddressRange) : List AddressRange :=
  (ranges.foldl (fun kept range => OrderedMap.insert AddressRange.less range () kept) []).map Prod.fst

/-- The lowest range of the linked object with a sampled address. A range that overlaps
the one of an earlier row does not count. -/
def firstSampled (linkedObject : Int32) : Option AddressRange :=
  (distinct ((spacesOf tables linkedObject).map mapped)).find? fun range =>
    sampled.any fun address => range.doesContain address

def Apart (first second : Int32 × AddressRange) : Prop :=
  LinkedObject.getPath tables first.1 ≠ LinkedObject.getPath tables second.1 ∧ ¬ first.2.Meets second.2

structure OneTableEach (symtabmap : SymbolTableMap) : Prop where
  exact : ∀ linkedObject, Sampled sampled tables linkedObject ↔ ∃ entry ∈ symtabmap, entry.2.2 = linkedObject
  once : (symtabmap.map fun entry => entry.2.2).Nodup

def chosenAmong (objects : List Int32) : List (Int32 × AddressRange) :=
  objects.filterMap fun linkedObject =>
    (firstSampled sampled tables linkedObject).map fun range => (linkedObject, range)

def chosen : List (Int32 × AddressRange) := chosenAmong sampled tables (getLinkedObjects tables)

end

theorem mem_insert_range {range : AddressRange} {kept : List (AddressRange × Unit)}
    {entry : AddressRange × Unit} (member : entry ∈ OrderedMap.insert less range () kept) :
    entry.1 = range ∨ entry ∈ kept := by
  rcases OrderedMap.key_of_mem_upsert member with same | ⟨old, present, same⟩
  · exact .inl same
  · obtain rfl : old = entry := Prod.ext same rfl
    exact .inr present

theorem mem_of_mem_distinct {ranges : List AddressRange} {range : AddressRange}
    (member : range ∈ distinct ranges) : range ∈ ranges := by
  obtain ⟨entry, present, rfl⟩ := mem_map.mp member
  clear member
  induction ranges using List.reverseRecOn with
  | nil => simp at present
  | append_singleton earlier last ih =>
    rw [List.foldl_append] at present
    rcases mem_insert_range present with same | old
    · simp [same]
    · exact List.mem_append_left _ (ih old)

section

variable {sampled : List Address} {tables : ExperimentTables} {linkedObject : Int32}

theorem firstSampled_eq_some {range : AddressRange}
    (found : firstSampled sampled tables linkedObject = some range) :
    (∃ row ∈ tables.addressSpaces, row.linkedObject = linkedObject ∧ mapped row = range) ∧
      ∃ address ∈ sampled, range.doesContain address = true := by
  obtain ⟨row, member, same⟩ :=
    mem_map.mp (mem_of_mem_distinct (List.mem_of_find?_eq_some found))
  obtain ⟨present, linked⟩ := mem_filter.mp member
  refine ⟨⟨row, present, of_decide_eq_true linked, same⟩, ?_⟩
  simpa using List.find?_some found

theorem sampled_of_firstSampled {range : AddressRange}
    (found : firstSampled sampled tables linkedObject = some range) :
    Sampled sampled tables linkedObject := by
  obtain ⟨⟨row, present, linked, rfl⟩, address, member, contains⟩ := firstSampled_eq_some found
  exact ⟨row, present, linked, address, member, contains⟩

theorem getAddressRange_eq (known : linkedObject.toInt ∈ tables.linkedObjects.map LinkedObjectRow.id)
    (nonempty : ∀ row ∈ tables.addressSpaces, (mapped row).dmBegin < (mapped row).dmEnd) :
    LinkedObject.getAddressRange tables linkedObject =
      some (distinct ((spacesOf tables linkedObject).map mapped)) := by
  have looped : ∀ (rows : List AddressSpaceRow) (kept : List (AddressRange × Unit)),
      (∀ row ∈ rows, (mapped row).dmBegin < (mapped row).dmEnd) →
      (rows.foldlM (fun addressrange row => do
        let range ← (Interval.make (OffsetBinary.decode row.addrBegin)
          (OffsetBinary.decode row.addrEnd)).toOption
        return OrderedMap.insert less range () addressrange) kept :
          Option (List (AddressRange × Unit))) =
        some ((rows.map mapped).foldl
          (fun kept range => OrderedMap.insert less range () kept) kept) := by
    intro rows
    induction rows with
    | nil => exact fun _ _ => rfl
    | cons row rest ih =>
      intro kept each
      obtain ⟨here, later⟩ := List.forall_mem_cons.mp each
      have made := toOption_eq_some.mpr (Interval.make_eq_ok.mpr ⟨here, rfl⟩)
      rw [List.foldlM_cons, List.map_cons, List.foldl_cons, ← ih _ later]
      simp only [mapped] at made
      simp only [made, bind_eq_bind, bind_some, pure_def, mapped]
  have visited := looped (spacesOf tables linkedObject) [] fun row member =>
    nonempty row (mem_filter.mp member).1
  unfold LinkedObject.getAddressRange
  simp only [spacesOf, bind_eq_bind, pure_def] at visited
  simp only [guard, if_pos known, visited, pure_def, bind_eq_bind,
    bind_some, distinct, spacesOf]

theorem mem_getLinkedObjects (threads : ∀ row ∈ tables.addressSpaces, row.thread.toInt ∈ tables.threads) :
    linkedObject ∈ getLinkedObjects tables ↔
      ∃ row ∈ tables.addressSpaces, row.linkedObject = linkedObject := by
  simp only [getLinkedObjects, List.mem_insertionSort, List.mem_dedup, mem_map,
    mem_filter, decide_eq_true_eq]
  constructor
  · rintro ⟨row, ⟨present, -⟩, linked⟩
    exact ⟨row, present, linked⟩
  · rintro ⟨row, present, linked⟩
    exact ⟨row, ⟨present, threads row present⟩, linked⟩

theorem nodup_getLinkedObjects (tables : ExperimentTables) : (getLinkedObjects tables).Nodup :=
  (List.perm_insertionSort _ _).nodup_iff.mpr (List.nodup_dedup _)

theorem map_fst_chosenAmong (objects : List Int32) : (chosenAmong sampled tables objects).map Prod.fst =
      objects.filter fun object => (firstSampled sampled tables object).isSome := by
  induction objects with
  | nil => rfl
  | cons first rest ih =>
    rw [chosenAmong] at ih ⊢
    cases here : firstSampled sampled tables first <;> simp [here, ih]

theorem mem_chosen (threads : ∀ row ∈ tables.addressSpaces, row.thread.toInt ∈ tables.threads)
    {range : AddressRange} : (linkedObject, range) ∈ chosen sampled tables ↔
      firstSampled sampled tables linkedObject = some range := by
  simp only [chosen, chosenAmong, List.mem_filterMap, Option.map_eq_some_iff, Prod.mk.injEq]
  constructor
  · rintro ⟨other, -, found, here, rfl, rfl⟩
    exact here
  · intro found
    obtain ⟨⟨row, present, linked, -⟩, -⟩ := firstSampled_eq_some found
    exact ⟨linkedObject, (mem_getLinkedObjects threads).mpr ⟨row, present, linked⟩, range, found,
      rfl, rfl⟩

end

section

variable {sampled : List Address} {tables : ExperimentTables} {linkedObject : Int32}

def Found.add (found : Found) (path : String) (linkedObject : Int32) (range : AddressRange) :
    Found :=
  if path ∈ found.linkedobjs then found
  else {
    linkedobjs := path :: found.linkedobjs
    symtabmap := OrderedMap.insert AddressRange.less range
      (SymbolTable.new range, linkedObject) found.symtabmap }

theorem Found.add_again (found : Found) (path : String) (first second : Int32) (range other : AddressRange) :
    (found.add path first range).add path second other = found.add path first range := by
  have present : path ∈ (found.add path first range).linkedobjs := by
    unfold Found.add
    split
    next known => exact known
    next => simp
  rw [Found.add, if_pos present]

theorem examineRanges_eq {path : String}
    (named : LinkedObject.getPath tables linkedObject = some path) {ranges : List AddressRange} :
    ∀ {found : Found}, ranges.foldlM (examineRange sampled tables linkedObject) found =
      some ((ranges.find? fun range => sampled.any fun address => range.doesContain address).elim
        found (found.add path linkedObject)) := by
  induction ranges with
  | nil => exact rfl
  | cons range rest ih =>
    intro found
    rw [List.foldlM_cons, List.find?_cons]
    cases hit : sampled.any fun address => range.doesContain address with
    | false =>
      have kept : examineRange sampled tables linkedObject found range = some found := by
        rw [examineRange, if_neg (by rw [hit]; simp)]
        rfl
      rw [kept]
      exact ih
    | true =>
      have added : examineRange sampled tables linkedObject found range =
          some (found.add path linkedObject range) := by
        rw [examineRange, if_pos hit, named, Found.add]
        simp only [bind_eq_bind, bind_some, pure_def]
        split <;> rfl
      rw [added]
      refine ih.trans (congrArg some ?_)
      cases rest.find? fun range => sampled.any fun address => range.doesContain address with
      | none => rfl
      | some later => exact found.add_again path linkedObject linkedObject range later

structure Built (tables : ExperimentTables) (chosen : List (Int32 × AddressRange)) (found : Found) : Prop where
  formed : RangeMap.Formed found.symtabmap
  made : ∀ entry ∈ found.symtabmap, (entry.2.2, entry.1) ∈ chosen ∧ entry.2.1 = SymbolTable.new entry.1
  paths : ∀ path, path ∈ found.linkedobjs ↔ ∃ object ∈ chosen, LinkedObject.getPath tables object.1 = some path
  complete : (∀ object ∈ chosen, ∃ entry ∈ found.symtabmap, entry.2.2 = object.1) ↔
    chosen.Pairwise (Apart tables)

theorem built_nil (tables : ExperimentTables) : Built tables [] ⟨[], []⟩ where
  formed := RangeMap.formed_nil
  made := by simp
  paths := by simp
  complete := by simp

variable {chosen : List (Int32 × AddressRange)}

section

variable {found next : Found} (built : Built tables chosen found) {object : Int32 × AddressRange}
  (isNew : object.1 ∉ chosen.map Prod.fst)
include built isNew

theorem Built.missing (same : next.symtabmap = found.symtabmap)
    (blocked : ∃ other ∈ chosen, ¬ Apart tables other object) :
    (∀ one ∈ chosen ++ [object], ∃ entry ∈ next.symtabmap, entry.2.2 = one.1) ↔
      (chosen ++ [object]).Pairwise (Apart tables) := by
  constructor
  · intro each
    obtain ⟨entry, member, linked⟩ := each object (by simp)
    rw [same] at member
    exact absurd (mem_map.mpr ⟨_, (built.made entry member).1, linked⟩) isNew
  · intro apart
    obtain ⟨other, member, blocks⟩ := blocked
    exact absurd ((List.pairwise_append.mp apart).2.2 other member object (by simp)) blocks

theorem Built.complete_insert (nodup : (chosen.map Prod.fst).Nodup)
    {path : String} (named : LinkedObject.getPath tables object.1 = some path)
    (unknown : path ∉ found.linkedobjs) (free : ∀ entry ∈ found.symtabmap, ¬ entry.1.Meets object.2)
    (members : ∀ entry, entry ∈ next.symtabmap ↔
      entry = (object.2, new object.2, object.1) ∨ entry ∈ found.symtabmap) :
    (∀ one ∈ chosen ++ [object], ∃ entry ∈ next.symtabmap, entry.2.2 = one.1) ↔
      (chosen ++ [object]).Pairwise (Apart tables) := by
  rw [List.pairwise_append, ← built.complete]
  constructor
  · intro each
    have earlier : ∀ one ∈ chosen, ∃ entry ∈ found.symtabmap, entry.2.2 = one.1 := by
      intro one member
      obtain ⟨entry, present, linked⟩ := each one (List.mem_append_left _ member)
      rcases (members entry).mp present with rfl | old
      · exact absurd (mem_map.mpr ⟨one, member, linked.symm⟩) isNew
      · exact ⟨entry, old, linked⟩
    refine ⟨earlier, List.pairwise_singleton _ _, fun one member other last => ?_⟩
    obtain rfl := List.mem_singleton.mp last
    refine ⟨fun shared => unknown ((built.paths path).mpr ⟨one, member, ?_⟩), ?_⟩
    · exact shared.trans named
    · obtain ⟨entry, present, linked⟩ := earlier one member
      have own := List.inj_on_of_nodup_map nodup (built.made entry present).1 member linked
      rw [← own]
      exact free entry present
  · rintro ⟨earlier, -, -⟩ one member
    rcases List.mem_append.mp member with old | last
    · obtain ⟨entry, present, linked⟩ := earlier one old
      exact ⟨entry, (members entry).mpr (.inr present), linked⟩
    · obtain rfl := List.mem_singleton.mp last
      exact ⟨_, (members _).mpr (.inl rfl), rfl⟩

end

theorem Built.add {found : Found} (built : Built tables chosen found) {object : Int32 × AddressRange}
    (isNew : object.1 ∉ chosen.map Prod.fst) (nodup : (chosen.map Prod.fst).Nodup)
    (nonempty : object.2.dmBegin < object.2.dmEnd) {path : String}
    (named : LinkedObject.getPath tables object.1 = some path) :
    Built tables (chosen ++ [object]) (found.add path object.1 object.2) := by
  have paths : ∀ other, other ∈ path :: found.linkedobjs ↔
      ∃ one ∈ chosen ++ [object], LinkedObject.getPath tables one.1 = some other := by
    intro other
    simp only [mem_cons, built.paths, List.mem_append, List.not_mem_nil, or_false, or_and_right,
      exists_or, exists_eq_left, named, Option.some.injEq]
    rw [or_comm, eq_comm]
  have grown : ∀ entry ∈ found.symtabmap,
      (entry.2.2, entry.1) ∈ chosen ++ [object] ∧ entry.2.1 = new entry.1 :=
    fun entry member => ⟨List.mem_append_left _ (built.made entry member).1, (built.made entry member).2⟩
  unfold Found.add
  split
  next known =>
    -- A linked object with the same path has a table, so this one gets none.
    obtain ⟨other, member, shared⟩ := (built.paths path).mp known
    refine ⟨built.formed, grown, fun one => ?_, built.missing isNew rfl ⟨other, member, ?_⟩⟩
    · rw [← paths, mem_cons]
      exact ⟨.inr, fun here => here.elim (fun same => same ▸ known) id⟩
    · exact fun apart => apart.1 (shared.trans named.symm)
  next unknown =>
    cases lookup : OrderedMap.find? less object.2 found.symtabmap with
    | some entry =>
      -- The map takes the overlapping range for the same key, and keeps its entry.
      obtain ⟨member, meets⟩ := RangeMap.find?_meets lookup
      have same := OrderedMap.insert_of_find?_some (new object.2, object.1) lookup
      rw [same]
      exact ⟨built.formed, grown, paths, built.missing isNew rfl
        ⟨_, (built.made entry member).1, fun apart => apart.2 meets⟩⟩
    | none =>
      obtain ⟨formed, members⟩ :=
        built.formed.insert nonempty lookup (new object.2, object.1)
      have free := built.formed.find?_eq_none_iff.mp lookup
      refine ⟨formed, fun entry member => ?_, paths,
        built.complete_insert isNew nodup named unknown free members⟩
      rcases (members entry).mp member with rfl | old
      · simp
      · exact grown entry old

end

theorem filter_key {Row : Type} {key : Row → Int} {rows : List Row} {row : Row}
    (nodup : (rows.map key).Nodup) (member : row ∈ rows) :
    (rows.filter fun other => key other = key row) = [row] := by
  induction rows with
  | nil => cases member
  | cons first rest ih =>
    obtain ⟨notLater, nodupRest⟩ := List.nodup_cons.mp nodup
    rcases mem_cons.mp member with rfl | later
    · have others : (rest.filter fun other => key other = key row) = [] := by
        rw [List.filter_eq_nil_iff]
        intro other present same
        exact notLater (mem_map.mpr ⟨other, present, of_decide_eq_true same⟩)
      rw [List.filter_cons_of_pos (by simp), others]
    · have different : key first ≠ key row := by
        intro same
        exact notLater (mem_map.mpr ⟨row, later, same.symm⟩)
      rw [List.filter_cons_of_neg (by simp [different]), ih nodupRest later]

section

variable (sampled : List Address) (tables : RecordedTables)

theorem getPath_isSome {linkedObject : Int32}
    (known : linkedObject.toInt ∈ tables.linkedObjects.map LinkedObjectRow.id) :
    ∃ path, LinkedObject.getPath tables.toExperimentTables linkedObject = some path := by
  obtain ⟨row, member, number⟩ := mem_map.mp known
  obtain ⟨file, present, own⟩ := mem_map.mp (tables.intact.objectFile row member)
  have filled := tables.named row member file present own.symm
  have rows := @filter_key _ LinkedObjectRow.id _ _ tables.objectIds member
  have files := @filter_key _ FileRow.id _ _ tables.fileIds present
  have theFile : (tables.files.filter fun other => row.file.toInt = other.id) = [file] := by
    rw [← files]
    exact List.filter_congr fun other _ => by rw [← own]; exact decide_eq_decide.mpr eq_comm
  rw [number] at rows
  refine ⟨file.path, ?_⟩
  simp [LinkedObject.getPath, rows, theFile, filled]

theorem known_of_row {row : AddressSpaceRow} (member : row ∈ tables.addressSpaces) :
    row.linkedObject.toInt ∈ tables.linkedObjects.map LinkedObjectRow.id :=
  tables.intact.spaceObject row member

theorem examineObjects_ok {objects : List Int32} (nodup : objects.Nodup)
    (used : ∀ object ∈ objects, ∃ row ∈ tables.addressSpaces, row.linkedObject = object) : ∃ found,
      objects.foldlM (examineObject sampled tables.toExperimentTables) ⟨[], []⟩ = some found ∧
      Built tables.toExperimentTables (chosenAmong sampled tables.toExperimentTables objects) found := by
  induction objects using List.reverseRecOn with
  | nil => exact ⟨_, rfl, built_nil _⟩
  | append_singleton earlier object ih =>
    obtain ⟨nodupEarlier, -, apart⟩ := List.nodup_append.mp nodup
    obtain ⟨found, ran, built⟩ :=
      ih nodupEarlier fun other member => used other (by simp [member])
    obtain ⟨row, present, rfl⟩ := used object (by simp)
    have known := known_of_row tables present
    obtain ⟨path, named⟩ := getPath_isSome tables known
    have examined : examineObject sampled tables.toExperimentTables found row.linkedObject =
        some ((firstSampled sampled tables.toExperimentTables row.linkedObject).elim found
          (found.add path row.linkedObject)) := by
      rw [examineObject, getAddressRange_eq known tables.nonempty]
      exact examineRanges_eq named
    rw [List.foldlM_append, ran, chosenAmong, List.filterMap_append, ← chosenAmong]
    refine ⟨_, by simpa using examined, ?_⟩
    cases hit : firstSampled sampled tables.toExperimentTables row.linkedObject with
    | none => simpa [hit] using built
    | some range =>
      obtain ⟨⟨mapping, inTable, -, rfl⟩, -⟩ := firstSampled_eq_some hit
      have isNew : row.linkedObject ∉ earlier :=
        fun before => apart _ before _ (by simp) rfl
      have added := @Built.add _ _ _ built (row.linkedObject, mapped mapping)
        (by rw [map_fst_chosenAmong]; exact fun member => isNew (mem_filter.mp member).1)
        (by rw [map_fst_chosenAmong]; exact nodupEarlier.filter _)
        (tables.nonempty mapping inTable) _ named
      simpa [hit] using added

theorem symbolTables_ok : ∃ found, symbolTables sampled tables.toExperimentTables = some found.symtabmap ∧
      Built tables.toExperimentTables (chosen sampled tables.toExperimentTables) found := by
  obtain ⟨found, ran, built⟩ := examineObjects_ok sampled tables
    (nodup_getLinkedObjects tables.toExperimentTables)
    fun object member => (mem_getLinkedObjects tables.intact.spaceThread).mp member
  exact ⟨found, by rw [symbolTables, ran]; rfl, built⟩

theorem nodup_chosen : ((chosen sampled tables.toExperimentTables).map Prod.fst).Nodup := by
  rw [chosen, map_fst_chosenAmong]
  exact (nodup_getLinkedObjects _).filter _

theorem apart_symm {first second : Int32 × AddressRange}
    (apart : Apart tables.toExperimentTables first second) : Apart tables.toExperimentTables second first :=
  ⟨apart.1.symm, fun meets => apart.2 ⟨meets.2, meets.1⟩⟩

/-- Every range that is sampled counts, and the first ones do not get in the way of one
another. -/
structure Separate : Prop where
  counts : ∀ linkedObject, Sampled sampled tables.toExperimentTables linkedObject →
    ∃ range, firstSampled sampled tables.toExperimentTables linkedObject = some range
  apart : ∀ first second range other, first ≠ second →
    firstSampled sampled tables.toExperimentTables first = some range →
    firstSampled sampled tables.toExperimentTables second = some other →
    Apart tables.toExperimentTables (first, range) (second, other)

theorem oneTableEach_iff {found : Found}
    (built : Built tables.toExperimentTables (chosen sampled tables.toExperimentTables) found) :
    OneTableEach sampled tables.toExperimentTables found.symtabmap ↔ Separate sampled tables := by
  have isChosen := fun linkedObject range => @mem_chosen sampled tables.toExperimentTables
    linkedObject tables.intact.spaceThread range
  have made := fun entry member => (isChosen _ _).mp (built.made entry member).1
  constructor
  · intro tablesOf
    have counts : ∀ linkedObject, Sampled sampled tables.toExperimentTables linkedObject →
        ∃ range, firstSampled sampled tables.toExperimentTables linkedObject = some range := by
      intro linkedObject isSampled
      obtain ⟨entry, member, rfl⟩ := (tablesOf.exact linkedObject).mp isSampled
      exact ⟨entry.1, made entry member⟩
    have pairwise := built.complete.mp fun object member => (tablesOf.exact object.1).mp
      (sampled_of_firstSampled ((isChosen object.1 object.2).mp member))
    have : Std.Symm (Apart tables.toExperimentTables) := ⟨fun _ _ => apart_symm tables⟩
    exact ⟨counts, fun first second range other different here there =>
      pairwise.forall ((isChosen _ _).mpr here) ((isChosen _ _).mpr there)
        fun same => different (Prod.ext_iff.mp same).1⟩
  · intro separate
    have nodup := nodup_chosen sampled tables
    have pairwise : (chosen sampled tables.toExperimentTables).Pairwise (Apart tables.toExperimentTables) := by
      refine List.Pairwise.imp_of_mem ?_ (List.pairwise_map.mp nodup)
      intro first second firstMember secondMember different
      exact separate.apart _ _ _ _ different ((isChosen _ _).mp firstMember) ((isChosen _ _).mp secondMember)
    refine ⟨fun linkedObject => ⟨fun isSampled => ?_, ?_⟩, ?_⟩
    · obtain ⟨range, here⟩ := separate.counts linkedObject isSampled
      exact built.complete.mpr pairwise (linkedObject, range) ((isChosen _ _).mpr here)
    · rintro ⟨entry, member, rfl⟩
      exact sampled_of_firstSampled (made entry member)
    · refine List.Nodup.map_on (fun one oneMember other otherMember same => ?_) built.formed.nodup
      have here := made one oneMember
      rw [same, made other otherMember] at here
      have ranges := Option.some.inj here
      have nonempty := built.formed.nonempty one oneMember
      refine built.formed.disjoint oneMember otherMember ?_
      rw [ranges]
      exact ⟨nonempty, nonempty⟩

end

theorem resolve_eq_some {readers : Readers} {symtabmap filled : SymbolTableMap}
    (ran : resolve readers symtabmap = some filled) :
    List.Forall₂ (fun one other => other.1 = one.1 ∧ other.2.2 = one.2.2 ∧
      Runs.run SymbolTable.Call.step one.2.1 (readers one.2.2 one.1) = some other.2.1) symtabmap filled := by
  induction symtabmap generalizing filled with
  | nil =>
    obtain rfl := Option.some.inj ran
    exact .nil
  | cons entry rest ih =>
    rw [resolve, List.mapM_cons] at ran
    obtain ⟨first, here, continued⟩ := bind_eq_some_iff.mp ran
    obtain ⟨others, later, returned⟩ := bind_eq_some_iff.mp continued
    obtain ⟨symbolTable, called, returnedFirst⟩ := bind_eq_some_iff.mp here
    obtain rfl := Option.some.inj returned
    obtain rfl := Option.some.inj returnedFirst
    exact .cons ⟨rfl, rfl, called⟩ (ih later)

theorem resolve_returns_iff {readers : Readers} {symtabmap : SymbolTableMap}
    (made : ∀ entry ∈ symtabmap, entry.2.1 = new entry.1) :
    (∃ filled, resolve readers symtabmap = some filled) ↔
      ∀ entry ∈ symtabmap, ∀ call ∈ readers entry.2.2 entry.1, call.Returns entry.1 := by
  refine Fallible.mapM_isSome.trans (forall₂_congr fun entry member => ?_)
  rw [← SymbolTable.run_returns_iff, made entry member]
  constructor
  · rintro ⟨_, ran⟩
    obtain ⟨symbolTable, called, -⟩ := bind_eq_some_iff.mp ran
    exact ⟨symbolTable, called⟩
  · rintro ⟨symbolTable, called⟩
    exact ⟨_, by rw [called]; rfl⟩

end Cbtf

end OpenSpeedShop
