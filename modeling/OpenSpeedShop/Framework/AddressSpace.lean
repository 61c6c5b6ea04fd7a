import OpenSpeedShop.Framework.FunctionCacheCore
import OpenSpeedShop.Framework.RangeMaps
import OpenSpeedShop.Framework.ThreadLookup
import OpenSpeedShop.Library.History
import OpenSpeedShop.Library.Turns

/-!
Building address spaces from ranges, and updates of the threads of one experiment
with them.
-/

namespace OpenSpeedShop

open Fallible
open List (mem_cons filter_append mem_filter map_map filter_map foldlM_cons)
open OffsetBinary (encode decode)
open Time (theEnd)

namespace AddressSpace

/-- Overlapping ranges are found as equivalent keys. An overlapping range that is
not the same is left out. -/
def setValue (space : AddressSpace) (range : AddressRange) (object : LoadedObject) :
    AddressSpace :=
  match OrderedMap.find? AddressRange.less range space with
  | none => OrderedMap.upsert AddressRange.less range object (fun _ => object) space
  | some entry =>
    if entry.1 = range then
      OrderedMap.upsert AddressRange.less range object (fun _ => object) space
    else space

def ofValues (values : List (AddressRange × LoadedObject)) : AddressSpace :=
  values.foldl (fun space value => space.setValue value.1 value.2) []

end AddressSpace

/-- A call of `AddressSpace::updateThreads` with `update_interval`. Of its threads only
those in the one database are kept. -/
structure AddressSpaceUpdate where
  values : List (AddressRange × LoadedObject)
  when : Time
  threads : List Int32
  nodup : threads.Nodup

def AddressSpaceUpdate.addressSpace (update : AddressSpaceUpdate) : AddressSpace :=
  AddressSpace.ofValues update.values

def AddressSpaceUpdate.run (tables : ExperimentTables) (update : AddressSpaceUpdate) :
    Result ExperimentTables :=
  tables.updateThreads update.addressSpace update.when true (update.threads.map Int32.toInt)

/-!
The rows of a thread are the history of its address spaces: at each time and
address they hold what the address space then in force has there.
-/

open Fallible History

namespace AddressSpace

structure Formed (space : AddressSpace) : Prop where
  sorted : OrderedMap.Sorted AddressRange.less space
  nonempty : ∀ entry ∈ space, entry.1.dmBegin < entry.1.dmEnd

theorem formed_iff {space : AddressSpace} : space.Formed ↔ RangeMap.Formed space :=
  ⟨fun formed => ⟨formed.sorted, formed.nonempty⟩, fun formed => ⟨formed.sorted, formed.nonempty⟩⟩

theorem Formed.disjoint {space : AddressSpace} (formed : space.Formed) : space.Pairwise fun first second =>
      ∀ address, ¬ (first.1.doesContain address = true ∧ second.1.doesContain address = true) := by
  refine formed.sorted.imp fun {first second} below address both => ?_
  rw [AddressRange.less_eq_true] at below
  rw [Interval.doesContain_iff, Interval.doesContain_iff] at both
  exact absurd (both.1.2.trans_le (below.trans both.2.1)) (lt_irrefl _)

section

variable {space : AddressSpace} {range : AddressRange} {object : LoadedObject}

theorem Formed.setValue (formed : space.Formed) (nonempty : range.dmBegin < range.dmEnd) :
    (space.setValue range object).Formed := by
  unfold AddressSpace.setValue
  split
  · rename_i missing
    exact formed_iff.mpr ((formed_iff.mp formed).upsert_missing nonempty missing object fun _ => object).1
  · rename_i entry found
    split
    · exact formed_iff.mpr ((formed_iff.mp formed).upsert_found found object fun _ => object).1
    · exact formed

theorem Formed.mem_setValue (formed : space.Formed) (nonempty : range.dmBegin < range.dmEnd)
    {entry : AddressRange × LoadedObject} (member : entry ∈ space.setValue range object) :
    entry = (range, object) ∨ (entry ∈ space ∧ entry.1 ≠ range) := by
  have ordered := formed_iff.mp formed
  -- The range finds no entry that is there and is not the one it finds.
  have other : ∀ {found}, OrderedMap.find? AddressRange.less range space = found →
      entry ∈ space → some entry ≠ found → entry.1 ≠ range := by
    rintro found rfl present different rfl
    exact different (ordered.find?_self present).symm
  unfold AddressSpace.setValue at member
  split at member
  · rename_i missing
    rcases ((ordered.upsert_missing nonempty missing object fun _ => object).2 entry).mp member
      with here | present
    · exact Or.inl here
    · exact Or.inr ⟨present, other missing present (by simp)⟩
  · rename_i found here
    split at member
    · rename_i exactly
      rcases ((ordered.upsert_found here object fun _ => object).2 entry).mp member
        with same | ⟨present, different⟩
      · exact Or.inl (by rw [same, exactly])
      · exact Or.inr ⟨present, other here present (by simpa using different)⟩
    · rename_i inexact
      refine Or.inr ⟨member, fun equal => inexact ?_⟩
      have self := ordered.find?_self member
      rw [equal, here] at self
      cases self
      exact equal

theorem setValue_ne_nil : space.setValue range object ≠ [] := by
  unfold AddressSpace.setValue
  split
  · rename_i missing
    obtain ⟨before, after, -, -, -, same⟩ :=
      OrderedMap.upsert_of_find?_none object (fun _ => object) missing
    simp [same]
  · rename_i found here
    obtain ⟨before, after, rfl, -, same⟩ :=
      OrderedMap.upsert_of_find?_some object (fun _ => object) here
    split
    · simp [same]
    · simp

end

def lastGiven (values : List (AddressRange × LoadedObject)) (range : AddressRange) : Option LoadedObject :=
  ((values.filter fun value => value.1 = range).getLast?).map Prod.snd

theorem ofValues_append (values : List (AddressRange × LoadedObject)) (value : AddressRange × LoadedObject) :
    ofValues (values ++ [value]) = (ofValues values).setValue value.1 value.2 := by
  simp [ofValues]

variable {values : List (AddressRange × LoadedObject)}

theorem ofValues_formed
    (nonempty : ∀ value ∈ values, value.1.dmBegin < value.1.dmEnd) : (ofValues values).Formed := by
  induction values using List.reverseRecOn with
  | nil => exact ⟨List.Pairwise.nil, by simp [ofValues]⟩
  | append_singleton values value ih =>
    rw [ofValues_append]
    exact (ih fun other member => nonempty other (by simp [member])).setValue (nonempty value (by simp))

theorem ofValues_lastGiven (nonempty : ∀ value ∈ values, value.1.dmBegin < value.1.dmEnd)
    {entry : AddressRange × LoadedObject} (kept : entry ∈ ofValues values) :
    lastGiven values entry.1 = some entry.2 := by
  induction values using List.reverseRecOn with
  | nil => cases kept
  | append_singleton values value ih =>
    have earlier : ∀ other ∈ values, other.1.dmBegin < other.1.dmEnd :=
      fun other member => nonempty other (by simp [member])
    rw [ofValues_append] at kept
    rcases (ofValues_formed earlier).mem_setValue
        (nonempty value (by simp)) kept with rfl | ⟨present, different⟩
    · simp [lastGiven]
    · have same := ih earlier present
      unfold lastGiven at same ⊢
      rw [filter_append]
      simpa [Ne.symm different] using same

theorem ofValues_ne_nil (some : values ≠ []) : ofValues values ≠ [] := by
  induction values using List.reverseRecOn with
  | nil => exact absurd rfl some
  | append_singleton values value _ =>
    rw [ofValues_append]
    exact setValue_ne_nil

end AddressSpace

namespace ExperimentTables

def Names (tables : ExperimentTables) (number : Int32) (path : String) : Prop :=
  ∃ object ∈ tables.linkedObjects, ∃ file ∈ tables.files,
    Int32.ofInt object.id = number ∧ Int32.ofInt file.id = object.file ∧ file.path = path

structure Grows (tables next : ExperimentTables) : Prop where
  linkedObjects : tables.linkedObjects ⊆ next.linkedObjects
  files : tables.files ⊆ next.files

theorem Grows.refl (tables : ExperimentTables) : Grows tables tables :=
  ⟨List.Subset.refl _, List.Subset.refl _⟩

theorem Grows.trans {tables middle next : ExperimentTables} (first : Grows tables middle)
    (second : Grows middle next) : Grows tables next :=
  ⟨List.Subset.trans first.linkedObjects second.linkedObjects, List.Subset.trans first.files second.files⟩

variable {tables next : ExperimentTables}

theorem Names.mono {number : Int32} {path : String}
    (names : tables.Names number path) (grows : Grows tables next) : next.Names number path := by
  obtain ⟨object, present, file, stored, same⟩ := names
  exact ⟨object, grows.linkedObjects present, file, grows.files stored, same⟩

def AddressSpaceRow.version (row : AddressSpaceRow) : Version Time (AddressRange × Int32) where
  begins := OffsetBinary.decode row.timeBegin
  ends := OffsetBinary.decode row.timeEnd
  value := (⟨OffsetBinary.decode row.addrBegin, OffsetBinary.decode row.addrEnd⟩, row.linkedObject)

def history (tables : ExperimentTables) (thread : Int32) : List (Version Time (AddressRange × Int32)) :=
  (tables.addressSpaces.filter fun row => row.thread = thread).map AddressSpaceRow.version

theorem spacesAt_eq (tables : ExperimentTables) (database : DatabasePtr) (thread : Int32)
    (address : Address) (time : Time) :
    (Thread.spacesAt tables.toSymbolTables ⟨database, thread.toInt⟩ address time).map
        (fun row => (AddressSpaceRow.version row).value) =
      (valuesAt time (tables.history thread)).filter fun value => value.1.doesContain address := by
  unfold Thread.spacesAt valuesAt history
  simp only [filter_map, map_map, List.filter_filter]
  congr 1
  refine List.filter_congr fun row _ => ?_
  rw [Bool.eq_iff_iff]
  simp only [Function.comp_apply, Bool.and_eq_true, decide_eq_true_eq, Interval.doesContain_iff,
    Int32.toInt_inj, between_iff]
  simp only [AddressSpaceRow.version]
  tauto

def Represents (tables : ExperimentTables) (space : AddressSpace)
    (values : List (AddressRange × Int32)) : Prop :=
  List.Forall₂ (fun entry value => value.1 = entry.1 ∧ tables.Names value.2 entry.2.dmPath) space values

variable {space : AddressSpace}

theorem Represents.mono {values : List (AddressRange × Int32)} (represents : tables.Represents space values)
    (grows : Grows tables next) : next.Represents space values :=
  List.Forall₂.imp (fun _ _ related => ⟨related.1, related.2.mono grows⟩) represents

theorem findLinkedObject_names {tables : ExperimentTables} {path : String}
    (found : tables.findLinkedObject path ≠ -1) : tables.Names (tables.findLinkedObject path) path := by
  unfold findLinkedObject at found ⊢
  dsimp only at found ⊢
  cases last : (tables.linkedObjects.flatMap fun object =>
      (tables.files.filter fun file => object.file.toInt = file.id && file.path = path).map
        fun _ => Int32.ofInt object.id).getLast? with
  | none =>
    rw [last] at found
    exact absurd rfl found
  | some number =>
    obtain ⟨object, present, inner⟩ := List.mem_flatMap.mp (List.mem_of_getLast? last)
    obtain ⟨file, member, rfl⟩ := List.mem_map.mp inner
    simp only [mem_filter, Bool.and_eq_true, decide_eq_true_eq] at member
    refine ⟨object, present, file, member.1, rfl, ?_, member.2.2⟩
    rw [← member.2.1, Int32.ofInt_toInt]

theorem createLinkedObject_names (tables : ExperimentTables) (object : LoadedObject) :
    (tables.createLinkedObject object).2.Names (tables.createLinkedObject object).1 object.dmPath :=
  ⟨_, List.mem_append_right _ (List.mem_singleton_self _), _,
    List.mem_append_right _ (List.mem_singleton_self _), rfl, rfl, rfl⟩

theorem storeEntry_ok {thread : Int32} {timeBegin : Time} {entry : AddressRange × LoadedObject}
    (ran : storeEntry thread.toInt timeBegin tables entry = .ok next) :
    Grows tables next ∧ ∃ number, next.Names number entry.2.dmPath ∧
      next.history thread = tables.history thread ++ opened theEnd timeBegin [(entry.1, number)] ∧
      ∀ other ≠ thread, next.history other = tables.history other := by
  have rows : ∀ number : Int32,
      AddressSpaceRow.version ⟨thread, encode timeBegin,
        encode theEnd, encode entry.1.dmBegin,
        encode entry.1.dmEnd, number⟩ =
      (⟨timeBegin, theEnd, (entry.1, number)⟩ : Version Time (AddressRange × Int32)) := by
    intro number
    simp [AddressSpaceRow.version]
  unfold storeEntry at ran
  dsimp only at ran
  split at ran
  · obtain ⟨width, -, returned⟩ := bind_eq_ok.mp ran
    cases returned
    refine ⟨⟨fun _ member => by simp [createLinkedObject, member],
      fun _ member => by simp [createLinkedObject, member]⟩, _,
      tables.createLinkedObject_names entry.2, ?_, ?_⟩
    · simp [history, createLinkedObject, opened, filter_append, rows]
    · intro other different
      simp [history, createLinkedObject, filter_append, Ne.symm different]
  · rename_i known
    cases ran
    refine ⟨⟨List.Subset.refl _, List.Subset.refl _⟩, tables.findLinkedObject entry.2.dmPath,
      findLinkedObject_names known, ?_, ?_⟩
    · simp [history, opened, filter_append, rows]
    · intro other different
      simp [history, filter_append, Ne.symm different]

theorem storeEntries_ok {thread : Int32} {timeBegin : Time}
    (ran : space.foldlM (storeEntry thread.toInt timeBegin) tables = .ok next) :
    Grows tables next ∧ ∃ values, next.Represents space values ∧
      next.history thread = tables.history thread ++ opened theEnd timeBegin values ∧
      ∀ other ≠ thread, next.history other = tables.history other := by
  induction space generalizing tables with
  | nil =>
    cases ran
    exact ⟨Grows.refl _, [], List.Forall₂.nil, by simp [opened], fun _ _ => rfl⟩
  | cons entry rest ih =>
    rw [foldlM_cons] at ran
    obtain ⟨middle, stored, others⟩ := bind_eq_ok.mp ran
    obtain ⟨growsFirst, number, names, appended, untouched⟩ := storeEntry_ok stored
    obtain ⟨growsRest, values, represents, appendedRest, untouchedRest⟩ := ih others
    refine ⟨growsFirst.trans growsRest, (entry.1, number) :: values,
      List.Forall₂.cons ⟨rfl, names.mono growsRest⟩ represents, ?_, ?_⟩
    · rw [appendedRest, appended]
      simp [opened]
    · intro other different
      rw [untouchedRest other different, untouched other different]

theorem history_endIntervals (tables : ExperimentTables) (when : Time) (thread : Int32) :
    (tables.endIntervals thread.toInt when).history thread = close theEnd when (tables.history thread) := by
  simp only [history, endIntervals, close, filter_map, map_map]
  have kept : (fun row : AddressSpaceRow => decide (row.thread = thread)) ∘ (fun row =>
      if row.thread.toInt = thread.toInt ∧ row.timeEnd = encode theEnd then
        { row with timeEnd := encode when }
      else row) = fun row => decide (row.thread = thread) := by
    funext row
    simp only [Function.comp_apply]
    split <;> rfl
  rw [kept]
  refine List.map_congr_left fun row member => ?_
  have same : row.thread = thread := of_decide_eq_true (mem_filter.mp member).2
  have ends : row.timeEnd = encode theEnd ↔
      decode row.timeEnd = theEnd := by
    constructor
    · intro equal
      rw [equal, OffsetBinary.decode_encode]
    · intro equal
      rw [← equal, OffsetBinary.encode_decode]
  simp only [Function.comp_apply, same, true_and, ends]
  by_cases last : decode row.timeEnd = theEnd
  · simp [AddressSpaceRow.version, last]
  · simp [AddressSpaceRow.version, last]

theorem history_endIntervals_of_ne (tables : ExperimentTables) (when : Time) {thread other : Int32}
    (different : other ≠ thread) :
    (tables.endIntervals thread.toInt when).history other = tables.history other := by
  simp only [history, endIntervals, filter_map, map_map]
  have kept : (fun row : AddressSpaceRow => decide (row.thread = other)) ∘ (fun row =>
      if row.thread.toInt = thread.toInt ∧ row.timeEnd = encode theEnd then
        { row with timeEnd := encode when }
      else row) = fun row => decide (row.thread = other) := by
    funext row
    simp only [Function.comp_apply]
    split <;> rfl
  rw [kept]
  refine List.map_congr_left fun row member => ?_
  have same : row.thread = other := of_decide_eq_true (mem_filter.mp member).2
  simp [same, Int32.toInt_inj, different]

theorem updateThreadAt_ok {thread : Int32} {when : Time}
    (ran : tables.updateThreadAt space when true thread.toInt = .ok next) :
    Grows tables next ∧ ∃ values, next.Represents space values ∧
      next.history thread = recordFrom theEnd Time.theBeginning when values (tables.history thread) ∧
      ∀ other ≠ thread, next.history other = tables.history other := by
  have known : (tables.addressSpaces.any fun row => row.thread.toInt = thread.toInt) =
      !(tables.history thread).isEmpty := by
    rw [Bool.eq_iff_iff]
    simp [history, List.filter_eq_nil_iff, Int32.toInt_inj]
  unfold updateThreadAt at ran
  simp only [if_true, known] at ran
  obtain ⟨grows, values, represents, appended, untouched⟩ := storeEntries_ok ran
  rw [history_endIntervals] at appended
  refine ⟨⟨grows.linkedObjects, grows.files⟩, values, represents, ?_, fun other different => ?_⟩
  · rw [appended, recordFrom]
    cases none : (tables.history thread).isEmpty with
    | true =>
      rw [List.isEmpty_iff] at none
      simp [none, close]
    | false => simp [record]
  · rw [untouched other different, history_endIntervals_of_ne tables when different]

theorem updateThreads_ok {when : Time} {threads : List Int32} (nodup : threads.Nodup)
    (ran : tables.updateThreads space when true (threads.map Int32.toInt) = .ok next) :
    Grows tables next ∧ (∀ thread ∈ threads, ∃ values, next.Represents space values ∧
        next.history thread = recordFrom theEnd Time.theBeginning when values (tables.history thread)) ∧
      ∀ other ∉ threads, next.history other = tables.history other := by
  unfold updateThreads at ran
  induction threads generalizing tables with
  | nil =>
    cases ran
    exact ⟨Grows.refl _, by simp, fun _ _ => rfl⟩
  | cons thread rest ih =>
    obtain ⟨absent, nodupRest⟩ := List.nodup_cons.mp nodup
    rw [List.map_cons, foldlM_cons] at ran
    obtain ⟨middle, updated, others⟩ := bind_eq_ok.mp ran
    obtain ⟨growsFirst, values, represents, recorded, untouched⟩ := updateThreadAt_ok updated
    obtain ⟨growsRest, recordedRest, untouchedRest⟩ := ih nodupRest others
    refine ⟨growsFirst.trans growsRest, ?_, ?_⟩
    · intro other member
      rcases mem_cons.mp member with rfl | later
      · exact ⟨values, represents.mono growsRest, by rw [untouchedRest other absent, recorded]⟩
      · obtain ⟨valuesRest, representsRest, same⟩ := recordedRest other later
        have different : other ≠ thread := by
          rintro rfl
          exact absent later
        exact ⟨valuesRest, representsRest, by rw [same, untouched other different]⟩
    · intro other outside
      rw [mem_cons, not_or] at outside
      rw [untouchedRest other outside.2, untouched other outside.1]

end ExperimentTables

namespace AddressSpaceUpdate

open ExperimentTables

def ofThread (thread : Int32) (updates : List AddressSpaceUpdate) : List AddressSpaceUpdate :=
  updates.filter fun update => thread ∈ update.threads

def inForce (time : Time) (updates : List AddressSpaceUpdate) : Option AddressSpaceUpdate :=
  (updates.filter fun update => update.when ≤ time).getLast?.or updates.head?

theorem inForce_cons (time : Time) (first : AddressSpaceUpdate) (rest : List AddressSpaceUpdate) :
    inForce time (first :: rest) =
      some ((rest.filter fun update => update.when ≤ time).getLast?.getD first) := by
  by_cases started : first.when ≤ time
  · simp [inForce, started, List.getLast?_cons]
  · cases last : (rest.filter fun update => decide (update.when ≤ time)).getLast? with
    | none => simp [inForce, started, last]
    | some update => simp [inForce, started, last]

variable {updates : List AddressSpaceUpdate}

theorem inForce_mem {time : Time}
    {update : AddressSpaceUpdate} (forced : inForce time updates = some update) : update ∈ updates := by
  rcases Option.or_eq_some_iff.mp forced with last | ⟨-, first⟩
  · exact (mem_filter.mp (List.mem_of_getLast? last)).1
  · exact List.mem_of_head? first

theorem run_history (thread : Int32)
    {tables final : ExperimentTables} (ran : updates.foldlM run tables = .ok final) :
    Grows tables final ∧ ∃ recordings : List (Time × List (AddressRange × Int32)),
      List.Forall₂ (fun update recorded => recorded.1 = update.when ∧
          final.Represents update.addressSpace recorded.2) (ofThread thread updates) recordings ∧
        final.history thread = recordings.foldl (fun history recording =>
          recordFrom theEnd Time.theBeginning recording.1 recording.2 history) (tables.history thread) := by
  induction updates generalizing tables with
  | nil =>
    cases ran
    exact ⟨Grows.refl _, [], List.Forall₂.nil, rfl⟩
  | cons update rest ih =>
    rw [foldlM_cons] at ran
    obtain ⟨middle, updated, others⟩ := bind_eq_ok.mp ran
    obtain ⟨growsFirst, recorded, untouched⟩ := updateThreads_ok update.nodup updated
    obtain ⟨growsRest, recordings, related, folded⟩ := ih others
    refine ⟨growsFirst.trans growsRest, ?_⟩
    by_cases member : thread ∈ update.threads
    · obtain ⟨values, represents, same⟩ := recorded thread member
      refine ⟨(update.when, values) :: recordings, ?_, ?_⟩
      · simpa [ofThread, member] using ⟨represents.mono growsRest, related⟩
      · rw [folded, same, List.foldl_cons]
    · refine ⟨recordings, ?_, ?_⟩
      · simpa [ofThread, member] using related
      · rw [folded, untouched thread member]

theorem run_total (formed : ∀ update ∈ updates, ∀ entry ∈ update.addressSpace,
      entry.1.dmBegin ≤ entry.1.dmEnd ∧ entry.1.dmEnd.toNat - entry.1.dmBegin.toNat < 2 ^ 63)
    (tables : ExperimentTables) : ∃ final, updates.foldlM run tables = .ok final := by
  refine foldlM_total (fun tables update member => ?_) tables
  refine foldlM_total (fun tables thread _ => ?_) tables
  refine foldlM_total (fun tables entry present => ?_) _
  obtain ⟨ordered, near⟩ := formed update member entry present
  unfold storeEntry
  dsimp only
  split
  · rw [Address.sub_of_le ordered near, ok_bind]
    exact ⟨_, rfl⟩
  · exact ⟨_, rfl⟩

theorem filter_of_represents {tables : ExperimentTables} {space : AddressSpace}
    {values : List (AddressRange × Int32)} (represents : tables.Represents space values)
    (disjoint : space.Pairwise fun first second =>
      ∀ address, ¬ (first.1.doesContain address = true ∧ second.1.doesContain address = true))
    (address : Address) : (∀ entry ∈ space, entry.1.doesContain address = true → ∃ value,
        (values.filter fun value => value.1.doesContain address) = [value] ∧
        tables.Names value.2 entry.2.dmPath) ∧ ((∀ entry ∈ space, ¬ entry.1.doesContain address = true) →
        (values.filter fun value => value.1.doesContain address) = []) := by
  unfold Represents at represents
  induction represents with
  | nil => exact ⟨by simp, by simp⟩
  | @cons first value rest values here _ ih =>
    obtain ⟨apart, disjointRest⟩ := List.pairwise_cons.mp disjoint
    obtain ⟨found, missed⟩ := ih disjointRest
    rw [List.filter_cons, here.1]
    by_cases inside : first.1.doesContain address = true
    · have others := missed fun entry member both => apart entry member address ⟨inside, both⟩
      rw [if_pos inside, others]
      refine ⟨fun entry member contains => ⟨value, rfl, ?_⟩, fun outside => ?_⟩
      · rcases mem_cons.mp member with rfl | later
        · exact here.2
        · exact absurd ⟨inside, contains⟩ (apart entry later address)
      · exact absurd inside (outside first (by simp))
    · rw [if_neg inside]
      refine ⟨fun entry member contains => ?_, fun outside => ?_⟩
      · rcases mem_cons.mp member with rfl | later
        · exact absurd contains inside
        · exact found entry later contains
      · exact missed fun entry member => outside entry (by simp [member])

def noTables : ExperimentTables := ⟨⟨[], ⟨[], []⟩, ⟨[], []⟩, [], ⟨[], []⟩⟩, [1, 2], []⟩

def twice : List AddressSpaceUpdate :=
  [⟨[(⟨16, 32⟩, ⟨"/bin/app", true⟩), (⟨24, 48⟩, ⟨"/lib/liba.so", false⟩)], 5, [1, 2], by decide⟩,
    ⟨[(⟨64, 96⟩, ⟨"/lib/libb.so", false⟩)], 5, [1], by decide⟩]

end AddressSpaceUpdate

end OpenSpeedShop
