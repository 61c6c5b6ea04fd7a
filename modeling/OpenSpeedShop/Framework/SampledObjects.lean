import OpenSpeedShop.Framework.Interval
import OpenSpeedShop.Library.OrderedSet
import Mathlib.Data.UInt

/-! The linked objects of an offline experiment, of which those are kept that were sampled. -/

namespace OpenSpeedShop.OfflineExperiment

open List (mem_map forall_mem_cons mem_flatMap foldlM_cons)
open OrderedSet (back lastBelow none_below last_below)

def isSampled (uniqueAddresses : OrderedSet Address) (range : AddressRange) : Option Bool := do
  let itlow ← OrderedSet.back (uniqueAddresses.lowerBound range.dmBegin)
  let itup ← OrderedSet.back (uniqueAddresses.upperBound range.dmEnd)
  let low ← uniqueAddresses.get? itlow
  let up ← uniqueAddresses.get? itup
  return range.doesContain low || range.doesContain up

/-- The constructors of intervals assert that they are not empty. -/
structure ObjectEntry where
  objname : String
  range : AddressRange
  timeInterval : TimeInterval
  nonempty : range.dmBegin < range.dmEnd
  lasting : timeInterval.dmBegin < timeInterval.dmEnd

def ObjectEntry.isLong (entry : ObjectEntry) : Bool :=
  !(entry.timeInterval.dmEnd - entry.timeInterval.dmBegin < 1000000)

def ObjectEntry.isFile (entry : ObjectEntry) : Bool :=
  ["[vdso]", "[vsyscall]", "[stack]", "[heap]"].all (fun name =>
    !decide (name.toList <:+: entry.objname.toList)) && entry.objname ≠ "unknown"

/-- The filters of `process_objects` and of `process_cbtf_objects`. -/
def keepsObject (uniqueAddresses : OrderedSet Address) (entry : ObjectEntry) : Option Bool :=
  if entry.objname = "" then some false
  else do
    let sampled ← isSampled uniqueAddresses entry.range
    return sampled && entry.isLong && entry.isFile

def processObjects (uniqueAddresses : OrderedSet Address) : List ObjectEntry → Option (List ObjectEntry)
  | [] => some []
  | entry :: rest => do
      let kept ← keepsObject uniqueAddresses entry
      let others ← processObjects uniqueAddresses rest
      return if kept then entry :: others else others

structure LinkedObject where
  getPath : String
  getAddressRange : List AddressRange
  nonempty : ∀ range ∈ getAddressRange, range.dmBegin < range.dmEnd

structure Selection where
  linkedobjs : List String
  symtabmap : List (AddressRange × String)
deriving DecidableEq

def Selection.insert (selection : Selection) (entry : String × AddressRange) : Selection :=
  if entry.1 ∈ selection.linkedobjs then selection
  else
    ⟨entry.1 :: selection.linkedobjs,
      if entry.2 ∈ selection.symtabmap.map Prod.fst then selection.symtabmap
      else (entry.2, entry.1) :: selection.symtabmap⟩

def selectTable (uniqueAddresses : OrderedSet Address) (selection : Selection)
    (entry : String × AddressRange) : Option Selection := do
  let sampled ← isSampled uniqueAddresses entry.2
  return if sampled then selection.insert entry else selection

def entriesOf (object : LinkedObject) : List (String × AddressRange) :=
  object.getAddressRange.map (object.getPath, ·)

def selectTables (uniqueAddresses : OrderedSet Address) (objects : List LinkedObject) : Option Selection :=
  objects.foldlM (fun selection object =>
    (entriesOf object).foldlM (selectTable uniqueAddresses) selection) ⟨[], []⟩

variable {uniqueAddresses : OrderedSet Address} {range : AddressRange}

def Sampled (uniqueAddresses : OrderedSet Address) (range : AddressRange) : Prop :=
  ∃ sample ∈ uniqueAddresses.keys, range.dmBegin ≤ sample ∧ sample < range.dmEnd

instance : Decidable (Sampled uniqueAddresses range) :=
  inferInstanceAs (Decidable (∃ sample ∈ uniqueAddresses.keys, _))

def HasBelow (uniqueAddresses : OrderedSet Address) (range : AddressRange) : Prop :=
  ∃ sample ∈ uniqueAddresses.keys, sample < range.dmBegin

/-- The order in which the iterators are moved and read makes no difference. -/
theorem isSampled_eq : isSampled uniqueAddresses range =
    (lastBelow (· < range.dmBegin) uniqueAddresses.keys).bind fun low =>
      (lastBelow (· ≤ range.dmEnd) uniqueAddresses.keys).bind fun up =>
        some (range.doesContain low || range.doesContain up) := by
  unfold isSampled lastBelow
  change (back (uniqueAddresses.lowerBound range.dmBegin)).bind _ =
    ((back (uniqueAddresses.lowerBound range.dmBegin)).bind _).bind _
  cases back (uniqueAddresses.lowerBound range.dmBegin) with
  | none => rfl
  | some itlow =>
    change (back (uniqueAddresses.upperBound range.dmEnd)).bind _ =
      (uniqueAddresses.keys[itlow]?).bind fun low =>
        ((back (uniqueAddresses.upperBound range.dmEnd)).bind _).bind _
    cases back (uniqueAddresses.upperBound range.dmEnd) with
    | none => cases uniqueAddresses.keys[itlow]? <;> rfl
    | some itup => rfl

/-- Only the greatest sample that is not above the end counts. -/
theorem isSampled_eq_some (nonempty : range.dmBegin < range.dmEnd) {kept : Bool} :
    isSampled uniqueAddresses range = some kept ↔ HasBelow uniqueAddresses range ∧
      kept = decide (Sampled uniqueAddresses range ∧ range.dmEnd ∉ uniqueAddresses.keys) := by
  have downLow : ∀ {less key : Address}, less < key → decide (key < range.dmBegin) = true →
      decide (less < range.dmBegin) = true := by
    simpa using fun {less key} before below => before.trans below
  have downUp : ∀ {less key : Address}, less < key → decide (key ≤ range.dmEnd) = true →
      decide (less ≤ range.dmEnd) = true := by
    simpa using fun {less key} before below => (before.trans_le below).le
  rw [isSampled_eq]
  cases low : lastBelow (· < range.dmBegin) uniqueAddresses.keys with
  | none =>
    have above := none_below downLow uniqueAddresses.sorted low
    refine iff_of_false (by simp) ?_
    rintro ⟨⟨sample, member, below⟩, -⟩
    simpa [below] using above sample member
  | some lowSample =>
    obtain ⟨lowMember, lowBelow, -⟩ := last_below downLow uniqueAddresses.sorted low
    have lowBelow : lowSample < range.dmBegin := of_decide_eq_true lowBelow
    cases up : lastBelow (· ≤ range.dmEnd) uniqueAddresses.keys with
    | none =>
      have above := none_below downUp uniqueAddresses.sorted up lowSample lowMember
      exact absurd (lowBelow.trans nonempty).le (of_decide_eq_false above)
    | some upSample =>
      obtain ⟨upMember, upBelow, highest⟩ :=
        last_below downUp uniqueAddresses.sorted up
      have upBelow : upSample ≤ range.dmEnd := of_decide_eq_true upBelow
      have seen : (range.doesContain lowSample || range.doesContain upSample) =
          decide (Sampled uniqueAddresses range ∧ range.dmEnd ∉ uniqueAddresses.keys) := by
        rw [Bool.eq_iff_iff, Bool.or_eq_true, Interval.doesContain_iff,
          Interval.doesContain_iff, decide_eq_true_eq]
        constructor
        · rintro (⟨inside, -⟩ | inside)
          · exact absurd lowBelow inside.not_gt
          · refine ⟨⟨upSample, upMember, inside⟩, fun atEnd => ?_⟩
            have := highest range.dmEnd atEnd (decide_eq_true (le_refl _))
            exact absurd inside.2 this.not_gt
        · rintro ⟨⟨sample, member, atLeast, inside⟩, noEnd⟩
          have := highest sample member (decide_eq_true inside.le)
          refine .inr ⟨atLeast.trans this, upBelow.lt_of_ne fun atEnd => noEnd ?_⟩
          exact atEnd ▸ upMember
      have below : HasBelow uniqueAddresses range := ⟨lowSample, lowMember, lowBelow⟩
      simp [below, seen, eq_comm]

/-- The test does not see a range at whose end there is another sample. -/
def Seen (uniqueAddresses : OrderedSet Address) (range : AddressRange) : Bool :=
  decide (Sampled uniqueAddresses range ∧ range.dmEnd ∉ uniqueAddresses.keys)

theorem isSampled_of_below (nonempty : range.dmBegin < range.dmEnd) (below : HasBelow uniqueAddresses range) :
    isSampled uniqueAddresses range = some (Seen uniqueAddresses range) :=
  (isSampled_eq_some nonempty).mpr ⟨below, rfl⟩

theorem isSampled_isSome (nonempty : range.dmBegin < range.dmEnd) :
    (∃ kept, isSampled uniqueAddresses range = some kept) ↔ HasBelow uniqueAddresses range :=
  ⟨fun ⟨_, kept⟩ => ((isSampled_eq_some nonempty).mp kept).1,
    fun below => ⟨_, isSampled_of_below nonempty below⟩⟩

def ObjectEntry.Wanted (entry : ObjectEntry) (uniqueAddresses : OrderedSet Address) : Bool :=
  entry.objname ≠ "" && decide (Sampled uniqueAddresses entry.range) && entry.isLong && entry.isFile

def ObjectEntry.Decided (entry : ObjectEntry) (uniqueAddresses : OrderedSet Address) : Prop :=
  entry.objname ≠ "" → HasBelow uniqueAddresses entry.range ∧
    (entry.isLong = true → entry.isFile = true →
      entry.range.dmEnd ∈ uniqueAddresses.keys → ¬Sampled uniqueAddresses entry.range)

theorem keepsObject_wanted (entry : ObjectEntry) :
    keepsObject uniqueAddresses entry = some (entry.Wanted uniqueAddresses) ↔
      entry.Decided uniqueAddresses := by
  unfold keepsObject ObjectEntry.Wanted ObjectEntry.Decided
  by_cases unnamed : entry.objname = ""
  · simp [unnamed]
  · by_cases below : HasBelow uniqueAddresses entry.range
    · rw [if_neg unnamed, isSampled_of_below entry.nonempty below]
      by_cases sampled : Sampled uniqueAddresses entry.range <;>
        cases entry.isLong <;> cases entry.isFile <;> simp [unnamed, below, sampled, Seen]
    · have fails : isSampled uniqueAddresses entry.range = none :=
        Option.eq_none_iff_forall_ne_some.mpr fun kept answered =>
          below ((isSampled_isSome entry.nonempty).mp ⟨kept, answered⟩)
      simp [unnamed, below, fails]

theorem keepsObject_le {entry : ObjectEntry} {kept : Bool}
    (answered : keepsObject uniqueAddresses entry = some kept) :
    kept = true → entry.Wanted uniqueAddresses = true := by
  unfold keepsObject at answered
  unfold ObjectEntry.Wanted
  split at answered
  · exact fun isKept => by simp [isKept] at answered
  · next named =>
      cases test : isSampled uniqueAddresses entry.range with
      | none => simp [test] at answered
      | some sampled =>
        obtain ⟨-, isSeen⟩ := (isSampled_eq_some entry.nonempty).mp test
        rw [test] at answered
        simp only [Option.pure_def, Option.bind_eq_bind, Option.bind_some, Option.some.injEq] at answered
        rintro rfl
        simp_all

theorem processObjects_length {entries dsoVec : List ObjectEntry}
    (ran : processObjects uniqueAddresses entries = some dsoVec) :
    dsoVec.length ≤ (entries.filter (·.Wanted uniqueAddresses)).length := by
  induction entries generalizing dsoVec with
  | nil => simp_all [processObjects]
  | cons entry rest ih =>
    rw [processObjects, Option.bind_eq_bind, Option.bind_eq_some_iff] at ran
    obtain ⟨kept, answered, ran⟩ := ran
    obtain ⟨others, ranRest, ran⟩ := Option.bind_eq_some_iff.mp ran
    obtain rfl := Option.some.inj ran
    have shorter := ih ranRest
    rw [List.filter_cons]
    cases kept with
    | false =>
      refine shorter.trans ?_
      split
      · exact Nat.le_succ _
      · exact le_refl _
    | true =>
      rw [if_pos (keepsObject_le answered rfl)]
      simpa using shorter

theorem processObjects_wanted (entries : List ObjectEntry) :
    processObjects uniqueAddresses entries = some (entries.filter (·.Wanted uniqueAddresses)) ↔
      ∀ entry ∈ entries, entry.Decided uniqueAddresses := by
  induction entries with
  | nil => simp [processObjects]
  | cons entry rest ih =>
    rw [forall_mem_cons, ← ih, ← keepsObject_wanted, List.filter_cons, processObjects]
    cases answered : keepsObject uniqueAddresses entry with
    | none => simp
    | some kept =>
      cases ran : processObjects uniqueAddresses rest with
      | none => simp
      | some others =>
        have shorter := processObjects_length ran
        have wanted := keepsObject_le answered
        cases isWanted : entry.Wanted uniqueAddresses <;> cases kept
        · simp
        · simp [isWanted] at wanted
        · -- An entry that is lost leaves too few of them.
          refine iff_of_false (fun same => ?_) (by simp)
          have := congrArg List.length (Option.some.inj same)
          simp only [Bool.false_eq_true, if_false, if_true, List.length_cons] at this
          omega
        · simp

section

variable {objects : List LinkedObject}

def candidates (objects : List LinkedObject) : List (String × AddressRange) :=
  objects.flatMap entriesOf

theorem candidates_nonempty : ∀ entry ∈ candidates objects, entry.2.dmBegin < entry.2.dmEnd := by
  intro entry member
  obtain ⟨object, -, inObject⟩ := mem_flatMap.mp member
  obtain ⟨range, inRanges, rfl⟩ := mem_map.mp inObject
  exact object.nonempty range inRanges

theorem selectTables_eq : selectTables uniqueAddresses objects =
    (candidates objects).foldlM (selectTable uniqueAddresses) ⟨[], []⟩ := by
  unfold selectTables candidates
  generalize (⟨[], []⟩ : Selection) = selection
  induction objects generalizing selection with
  | nil => rfl
  | cons object rest ih =>
    rw [List.flatMap_cons, List.foldlM_append, foldlM_cons]
    exact congrArg _ (funext ih)

def seen (uniqueAddresses : OrderedSet Address) (objects : List LinkedObject) : List (String × AddressRange) :=
  (candidates objects).filter fun entry => Seen uniqueAddresses entry.2

def selected (entries : List (String × AddressRange)) : Selection :=
  entries.foldl Selection.insert ⟨[], []⟩

section

variable {entries : List (String × AddressRange)} {selection : Selection}
  (nonempty : ∀ entry ∈ entries, entry.2.dmBegin < entry.2.dmEnd)
include nonempty

theorem foldlM_of_below (below : ∀ entry ∈ entries, HasBelow uniqueAddresses entry.2) :
    entries.foldlM (selectTable uniqueAddresses) selection = some
      ((entries.filter fun entry => Seen uniqueAddresses entry.2).foldl Selection.insert selection) := by
  rw [List.foldl_filter]
  induction entries generalizing selection with
  | nil => rfl
  | cons entry rest ih =>
    obtain ⟨filled, others⟩ := forall_mem_cons.mp nonempty
    obtain ⟨here, behind⟩ := forall_mem_cons.mp below
    rw [foldlM_cons, List.foldl_cons, selectTable, isSampled_of_below filled here]
    exact ih others behind

theorem below_of_foldlM {last : Selection}
    (ran : entries.foldlM (selectTable uniqueAddresses) selection = some last) :
    ∀ entry ∈ entries, HasBelow uniqueAddresses entry.2 := by
  induction entries generalizing selection with
  | nil => simp
  | cons entry rest ih =>
    obtain ⟨filled, others⟩ := forall_mem_cons.mp nonempty
    rw [foldlM_cons, Option.bind_eq_bind, Option.bind_eq_some_iff] at ran
    obtain ⟨next, stepped, ranRest⟩ := ran
    obtain ⟨kept, tested, -⟩ := Option.bind_eq_some_iff.mp stepped
    exact forall_mem_cons.mpr ⟨((isSampled_eq_some filled).mp tested).1, ih others ranRest⟩

end

theorem selectTables_of_below (below : ∀ entry ∈ candidates objects, HasBelow uniqueAddresses entry.2) :
    selectTables uniqueAddresses objects = some (selected (seen uniqueAddresses objects)) :=
  selectTables_eq.trans (foldlM_of_below candidates_nonempty below)

/-- The range for which the table of a path is to be made. -/
def firstRange (entries : List (String × AddressRange)) (path : String) : Option (String × AddressRange) :=
  entries.find? (·.1 = path)

structure Selects (entries : List (String × AddressRange)) (selection : Selection) : Prop where
  paths : ∀ path, path ∈ selection.linkedobjs ↔ path ∈ entries.map Prod.fst
  first : ∀ range path, (range, path) ∈ selection.symtabmap → firstRange entries path = some (path, range)
  ranges : ∀ path range, firstRange entries path = some (path, range) →
    range ∈ selection.symtabmap.map Prod.fst
  nodup : (selection.symtabmap.map Prod.fst).Nodup

theorem firstRange_append (entries : List (String × AddressRange))
    (last : String × AddressRange) (path : String) : firstRange (entries ++ [last]) path =
      (firstRange entries path).or (if last.1 = path then some last else none) := by
  rw [firstRange, List.find?_append, List.find?_cons, List.find?_nil]
  by_cases same : last.1 = path <;> simp [firstRange, same]

variable {entries : List (String × AddressRange)} {path : String}

theorem firstRange_eq_none : firstRange entries path = none ↔ path ∉ entries.map Prod.fst := by
  rw [firstRange, List.find?_eq_none, mem_map]
  constructor
  · rintro absent ⟨entry, member, rfl⟩
    exact absent entry member (decide_eq_true rfl)
  · intro absent entry member same
    exact absent ⟨entry, member, of_decide_eq_true same⟩

theorem mem_of_firstRange {range : AddressRange} (found : firstRange entries path = some (path, range)) :
    path ∈ entries.map Prod.fst :=
  mem_map.mpr ⟨_, List.mem_of_find?_eq_some found, rfl⟩

theorem Selects.insert {selection : Selection}
    (selects : Selects entries selection) (last : String × AddressRange) :
    Selects (entries ++ [last]) (selection.insert last) := by
  obtain ⟨paths, first, ranges, nodup⟩ := selects
  unfold Selection.insert
  by_cases met : last.1 ∈ selection.linkedobjs
  · have unchanged : ∀ path, firstRange (entries ++ [last]) path = firstRange entries path := by
      intro path
      rw [firstRange_append]
      cases found : firstRange entries path with
      | some entry => rfl
      | none =>
        have absent := firstRange_eq_none.mp found
        have other : last.1 ≠ path := fun same => absent ((paths path).mp (same ▸ met))
        rw [if_neg other]
        rfl
    rw [if_pos met]
    refine ⟨fun path => ?_, fun range path => ?_, fun path range => ?_, nodup⟩
    · rw [List.map_append, List.mem_append, paths]
      refine ⟨.inl, ?_⟩
      rintro (earlier | isLast)
      · exact earlier
      · obtain rfl := List.mem_singleton.mp isLast
        exact (paths _).mp met
    · rw [unchanged]
      exact first range path
    · rw [unchanged]
      exact ranges path range
  · have unmet : firstRange entries last.1 = none :=
      firstRange_eq_none.mpr fun member => met ((paths _).mpr member)
    have kept : ∀ range path, firstRange entries path = some (path, range) →
        firstRange (entries ++ [last]) path = some (path, range) := by
      intro range path found
      rw [firstRange_append, found]
      rfl
    have added : firstRange (entries ++ [last]) last.1 = some (last.1, last.2) := by
      rw [firstRange_append, unmet, if_pos rfl]
      rfl
    have split : ∀ path range, firstRange (entries ++ [last]) path = some (path, range) →
        firstRange entries path = some (path, range) ∨ range = last.2 := by
      intro path range found
      rw [firstRange_append] at found
      cases earlier : firstRange entries path with
      | some entry =>
        rw [earlier] at found
        exact .inl found
      | none =>
        rw [earlier, Option.none_or] at found
        split at found
        · exact .inr (congrArg Prod.snd (Option.some.inj found)).symm
        · cases found
    rw [if_neg met]
    refine ⟨fun path => by simp [paths, or_comm], fun range path member => ?_, fun path range found => ?_, ?_⟩
    · dsimp only at member
      split at member
      · exact kept range path (first range path member)
      · rcases List.mem_cons.mp member with same | member
        · obtain ⟨rfl, rfl⟩ := Prod.mk.inj same
          exact added
        · exact kept range path (first range path member)
    · dsimp only
      rcases split path range found with earlier | rfl
      · have member := ranges path range earlier
        split
        · exact member
        · exact List.mem_cons_of_mem _ member
      · split
        · assumption
        · exact List.mem_cons_self
    · dsimp only
      split
      · exact nodup
      · next fresh => exact List.nodup_cons.mpr ⟨fresh, nodup⟩

theorem selects_selected (entries : List (String × AddressRange)) : Selects entries (selected entries) := by
  induction entries using List.reverseRecOn with
  | nil => exact ⟨by simp [selected], by simp [selected], by simp [firstRange], List.nodup_nil⟩
  | append_singleton entries last ih =>
    rw [selected, List.foldl_append]
    exact ih.insert last

/-- Two paths with one first range share the table of one of them. -/
theorem Selects.hasTable_iff {selection : Selection} (selects : Selects entries selection) :
    (∀ path ∈ entries.map Prod.fst, path ∈ selection.symtabmap.map Prod.snd) ↔
      ∀ path other range, firstRange entries path = some (path, range) →
        firstRange entries other = some (other, range) → path = other := by
  have first_of_mem : ∀ path ∈ entries.map Prod.fst, ∃ range,
      firstRange entries path = some (path, range) := by
    intro path member
    cases found : firstRange entries path with
    | none => exact absurd member (firstRange_eq_none.mp found)
    | some entry =>
      have same : entry.1 = path := by simpa using List.find?_some found
      exact ⟨entry.2, same ▸ rfl⟩
  constructor
  · intro tables path other range firstPath firstOther
    obtain ⟨⟨range₁, path⟩, member₁, rfl⟩ := mem_map.mp (tables path (mem_of_firstRange firstPath))
    obtain ⟨⟨range₂, other⟩, member₂, rfl⟩ :=
      mem_map.mp (tables other (mem_of_firstRange firstOther))
    have same₁ := (selects.first range₁ path member₁).symm.trans firstPath
    have same₂ := (selects.first range₂ other member₂).symm.trans firstOther
    simp only [Option.some.injEq, Prod.mk.injEq, true_and] at same₁ same₂
    subst same₁ same₂
    exact congrArg Prod.snd (List.inj_on_of_nodup_map selects.nodup member₁ member₂ rfl)
  · intro apart path member
    obtain ⟨range, firstPath⟩ := first_of_mem path member
    obtain ⟨⟨_, other⟩, inMap, rfl⟩ := mem_map.mp (selects.ranges path range firstPath)
    obtain rfl := apart path other _ firstPath (selects.first _ other inMap)
    exact mem_map.mpr ⟨_, inMap, rfl⟩

/-- The tables are made for the paths of the objects that were sampled. -/
def TablesExact (uniqueAddresses : OrderedSet Address) (objects : List LinkedObject) : Prop :=
  ∃ selection, selectTables uniqueAddresses objects = some selection ∧
    ∀ path, path ∈ selection.symtabmap.map Prod.snd ↔
      ∃ object ∈ objects, object.getPath = path ∧
        ∃ range ∈ object.getAddressRange, Sampled uniqueAddresses range

theorem exists_candidate (path : String) : (∃ object ∈ objects, object.getPath = path ∧
      ∃ range ∈ object.getAddressRange, Sampled uniqueAddresses range) ↔
    ∃ entry ∈ candidates objects, entry.1 = path ∧ Sampled uniqueAddresses entry.2 := by
  constructor
  · rintro ⟨object, member, rfl, range, inObject, sampled⟩
    exact ⟨(object.getPath, range), mem_flatMap.mpr ⟨object, member,
      mem_map.mpr ⟨range, inObject, rfl⟩⟩, rfl, sampled⟩
  · rintro ⟨_, member, rfl, sampled⟩
    obtain ⟨object, inObjects, inObject⟩ := mem_flatMap.mp member
    obtain ⟨range, inRanges, rfl⟩ := mem_map.mp inObject
    exact ⟨object, inObjects, rfl, range, inRanges, sampled⟩

theorem candidate_of_seen (isSeen : path ∈ (seen uniqueAddresses objects).map Prod.fst) :
    ∃ entry ∈ candidates objects, entry.1 = path ∧ Sampled uniqueAddresses entry.2 := by
  obtain ⟨entry, member, rfl⟩ := mem_map.mp isSeen
  obtain ⟨inObjects, sees⟩ := List.mem_filter.mp member
  exact ⟨entry, inObjects, rfl, (of_decide_eq_true sees).1⟩

end

end OpenSpeedShop.OfflineExperiment
