import OpenSpeedShop.Cbtf.UpdateThreadsCore
import OpenSpeedShop.Framework.SampledObjects
import OpenSpeedShop.Library.Runs

/-! The linked objects and the address spaces that the front end writes at the end of a run. -/

namespace OpenSpeedShop.Cbtf

open Schema (ExperimentDatabase)
open OfflineExperiment (Sampled)

/-- An entry whose address range is not empty, as the constructor of `AddressRange` asserts. -/
structure LinkedObjectEntry where
  tname : ThreadName
  path : String
  range : AddressRange
  timeLoaded : Time
  timeUnloaded : Time
  isExecutable : Bool
  nonempty : range.dmBegin < range.dmEnd

def isThread (name : ThreadName) (row : Schema.ThreadRow) : Sql.Truth :=
  let process := Sql.both (Sql.equal row.host (some name.host)) (Sql.equal row.pid (some name.pid.toInt))
  if name.posixThreadId.1 then
    Sql.both process (Sql.equal row.posixTid (some (encodePosixThreadId name.posixThreadId.2)))
  else process

/-- The identifier of the last row; none is the invalid one. -/
def getThreadIdentifier (database : ExperimentDatabase) (thread : ThreadName) : Option Int :=
  (Sql.select (isThread thread) database.threads).getLast?.map (·.id)

def namesFile (object : Schema.LinkedObjectRow) (path : String) (file : Schema.FileRow) : Sql.Truth :=
  Sql.both (Sql.equal object.file (some file.id)) (Sql.equal file.path (some path))

def getLinkedObjectIdentifier (database : ExperimentDatabase) (path : String) : Option Int :=
  (database.linkedObjects.flatMap fun object =>
    (Sql.select (namesFile object path) database.files).map fun _ => object.id).getLast?

def encodeAddress (address : UInt64) : Option Int := some (OffsetBinary.encode address).toInt

def createLinkedObject (entry : LinkedObjectEntry) (database : ExperimentDatabase) :
    Int × ExperimentDatabase :=
  let file := nextId database.fileIds
  let object := nextId database.linkedObjectIds
  (object, { database with
    files := database.files ++ [⟨file, some entry.path, none, none⟩]
    -- The statement has the literal 0, which is not the encoding of the address 0.
    linkedObjects := database.linkedObjects ++ [⟨object, some 0,
      encodeAddress (entry.range.dmEnd - entry.range.dmBegin), some file,
      some (if entry.isExecutable then 1 else 0)⟩] })

def createAddressSpace (thread linkedObject : Int) (entry : LinkedObjectEntry)
    (database : ExperimentDatabase) : ExperimentDatabase :=
  { database with addressSpaces := database.addressSpaces ++
      [⟨nextId (database.addressSpaces.map (·.id)), some thread,
        encodeAddress entry.timeLoaded, encodeAddress entry.timeUnloaded,
        encodeAddress entry.range.dmBegin, encodeAddress entry.range.dmEnd, some linkedObject⟩] }

section

variable (addresses : OrderedSet Address)

def processEntry (database : ExperimentDatabase) (entry : LinkedObjectEntry) : Option ExperimentDatabase := do
  let aib ← addresses.get? (addresses.lowerBound entry.range.dmBegin)
  if !entry.range.doesContain aib then return database
  match getThreadIdentifier database entry.tname with
  | none => return database
  | some thread =>
    let (linkedObject, database) := match getLinkedObjectIdentifier database entry.path with
      | some linkedObject => (linkedObject, database)
      | none => createLinkedObject entry database
    return createAddressSpace thread linkedObject entry database

def processAddressspace (database : ExperimentDatabase) (linkedobjectvec : List LinkedObjectEntry) :
    Option ExperimentDatabase :=
  Runs.run (processEntry addresses) database linkedobjectvec

end

def IsAt (database : ExperimentDatabase) (path : String) (object : Schema.LinkedObjectRow) : Prop :=
  ∃ file ∈ database.files, object.file = some file.id ∧ file.path = some path

def HasObject (database : ExperimentDatabase) (path : String) : Prop :=
  ∃ object ∈ database.linkedObjects, IsAt database path object

section

variable (addresses : OrderedSet Address) (before : ExperimentDatabase)

def Recorded (entry : LinkedObjectEntry) : Bool :=
  decide (Sampled addresses entry.range) && (getThreadIdentifier before entry.tname).isSome

def Among (entries : List LinkedObjectEntry) (path : String) : Prop :=
  ∃ entry ∈ entries, Recorded addresses before entry = true ∧ entry.path = path

structure SpaceOf (after : ExperimentDatabase) (entry : LinkedObjectEntry)
    (row : Schema.AddressSpaceRow) : Prop where
  thread : row.thread = getThreadIdentifier before entry.tname
  times : row.timeBegin = encodeAddress entry.timeLoaded ∧ row.timeEnd = encodeAddress entry.timeUnloaded
  range : row.addrBegin = encodeAddress entry.range.dmBegin ∧ row.addrEnd = encodeAddress entry.range.dmEnd
  object : ∃ object ∈ after.linkedObjects, row.linkedObject = some object.id ∧ IsAt after entry.path object

structure Objects (entries : List LinkedObjectEntry) (after : ExperimentDatabase) : Prop where
  threads : after.threads = before.threads
  created : ∃ paths rows, paths.Nodup ∧
    after.linkedObjects = before.linkedObjects ++ rows ∧ List.Forall₂ (IsAt after) paths rows ∧
    ∀ path, path ∈ paths ↔ Among addresses before entries path ∧ ¬ HasObject before path
  has : ∀ path, HasObject after path ↔ HasObject before path ∨ Among addresses before entries path

/-- One row of `AddressSpaces` for each entry to be recorded, in their order, and one row of
`LinkedObjects` for each of their paths that had none. -/
structure Records (entries : List LinkedObjectEntry) (after : ExperimentDatabase) : Prop extends
    Objects addresses before entries after where
  spaces : ∃ rows, after.addressSpaces = before.addressSpaces ++ rows ∧
    List.Forall₂ (SpaceOf before after) (entries.filter (Recorded addresses before)) rows

end

variable {addresses : OrderedSet Address} {before database after : ExperimentDatabase}
  {entry : LinkedObjectEntry} {entries : List LinkedObjectEntry} {path : String}

theorem get?_eq_none : addresses.get? (addresses.lowerBound entry.range.dmBegin) = none ↔
      ¬ ∃ sample ∈ addresses.keys, entry.range.dmBegin ≤ sample := by
  constructor
  · rintro atEnd ⟨sample, member, above⟩
    have below := OrderedSet.none_above atEnd sample member
    exact absurd above (of_decide_eq_true below).not_ge
  · intro nothing
    cases found : addresses.get? (addresses.lowerBound entry.range.dmBegin) with
    | none => rfl
    | some sample =>
      obtain ⟨member, above, -⟩ := OrderedSet.first_above addresses.sorted found
      exact absurd ⟨sample, member, not_lt.mp (of_decide_eq_false above)⟩ nothing

/-- The first sample that is not below the range decides. -/
theorem doesContain_first {sample : Address}
    (found : addresses.get? (addresses.lowerBound entry.range.dmBegin) = some sample) :
    entry.range.doesContain sample = decide (Sampled addresses entry.range) := by
  obtain ⟨member, above, first⟩ := OrderedSet.first_above addresses.sorted found
  rw [Bool.eq_iff_iff, Interval.doesContain_iff, decide_eq_true_eq]
  constructor
  · exact fun inside => ⟨sample, member, inside⟩
  · rintro ⟨other, isSample, atLeast, below⟩
    refine ⟨not_lt.mp (of_decide_eq_false above), lt_of_le_of_lt ?_ below⟩
    exact first other isSample (decide_eq_false (not_lt.mpr atLeast))

theorem namesFile_eq_true {object : Schema.LinkedObjectRow} {file : Schema.FileRow} :
    namesFile object path file = some true ↔ object.file = some file.id ∧ file.path = some path := by
  simp only [namesFile, Sql.both_eq_true, Sql.equal_eq_true]
  constructor
  · exact fun both => ⟨both.1.2, both.2.2⟩
  · exact fun both => ⟨⟨both.1 ▸ rfl, both.1⟩, both.2 ▸ rfl, both.2⟩

theorem getLinkedObjectIdentifier_some {linkedObject : Int}
    (found : getLinkedObjectIdentifier database path = some linkedObject) :
    ∃ object ∈ database.linkedObjects, linkedObject = object.id ∧ IsAt database path object := by
  have member := List.mem_of_getLast? found
  obtain ⟨object, inObjects, joined⟩ := List.mem_flatMap.mp member
  obtain ⟨file, selected, rfl⟩ := List.mem_map.mp joined
  obtain ⟨inFiles, names⟩ := Sql.mem_select.mp selected
  exact ⟨object, inObjects, rfl, file, inFiles, namesFile_eq_true.mp names⟩

theorem getLinkedObjectIdentifier_none :
    getLinkedObjectIdentifier database path = none ↔ ¬ HasObject database path := by
  constructor
  · rintro missing ⟨object, inObjects, file, inFiles, names⟩
    rw [getLinkedObjectIdentifier, List.getLast?_eq_none_iff, List.flatMap_eq_nil_iff] at missing
    have unselected := List.map_eq_nil_iff.mp (missing object inObjects)
    exact Sql.select_eq_nil.mp unselected file inFiles (namesFile_eq_true.mpr names)
  · intro absent
    cases found : getLinkedObjectIdentifier database path with
    | none => rfl
    | some linkedObject =>
      obtain ⟨object, inObjects, -, names⟩ := getLinkedObjectIdentifier_some found
      exact absurd ⟨object, inObjects, names⟩ absent

/-- The new file is told apart from the others by its identifier. -/
theorem hasObject_create :
    HasObject (createLinkedObject entry database).2 path ↔ HasObject database path ∨ path = entry.path := by
  constructor
  · rintro ⟨object, inObjects, file, inFiles, names, isPath⟩
    rcases List.mem_append.mp inFiles with known | new
    · rcases List.mem_append.mp inObjects with old | created
      · exact .inl ⟨object, old, file, known, names, isPath⟩
      · obtain rfl := List.mem_singleton.mp created
        have same : nextId database.fileIds = file.id := Option.some.inj names
        have below := lt_nextId (List.mem_map_of_mem (f := Schema.FileRow.id) known)
        exact absurd same below.ne'
    · obtain rfl := List.mem_singleton.mp new
      exact .inr (Option.some.inj isPath).symm
  · rintro (⟨object, inObjects, file, inFiles, names⟩ | rfl)
    · exact ⟨object, List.mem_append_left _ inObjects, file, List.mem_append_left _ inFiles, names⟩
    · exact ⟨_, List.mem_append_right _ (List.mem_singleton_self _), _,
        List.mem_append_right _ (List.mem_singleton_self _), rfl, rfl⟩

theorem among_snoc : Among addresses before (entries ++ [entry]) path ↔
    Among addresses before entries path ∨ Recorded addresses before entry = true ∧ entry.path = path := by
  simp [Among, or_and_right, exists_or]

theorem IsAt.mono {object : Schema.LinkedObjectRow} (isAt : IsAt database path object)
    (files : database.files ⊆ after.files) : IsAt after path object := by
  obtain ⟨file, member, names⟩ := isAt
  exact ⟨file, files member, names⟩

theorem Objects.skip (objects : Objects addresses before entries database)
    (unrecorded : Recorded addresses before entry = false) :
    Objects addresses before (entries ++ [entry]) database := by
  have same : ∀ path, Among addresses before (entries ++ [entry]) path ↔
      Among addresses before entries path := by simp [among_snoc, unrecorded]
  refine ⟨objects.threads, ?_, by simpa only [same] using objects.has⟩
  simpa only [same] using objects.created

theorem Objects.known (objects : Objects addresses before entries database)
    (known : HasObject database entry.path) : Objects addresses before (entries ++ [entry]) database := by
  have same : ∀ path, HasObject before path ∨ Among addresses before (entries ++ [entry]) path ↔
      HasObject before path ∨ Among addresses before entries path := by
    intro path
    rw [among_snoc, ← or_assoc, or_iff_left_iff_imp]
    rintro ⟨-, rfl⟩
    exact (objects.has _).mp known
  refine ⟨objects.threads, ?_, fun path => (objects.has path).trans (same path).symm⟩
  obtain ⟨paths, rows, nodup, added, names, each⟩ := objects.created
  refine ⟨paths, rows, nodup, added, names, fun path => (each path).trans ?_⟩
  have := same path
  tauto

theorem Objects.create (objects : Objects addresses before entries database)
    (recorded : Recorded addresses before entry = true) (absent : ¬ HasObject database entry.path) :
    Objects addresses before (entries ++ [entry]) (createLinkedObject entry database).2 := by
  have files : database.files ⊆ (createLinkedObject entry database).2.files :=
    List.subset_append_left _ _
  obtain ⟨paths, rows, nodup, added, names, each⟩ := objects.created
  have new : entry.path ∉ paths := fun old =>
    absent ((objects.has _).mpr (.inr ((each _).mp old).1))
  obtain ⟨row, appended, isAt⟩ : ∃ row, (createLinkedObject entry database).2.linkedObjects =
      database.linkedObjects ++ [row] ∧ IsAt (createLinkedObject entry database).2 entry.path row :=
    ⟨_, rfl, _, List.mem_append_right _ (List.mem_singleton_self _), rfl, rfl⟩
  refine ⟨objects.threads, ⟨paths ++ [entry.path], rows ++ [row], ?_, ?_, ?_, fun path => ?_⟩, fun path => ?_⟩
  · refine List.nodup_append.mpr ⟨nodup, List.nodup_singleton _, ?_⟩
    rintro path old _ last rfl
    exact new (List.mem_singleton.mp last ▸ old)
  · rw [← List.append_assoc, ← added, appended]
  · exact List.rel_append (names.imp fun _ _ isAt => isAt.mono files) (.cons isAt .nil)
  · rw [List.mem_append, each, among_snoc, List.mem_singleton]
    have unmet : entry.path = path → ¬ HasObject before path := by
      rintro rfl met
      exact absent ((objects.has _).mpr (.inl met))
    have := @eq_comm _ path entry.path
    tauto
  · rw [hasObject_create, objects.has, among_snoc]
    have := @eq_comm _ path entry.path
    tauto

theorem SpaceOf.mono {row : Schema.AddressSpaceRow} (space : SpaceOf before database entry row)
    (files : database.files ⊆ after.files)
    (linkedObjects : database.linkedObjects ⊆ after.linkedObjects) : SpaceOf before after entry row := by
  obtain ⟨object, member, same, isAt⟩ := space.object
  exact ⟨space.thread, space.times, space.range, object, linkedObjects member, same, isAt.mono files⟩

theorem Records.skip (records : Records addresses before entries database)
    (unrecorded : Recorded addresses before entry = false) :
    Records addresses before (entries ++ [entry]) database := by
  refine ⟨records.toObjects.skip unrecorded, ?_⟩
  rw [List.filter_append, List.filter_singleton, unrecorded, cond_false, List.append_nil]
  exact records.spaces

/-- The address space is added when the linked object is there. -/
theorem Records.add {placed : ExperimentDatabase} {object : Schema.LinkedObjectRow} {thread : Int}
    (records : Records addresses before entries database)
    (objects : Objects addresses before (entries ++ [entry]) placed)
    (recorded : Recorded addresses before entry = true)
    (same : placed.addressSpaces = database.addressSpaces) (files : database.files ⊆ placed.files)
    (linkedObjects : database.linkedObjects ⊆ placed.linkedObjects)
    (known : getThreadIdentifier before entry.tname = some thread)
    (member : object ∈ placed.linkedObjects) (isAt : IsAt placed entry.path object) :
    Records addresses before (entries ++ [entry]) (createAddressSpace thread object.id entry placed) := by
  obtain ⟨rows, added, each⟩ := records.spaces
  obtain ⟨row, appended, space⟩ : ∃ row,
      (createAddressSpace thread object.id entry placed).addressSpaces = placed.addressSpaces ++ [row] ∧
      SpaceOf before (createAddressSpace thread object.id entry placed) entry row :=
    ⟨_, rfl, known.symm, ⟨rfl, rfl⟩, ⟨rfl, rfl⟩, object, member, rfl, isAt⟩
  refine ⟨⟨objects.threads, objects.created, objects.has⟩, rows ++ [row], ?_, ?_⟩
  · rw [← List.append_assoc, ← added, ← same, appended]
  · rw [List.filter_append, List.filter_singleton, recorded, cond_true]
    exact List.rel_append (each.imp fun _ _ space => space.mono files linkedObjects) (.cons space .nil)

theorem Records.step (records : Records addresses before entries database)
    (above : ∃ sample ∈ addresses.keys, entry.range.dmBegin ≤ sample) :
    ∃ next, processEntry addresses database entry = some next ∧
      Records addresses before (entries ++ [entry]) next := by
  cases found : addresses.get? (addresses.lowerBound entry.range.dmBegin) with
  | none => exact absurd above (get?_eq_none.mp found)
  | some aib =>
    have threads : getThreadIdentifier database entry.tname = getThreadIdentifier before entry.tname := by
      rw [getThreadIdentifier, records.threads, getThreadIdentifier]
    unfold processEntry
    rw [found, Option.bind_eq_bind, Option.bind_some, doesContain_first found, threads]
    by_cases sampled : Sampled addresses entry.range
    swap
    · have unrecorded : Recorded addresses before entry = false := by simp [Recorded, sampled]
      exact ⟨database, by simp [sampled], records.skip unrecorded⟩
    cases known : getThreadIdentifier before entry.tname with
    | none =>
      have unrecorded : Recorded addresses before entry = false := by simp [Recorded, known]
      exact ⟨database, by simp [sampled], records.skip unrecorded⟩
    | some thread =>
      have recorded : Recorded addresses before entry = true := by
        simp [Recorded, known, sampled]
      simp only [sampled, decide_true, Bool.not_true, Bool.false_eq_true, if_false]
      cases object : getLinkedObjectIdentifier database entry.path with
      | some linkedObject =>
        obtain ⟨row, member, rfl, isAt⟩ := getLinkedObjectIdentifier_some object
        exact ⟨_, rfl, records.add (records.toObjects.known ⟨row, member, isAt⟩)
          recorded rfl (List.Subset.refl _) (List.Subset.refl _) known member isAt⟩
      | none =>
        have absent := getLinkedObjectIdentifier_none.mp object
        exact ⟨_, rfl, records.add (records.toObjects.create recorded absent) recorded rfl
          (List.subset_append_left _ _) (List.subset_append_left _ _) known
          (List.mem_append_right _ (List.mem_singleton_self _))
          ⟨_, List.mem_append_right _ (List.mem_singleton_self _), rfl, rfl⟩⟩

theorem linkedObjects_recorded_iff (addresses : OrderedSet Address)
    (database : ExperimentDatabase) (linkedobjectvec : List LinkedObjectEntry) :
    (∃ after, processAddressspace addresses database linkedobjectvec = some after ∧
      Records addresses database linkedobjectvec after) ↔
    ∀ entry ∈ linkedobjectvec, ∃ sample ∈ addresses.keys, entry.range.dmBegin ≤ sample := by
  constructor
  · rintro ⟨after, ran, -⟩
    have step : ∀ database entry, processEntry addresses database entry ≠ none →
        ∃ sample ∈ addresses.keys, entry.range.dmBegin ≤ sample := by
      intro database entry
      contrapose!
      intro nothing
      rw [processEntry, get?_eq_none.mpr (by simpa using nothing)]
      rfl
    induction linkedobjectvec generalizing database with
    | nil => simp
    | cons entry rest ih =>
      obtain ⟨next, stepped, ranRest⟩ := Option.bind_eq_some_iff.mp ran
      exact List.forall_mem_cons.mpr ⟨step database entry (by simp [stepped]), ih next ranRest⟩
  · intro above
    refine Runs.run_total (Records addresses database) ?_ fun seen entry rest state split records =>
      records.step (above entry (by simp [split]))
    refine ⟨⟨rfl, ⟨[], [], List.nodup_nil, ?_, .nil, ?_⟩, ?_⟩, [], ?_, .nil⟩ <;> simp [Among]

theorem linkedObjects_unrecorded :
    ¬ ∃ after, processAddressspace ⟨[], List.Pairwise.nil⟩
      ⟨[], [], [], [], [], [], [], [], [], [], [], [], [], []⟩
      [⟨⟨"host", 1, (false, 0), -1, -1⟩, "/bin/app", ⟨0x1000, 0x2000⟩, 0, 1, true, by decide⟩] =
        some after := by
  rintro ⟨after, ran⟩
  cases ran

end OpenSpeedShop.Cbtf
