import OpenSpeedShop.Framework.ThreadLookup

/-!
The query for the extents of many symbols in many threads against the query for
one symbol in one thread.
-/

namespace OpenSpeedShop

open Fallible

namespace ExtentTable

variable {Group Object : Type}

def extentsOf [DecidableEq Object] (table : ExtentTable Group Object) (group : Group)
    (object : Object) : List Extent :=
  ((((table.dmExtentToObject group).getD []).zip (table.getExtents group).extents).filter
    fun entry => entry.1 = object).map Prod.snd

theorem Caches.extentsOf [DecidableEq Object] {table : ExtentTable Group Object} {group : Group}
    {pairs : List (Object × Extent)} (caches : table.Caches group pairs) (object : Object) :
    table.extentsOf group object = (pairs.filter fun entry => entry.1 = object).map Prod.snd := by
  have whole : (pairs.map Prod.fst).zip (pairs.map Prod.snd) = pairs := by
    simpa only [List.unzip_eq_map] using List.zip_unzip pairs
  rw [ExtentTable.extentsOf, caches.objects, caches.extents, whole]

theorem caches_foldl [DecidableEq Group] (group : Group) :
    ∀ (entries : List (Group × Object × Extent)) {table : ExtentTable Group Object}
      {pairs : List (Object × Extent)}, table.Caches group pairs →
    (entries.foldl (fun table entry => table.addExtent entry.1 entry.2.1 entry.2.2) table).Caches
      group (pairs ++ (entries.filter fun entry => entry.1 = group).map Prod.snd) := by
  intro entries
  induction entries with
  | nil =>
    intro table pairs caches
    simpa using caches
  | cons entry rest ih =>
    intro table pairs caches
    rw [List.foldl_cons]
    by_cases same : entry.1 = group
    · subst same
      simpa using ih (caches.addExtent entry.2.1 entry.2.2)
    · have apart : group ≠ entry.1 := fun equal => same equal.symm
      have kept := caches.of_sameGroup (sameGroup_addExtent table apart entry.2.1 entry.2.2)
      simpa [same] using ih kept

theorem extentsOf_foldl [DecidableEq Group] [DecidableEq Object]
    (entries : List (Group × Object × Extent)) (group : Group) (object : Object) :
    (entries.foldl (fun table entry => table.addExtent entry.1 entry.2.1 entry.2.2)
      (empty : ExtentTable Group Object)).extentsOf group object =
      (entries.filter fun entry => entry.1 = group && entry.2.1 = object).map fun entry => entry.2.2 := by
  rw [(caches_foldl group entries (caches_empty group)).extentsOf, List.nil_append,
    List.filter_map, List.map_map, List.filter_filter]
  simp only [Function.comp_def, Bool.and_comm]

end ExtentTable

theorem filter_flatMap_of_nodup {Item Value : Type} {items : List Item} (distinct : items.Nodup)
    {item : Item} (member : item ∈ items) {body : Item → List Value} {keep : Value → Bool}
    (outside : ∀ other ∈ items, other ≠ item → (body other).filter keep = []) :
    (items.flatMap body).filter keep = (body item).filter keep := by
  induction items with
  | nil => cases member
  | cons first rest ih =>
    obtain ⟨fresh, distinctRest⟩ := List.nodup_cons.mp distinct
    rw [List.flatMap_cons, List.filter_append]
    rcases List.mem_cons.mp member with rfl | later
    · have none : (rest.flatMap body).filter keep = [] := by
        rw [List.filter_eq_nil_iff]
        intro value present
        obtain ⟨other, inRest, value_mem⟩ := List.mem_flatMap.mp present
        have different : other ≠ item := fun same => fresh (same ▸ inRest)
        exact List.filter_eq_nil_iff.mp (outside other (by simp [inRest]) different) value value_mem
      rw [none, List.append_nil]
    · have different : first ≠ item := fun same => fresh (same ▸ later)
      rw [outside first (by simp) different, List.nil_append]
      exact ih distinctRest later fun other inRest => outside other (by simp [inRest])

namespace ThreadGroup

def useExtent (row : AddressSpaceRow) : Extent where
  dmInterval := ⟨OffsetBinary.decode row.timeBegin, OffsetBinary.decode row.timeEnd⟩
  dmRange := ⟨OffsetBinary.decode row.addrBegin, OffsetBinary.decode row.addrEnd⟩

def Ordered (group : List Entry) (database : DatabasePtr) (rows : List AddressSpaceRow) : Prop :=
  ∀ row ∈ rows, ⟨database, row.thread.toInt⟩ ∈ group →
    (useExtent row).dmInterval.dmBegin < (useExtent row).dmInterval.dmEnd ∧
      (useExtent row).dmRange.dmBegin < (useExtent row).dmRange.dmEnd

def usesBy (group : List Entry) (database : DatabasePtr) (rows : List AddressSpaceRow) :
    List ((Int × Int32) × Extent) :=
  rows.flatMap fun row => if ⟨database, row.thread.toInt⟩ ∈ group then
    [((row.thread.toInt, row.linkedObject), useExtent row)] else []

variable {database : DatabasePtr}

variable {found : List ((Int × Int32) × Extent)}

theorem occurrence_eq_ok {group : List Entry} {row : AddressSpaceRow}
    : occurrence group database row = .ok found ↔ (⟨database, row.thread.toInt⟩ ∈ group →
        (useExtent row).dmInterval.dmBegin < (useExtent row).dmInterval.dmEnd ∧
          (useExtent row).dmRange.dmBegin < (useExtent row).dmRange.dmEnd) ∧
      found = if ⟨database, row.thread.toInt⟩ ∈ group then
        [((row.thread.toInt, row.linkedObject), useExtent row)] else [] := by
  unfold occurrence
  by_cases member : ⟨database, row.thread.toInt⟩ ∈ group
  · simp only [member, if_true, bind_eq_ok, AddressSpaceRow.interval, Interval.make_eq_ok, true_implies]
    constructor
    · rintro ⟨interval, ⟨times, rfl⟩, range, ⟨addresses, rfl⟩, returned⟩
      cases returned
      exact ⟨⟨times, addresses⟩, rfl⟩
    · rintro ⟨⟨times, addresses⟩, rfl⟩
      exact ⟨_, ⟨times, rfl⟩, _, ⟨addresses, rfl⟩, rfl⟩
  · simp only [member, if_false, false_implies, true_and]
    exact ⟨fun returned => (Except.ok.inj returned).symm, fun same => by rw [same]; rfl⟩

variable {rows : List AddressSpaceRow}

theorem occurrences_eq_ok {group : List Entry} : collect (occurrence group database) rows = .ok found ↔
      Ordered group database rows ∧ found = usesBy group database rows := by
  rw [collect_eq_ok, usesBy]
  constructor
  · rintro ⟨ran, rfl⟩
    refine ⟨fun row member inGroup => ?_, ?_⟩
    · obtain ⟨more, ok⟩ := ran row member
      exact (occurrence_eq_ok.mp ok).1 inGroup
    · apply List.flatMap_congr
      intro row member
      obtain ⟨more, ok⟩ := ran row member
      rw [given_of_ok ok]
      exact (occurrence_eq_ok.mp ok).2
  · rintro ⟨ordered, rfl⟩
    refine ⟨fun row member => ⟨_, occurrence_eq_ok.mpr ⟨ordered row member, rfl⟩⟩, ?_⟩
    apply List.flatMap_congr
    intro row member
    rw [given_of_ok (occurrence_eq_ok.mpr ⟨ordered row member, rfl⟩)]

theorem occurrencesOf_eq {group : List Entry}
    {thread : Int} (inGroup : ⟨database, thread⟩ ∈ group) (linkedObject : Int32) :
    occurrencesOf (usesBy group database rows) (thread, linkedObject) = (rows.filter fun row =>
        row.thread.toInt = thread && row.linkedObject = linkedObject).map useExtent := by
  unfold occurrencesOf usesBy
  induction rows with
  | nil => rfl
  | cons row rest ih =>
    rw [List.flatMap_cons, List.filter_append, List.map_append, ih, List.filter_cons]
    by_cases same : row.thread.toInt = thread
    · subst same
      by_cases object : row.linkedObject = linkedObject <;> simp [inGroup, object]
    · have apart : ¬(row.thread.toInt = thread ∧ row.linkedObject = linkedObject) :=
        fun both => same both.1
      split <;> simp [same]

def clipped (domain : Extent) (extents : List Extent) : List Extent :=
  (extents.map fun extent => extent.inter domain).filter fun extent => !extent.isEmpty

def labelled (domain : Extent) (thread object : Entry) (extents : List Extent) :
    List (Entry × Entry × Extent) :=
  (clipped domain extents).map fun extent => (thread, object, extent)

theorem labelled_append (domain : Extent) (thread object : Entry) (first second : List Extent) :
    labelled domain thread object (first ++ second) =
      labelled domain thread object first ++ labelled domain thread object second := by
  simp [labelled, clipped]

theorem labelled_flatMap {Item : Type} (domain : Extent) (thread object : Entry)
    (items : List Item) (body : Item → List Extent) : labelled domain thread object (items.flatMap body) =
      items.flatMap fun item => labelled domain thread object (body item) := by
  induction items with
  | nil => rfl
  | cons item rest ih => rw [List.flatMap_cons, labelled_append, ih, List.flatMap_cons]

theorem constrainedRange_eq {use : AddressSpaceRow} (domain : Extent) (thread object : Entry)
    (ordered : (useExtent use).dmInterval.dmBegin < (useExtent use).dmInterval.dmEnd)
    (range : AddressRange) : (constrainedRange domain thread object (useExtent use) range).toOption =
      (usedRange use range).toOption.map (labelled domain thread object) := by
  have interval : use.interval = .ok (useExtent use).dmInterval :=
    Interval.make_eq_ok.mpr ⟨ordered, rfl⟩
  rw [constrainedRange, usedRange, interval, ok_bind]
  have same : (useExtent use).dmRange.dmBegin = OffsetBinary.decode use.addrBegin := rfl
  rw [same]
  cases extentOfUse (useExtent use).dmInterval (OffsetBinary.decode use.addrBegin) range with
  | error failure => rfl
  | ok extent =>
    have left : labelled domain thread object [extent] =
        if (extent.inter domain).isEmpty then [] else [(thread, object, extent.inter domain)] := by
      cases empty : (extent.inter domain).isEmpty <;> simp [labelled, clipped, empty]
    exact congrArg some left.symm

theorem constrainedIn_eq {group : List Entry} {thread : Entry}
    (ordered : Ordered group thread.dmDatabase rows) (member : thread ∈ group) {domain : Extent}
    {object : Entry} {linkedObject : Int32} {ranges : List AddressRange} :
    (constrainedIn (usesBy group thread.dmDatabase rows) domain object linkedObject ranges thread).toOption =
    (collect (fun use => collect (usedRange use) ranges) (rows.filter fun row =>
      row.thread.toInt = thread.dmEntry && row.linkedObject = linkedObject)).toOption.map
        (labelled domain thread object) := by
  rw [constrainedIn, occurrencesOf_eq member]
  apply collect_image rfl (labelled_append domain thread object)
  intro use selected
  obtain ⟨present, same⟩ := List.mem_filter.mp selected
  have threadEq : use.thread.toInt = thread.dmEntry := by
    simp only [Bool.and_eq_true, decide_eq_true_eq] at same
    exact same.1
  have times := (ordered use present (threadEq ▸ member)).1
  have whole := @collect_image Failure Extent AddressRange AddressRange (Entry × Entry × Extent)
    (labelled domain thread object) rfl (labelled_append domain thread object) (usedRange use)
    (constrainedRange domain thread object (useExtent use)) id ranges
    fun range _ => constrainedRange_eq domain thread object times range
  rwa [List.map_id] at whole

variable {entry : Entry × Entry × Extent}

theorem mem_labelled {domain : Extent} {thread object : Entry} {extents : List Extent}
    (member : entry ∈ labelled domain thread object extents) : entry.1 = thread ∧ entry.2.1 = object := by
  obtain ⟨extent, _, rfl⟩ := List.mem_map.mp member
  exact ⟨rfl, rfl⟩

structure Prepared (group : EntrySet) (database : DatabasePtr) (tables : SymbolTables) : Prop where
  owner : ∀ thread ∈ group.entries, thread.dmDatabase = database
  ordered : Ordered group.entries database tables.addressSpaces

section

variable {group : EntrySet} {database : DatabasePtr} {tables : SymbolTables} {domain : Extent}
  {object : Entry} {row : Int32 × RangeRow}

theorem constrainedRow_eq_ok (prepared : Prepared group database tables)
    {entries : List (Entry × Entry × Extent)}
    (ran : constrainedRow (usesBy group.entries database tables.addressSpaces) group.entries domain
      object row = .ok entries) {thread : Entry} (member : thread ∈ group.entries) :
    ∃ extents, rowExtents tables thread.dmEntry row = .ok extents ∧
      entries.filter (fun entry => entry.1 = thread) = labelled domain thread object extents := by
  obtain rfl := prepared.owner thread member
  simp only [constrainedRow, bind_eq_ok, collect_eq_ok] at ran
  obtain ⟨ranges, decoded, each, rfl⟩ := ran
  have image := @constrainedIn_eq tables.addressSpaces group.entries thread prepared.ordered member
    domain object row.1 ranges
  obtain ⟨more, found⟩ := each thread member
  obtain ⟨extents, single, rfl⟩ := (ok_of_image image).2 more found
  refine ⟨extents, ?_, ?_⟩
  · simp only [rowExtents, decoded, ok_bind]
    exact single
  · have all : ∀ {other : Entry} {values : List (Entry × Entry × Extent)}, other ∈ group.entries →
        constrainedIn (usesBy group.entries thread.dmDatabase tables.addressSpaces) domain object
          row.1 ranges other = .ok values → ∀ entry ∈ values, entry.1 = other := by
      intro other values inGroup foundOther entry present
      have imageOther := @constrainedIn_eq tables.addressSpaces group.entries other
        (prepared.owner other inGroup ▸ prepared.ordered) inGroup domain object row.1 ranges
      rw [prepared.owner other inGroup] at imageOther
      obtain ⟨source, _, rfl⟩ := (ok_of_image imageOther).2 values foundOther
      exact (mem_labelled present).1
    rw [filter_flatMap_of_nodup group.nodup member, given_of_ok found]
    · apply List.filter_eq_self.mpr
      intro entry present
      simpa using (mem_labelled present).1
    · intro other inGroup different
      obtain ⟨values, foundOther⟩ := each other inGroup
      rw [given_of_ok foundOther]
      apply List.filter_eq_nil_iff.mpr
      intro entry present
      simpa [all inGroup foundOther entry present] using different

theorem constrainedRow_total (prepared : Prepared group database tables)
    {thread : Entry} (some_ : thread ∈ group.entries)
    (each : ∀ thread ∈ group.entries, ∃ extents, rowExtents tables thread.dmEntry row = .ok extents) :
    ∃ entries, constrainedRow (usesBy group.entries database tables.addressSpaces) group.entries
      domain object row = .ok entries := by
  obtain ⟨_, ran⟩ := each thread some_
  simp only [rowExtents, bind_eq_ok] at ran
  obtain ⟨ranges, decoded, _⟩ := ran
  simp only [constrainedRow, decoded, ok_bind]
  refine ⟨_, collect_total fun other member => ?_⟩
  obtain rfl := prepared.owner other member
  have image := @constrainedIn_eq tables.addressSpaces group.entries other prepared.ordered member
    domain object row.1 ranges
  obtain ⟨extents, single⟩ := each other member
  simp only [rowExtents, decoded, ok_bind] at single
  exact ⟨_, (ok_of_image image).1 extents single⟩

end

variable {entries : List (Entry × Entry × Extent)}

section

variable {Columns : Type} {objects : ObjectTables Columns} {group : EntrySet}
  {tables : SymbolTables} {domain : Extent} {object : Entry}
  (prepared : Prepared group database tables)
  (ran : constrained objects (usesBy group.entries database tables.addressSpaces) group.entries domain object = .ok entries)
include prepared ran

theorem filter_constrained {thread : Entry} (member : thread ∈ group.entries) :
    ∃ extents, collect (rowExtents tables thread.dmEntry) (rangesOf objects object.dmEntry) = .ok extents ∧
      entries.filter (fun entry => entry.1 = thread) = labelled domain thread object extents := by
  obtain ⟨each, rfl⟩ := collect_eq_ok.mp ran
  have rows : ∀ row ∈ rangesOf objects object.dmEntry, ∃ extents,
      rowExtents tables thread.dmEntry row = .ok extents ∧
      (given (constrainedRow (usesBy group.entries database tables.addressSpaces) group.entries
        domain object row)).filter (fun entry => entry.1 = thread) =
          labelled domain thread object extents := by
    intro row present
    obtain ⟨more, found⟩ := each row present
    rw [given_of_ok found]
    exact constrainedRow_eq_ok prepared found member
  refine ⟨_, collect_total fun row present => (rows row present).imp fun _ both => both.1, ?_⟩
  rw [List.filter_flatMap, labelled_flatMap]
  apply List.flatMap_congr
  intro row present
  obtain ⟨extents, single, filtered⟩ := rows row present
  rw [filtered, given_of_ok single]

theorem mem_constrained (present : entry ∈ entries) : entry.1 ∈ group.entries ∧ entry.2.1 = object := by
  obtain ⟨each, rfl⟩ := collect_eq_ok.mp ran
  obtain ⟨row, inRows, fromRow⟩ := List.mem_flatMap.mp present
  obtain ⟨more, found⟩ := each row inRows
  rw [given_of_ok found] at fromRow
  simp only [constrainedRow, bind_eq_ok, collect_eq_ok] at found
  obtain ⟨ranges, _, eachThread, rfl⟩ := found
  obtain ⟨thread, inGroup, fromThread⟩ := List.mem_flatMap.mp fromRow
  obtain rfl := prepared.owner thread inGroup
  obtain ⟨values, foundThread⟩ := eachThread thread inGroup
  rw [given_of_ok foundThread] at fromThread
  have image := @constrainedIn_eq tables.addressSpaces group.entries thread prepared.ordered inGroup
    domain object row.1 ranges
  obtain ⟨source, _, rfl⟩ := (ok_of_image image).2 values foundThread
  obtain ⟨sameThread, sameObject⟩ := mem_labelled fromThread
  exact ⟨sameThread ▸ inGroup, sameObject⟩

end

/-- What the bulk query needs: one database, rows of the threads that are in
order, and an answer for each symbol in each thread. -/
def Answerable (single : (DatabasePtr → SymbolTables) → Entry → Entry → Result ExtentGroup)
    (databases : DatabasePtr → SymbolTables) (group objects : EntrySet) : Prop :=
  group.entries = [] ∨ ∃ database, Prepared group database (databases database) ∧
    (∀ object ∈ objects.entries, object.dmDatabase = database) ∧
    ∀ thread ∈ group.entries, ∀ object ∈ objects.entries, ∃ extents,
      single databases object thread = .ok extents

/-- The bulk query holds for each thread and symbol what is left in the domain of
the extents of that symbol in that thread, and nothing else. -/
def Agree
    (bulk : (DatabasePtr → SymbolTables) → EntrySet → EntrySet → Extent → Result (ExtentTable Entry Entry))
    (single : (DatabasePtr → SymbolTables) → Entry → Entry → Result ExtentGroup) : Prop :=
  ∀ databases group objects domain,
    ((∃ table, bulk databases group objects domain = .ok table) ↔ Answerable single databases group objects) ∧
    ∀ table, bulk databases group objects domain = .ok table →
      (∀ thread ∈ group.entries, ∀ object ∈ objects.entries, ∃ extents,
        single databases object thread = .ok extents ∧
        table.extentsOf thread object = clipped domain extents.extents) ∧
      ∀ thread object, ¬(thread ∈ group.entries ∧ object ∈ objects.entries) →
        table.extentsOf thread object = []

section

variable {Columns : Type} {select : SymbolTables → ObjectTables Columns}
  {databases : DatabasePtr → SymbolTables} {group objects : EntrySet} {domain : Extent}

theorem extentsOf_ran {first : Entry} {others : List Entry} (nonempty : group.entries = first :: others)
    {table : ExtentTable Entry Entry} (ran : extentsOf select databases group objects domain = .ok table) :
    Prepared group first.dmDatabase (databases first.dmDatabase) ∧
    (∀ object ∈ objects.entries, object.dmDatabase = first.dmDatabase) ∧
    ∃ entries, collect (constrained (select (databases first.dmDatabase))
        (usesBy group.entries first.dmDatabase (databases first.dmDatabase).addressSpaces)
        group.entries domain) objects.entries = .ok entries ∧
      table = entries.foldl (fun table entry => table.addExtent entry.1 entry.2.1 entry.2.2)
        ExtentTable.empty := by
  unfold extentsOf at ran
  split at ran
  · rename_i empty
    rw [empty] at nonempty
    cases nonempty
  · rename_i head tail split
    obtain ⟨rfl, rfl⟩ := List.cons.inj (split.symm.trans nonempty)
    simp only [bind_eq_ok, check_eq_ok, List.all_eq_true, decide_eq_true_eq] at ran
    obtain ⟨_, owner, _, ownerObjects, linkedObjects, found, entries, collected, returned⟩ := ran
    obtain ⟨ordered, rfl⟩ := occurrences_eq_ok.mp found
    exact ⟨⟨owner, ordered⟩, ownerObjects, entries, collected, (Except.ok.inj returned).symm⟩

theorem extentsOf_total {database : DatabasePtr} (prepared : Prepared group database (databases database))
    (owner : ∀ object ∈ objects.entries, object.dmDatabase = database)
    (each : ∀ thread ∈ group.entries, ∀ object ∈ objects.entries, ∃ extents,
      extentIn select databases object thread = .ok extents) :
    ∃ table, extentsOf select databases group objects domain = .ok table := by
  unfold extentsOf
  split
  · exact ⟨_, rfl⟩
  · rename_i head tail split
    have member : head ∈ group.entries := by simp [split]
    obtain rfl := prepared.owner head member
    have threads : (group.entries.all fun thread =>
        decide (thread.dmDatabase = head.dmDatabase)) = true := by
      rw [List.all_eq_true]
      exact fun thread inGroup => decide_eq_true (prepared.owner thread inGroup)
    have symbols : (objects.entries.all fun object =>
        decide (object.dmDatabase = head.dmDatabase)) = true := by
      rw [List.all_eq_true]
      exact fun object inObjects => decide_eq_true (owner object inObjects)
    have found := occurrences_eq_ok.mpr ⟨prepared.ordered, rfl⟩
    have collected : ∀ object ∈ objects.entries, ∃ entries,
        constrained (select (databases head.dmDatabase))
          (usesBy group.entries head.dmDatabase (databases head.dmDatabase).addressSpaces)
          group.entries domain object = .ok entries := by
      intro object inObjects
      refine ⟨_, collect_total fun row present => constrainedRow_total prepared member ?_⟩
      intro thread inGroup
      obtain ⟨extents, single⟩ := each thread inGroup object inObjects
      obtain ⟨_, values, rows, _⟩ := extentIn_ran single
      rw [owner object inObjects] at rows
      exact (collect_eq_ok.mp rows).1 row present
    simp only [threads, symbols, check_true, ok_bind, found]
    exact ⟨_, by rw [collect_total collected]; rfl⟩

theorem extentsOf_agrees (select : SymbolTables → ObjectTables Columns) :
    Agree (extentsOf select) (extentIn select) := by
  intro databases group objects domain
  have exact : ∀ table, extentsOf select databases group objects domain = .ok table →
      (∀ thread ∈ group.entries, ∀ object ∈ objects.entries, ∃ extents,
        extentIn select databases object thread = .ok extents ∧
        table.extentsOf thread object = clipped domain extents.extents) ∧
      ∀ thread object, ¬(thread ∈ group.entries ∧ object ∈ objects.entries) →
        table.extentsOf thread object = [] := by
    intro table ran
    cases nonempty : group.entries with
    | nil =>
      unfold extentsOf at ran
      split at ran
      · cases ran
        exact ⟨by simp, fun _ _ _ => rfl⟩
      · rename_i split
        rw [nonempty] at split
        cases split
    | cons first others =>
      obtain ⟨prepared, owner, entries, collected, rfl⟩ := extentsOf_ran nonempty ran
      rw [← nonempty]
      obtain ⟨each, rfl⟩ := collect_eq_ok.mp collected
      refine ⟨fun thread inGroup object inObjects => ?_, fun thread object outside => ?_⟩
      · have sameDatabase : object.dmDatabase = thread.dmDatabase :=
          (owner object inObjects).trans (prepared.owner thread inGroup).symm
        obtain ⟨values, found⟩ := each object inObjects
        obtain ⟨extents, single, filtered⟩ := filter_constrained prepared found inGroup
        rw [← owner object inObjects] at single
        obtain ⟨whole, answered, rfl⟩ := extentIn_eq_ok sameDatabase single
        refine ⟨whole, answered, ?_⟩
        rw [ExtentTable.extentsOf_foldl, filter_flatMap_of_nodup objects.nodup inObjects]
        · have own : ∀ entry ∈ values, (decide (entry.1 = thread) && decide (entry.2.1 = object)) =
              decide (entry.1 = thread) := by
            intro entry present
            simp [(mem_constrained prepared found present).2]
          rw [given_of_ok found, List.filter_congr own, filtered, labelled, List.map_map]
          simp only [Function.comp_def, List.map_id']
        · intro other inOther different
          obtain ⟨more, foundOther⟩ := each other inOther
          rw [given_of_ok foundOther, List.filter_eq_nil_iff]
          intro entry present
          simp [(mem_constrained prepared foundOther present).2, different]
      · rw [ExtentTable.extentsOf_foldl, List.map_eq_nil_iff, List.filter_eq_nil_iff]
        intro entry present
        obtain ⟨other, inOther, fromOther⟩ := List.mem_flatMap.mp present
        obtain ⟨more, foundOther⟩ := each other inOther
        rw [given_of_ok foundOther] at fromOther
        obtain ⟨inGroup, sameObject⟩ := mem_constrained prepared foundOther fromOther
        simp only [Bool.and_eq_true, decide_eq_true_eq, not_and]
        rintro rfl rfl
        exact outside ⟨inGroup, sameObject ▸ inOther⟩
  refine ⟨⟨?_, ?_⟩, exact⟩
  · rintro ⟨table, ran⟩
    cases nonempty : group.entries with
    | nil => exact Or.inl nonempty
    | cons first others =>
      obtain ⟨prepared, owner, _⟩ := extentsOf_ran nonempty ran
      right
      exact ⟨first.dmDatabase, prepared, owner, fun thread inGroup object inObjects =>
        ((exact table ran).1 thread inGroup object inObjects).imp fun _ both => both.1⟩
  · rintro (empty | ⟨database, prepared, owner, each⟩)
    · refine ⟨ExtentTable.empty, ?_⟩
      unfold extentsOf
      split
      · rfl
      · rename_i split
        rw [empty] at split
        cases split
    · exact extentsOf_total prepared owner each

end

/-- The bulk queries for functions, loops and statements give the extents that the
queries for one symbol in one thread give, as far as they lie in the domain. -/
theorem getExtentsOf_agrees : Agree getExtentsOfFunctions Function.getExtentIn ∧
    Agree getExtentsOfLoops Loop.getExtentIn ∧ Agree getExtentsOfStatements Statement.getExtentIn :=
  ⟨extentsOf_agrees SymbolTables.functions, extentsOf_agrees SymbolTables.loops,
    extentsOf_agrees SymbolTables.statements⟩

end ThreadGroup

end OpenSpeedShop
