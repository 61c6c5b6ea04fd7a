import OpenSpeedShop.Framework.StorePerformanceData

/-!
Coherence of the performance data cache: while no rollback undoes a store that
reached the cache, a query answers with the rows of the database that intersect
the extent asked for.
-/

namespace OpenSpeedShop.DataCache

open Procedure Access Database ExtentTable
open DataQueues (dataRow)

def tables (store : Store) (database : DatabasePtr) : Tables :=
  (store.handles database).dmDatabase.working

def committedTables (store : Store) (database : DatabasePtr) : Tables :=
  (store.handles database).dmDatabase.committed

def Matches (rows : List DataRow) (pairs : List (Int × Extent)) : Prop :=
  pairs = [] ∨ ∀ pair, pair ∈ pairs ↔ ∃ row ∈ rows, row.pair = pair

structure Coherent (store : Store) (database : DatabasePtr) : Prop where
  identifiers : ∀ row ∈ (tables store database).data, toInteger row.id = row.id
  grows : (committedTables store database).data <+: (tables store database).data
  settled : Settled (store.handles database)
  cached : ∀ collector thread, ∃ pairs,
    store.theCache.Caches (dataKey database collector thread) pairs ∧
      Matches ((tables store database).dataOf collector thread) pairs

structure Invariant (store : Store) : Prop where
  coherent : ∀ database, Coherent store database
  caches : ∀ key, ∃ pairs, store.theCache.Caches key pairs

def Uncached (store : Store) (database : DatabasePtr) : Prop :=
  ∀ row ∈ (tables store database).data, row ∉ (committedTables store database).data →
    (store.theCache.getExtents (dataKey database row.collector row.thread)).extents = []

def FillComplete (reply : FillReply) (rows : Nat) : Prop :=
  ∀ index failure, reply.query.failure = some (index, failure) → index = 0 ∨ rows ≤ index

def Call.Safe (store : Store) : Call → Prop
  | .beginTransaction _ _ _ => True
  | .commitTransaction database _ =>
    AtLevel [] (store.handles database) → (store.handles database).dmIsCommittable = false →
      Uncached store database
  | .rollbackTransaction database _ =>
    AtLevel [] (store.handles database) → Uncached store database
  | .storePerformanceData database blob reply =>
    ∀ header thread, DataQueues.accepted? blob reply.canonicalName (tables store database) =
        some (header, thread) →
      toInteger (tables store database).nextRowid = (tables store database).nextRowid ∧
        ((store.theCache.getExtents (dataKey database header.collector thread)).extents = [] →
          FillComplete reply.fill (((tables store database).dataOf header.collector thread).length + 1))
  | .getIdentifiers collector thread _ reply =>
    (store.theCache.getExtents (collector, thread)).extents = [] →
      FillComplete reply (rowsOf (collector, thread) store).length

/-- Every query that is not stopped by its fill returns the identifiers of the
rows of its collector and thread that intersect its extent. -/
def Exact (nthElement : NthElement) (store : Store) : Prop :=
  ∀ database collector thread extent reply filled,
    addIdentifiersIfEmpty (dataKey database collector thread) reply store = .returned () filled →
    ∃ identifiers after,
      getIdentifiers nthElement ⟨database, collector⟩ ⟨database, thread⟩ extent reply store =
        .returned identifiers after ∧
      ∀ identifier, identifier ∈ identifiers ↔ ∃ row ∈ (tables store database).data,
        row.collector = collector ∧ row.thread = thread ∧ row.id = identifier ∧
          row.extent.doesIntersect extent = true

theorem Matches.of_complete {rows front back : List DataRow} {reply : FillReply}
    (split : rows = front ++ back) (partway : front = [] ∨ (reply.query.failureAt front.length).isSome)
    (complete : FillComplete reply rows.length) : Matches rows (front.map DataRow.pair) := by
  have whole : front = [] ∨ back = [] := by
    rcases partway with empty | failing
    · exact Or.inl empty
    · cases failure : reply.query.failure with
      | none => simp [QueryReply.failureAt, failure] at failing
      | some found =>
        obtain ⟨index, how⟩ := found
        have place : index = front.length := by
          by_contra different
          simp [QueryReply.failureAt, failure, different] at failing
        have bound := complete index how failure
        rw [split, List.length_append] at bound
        rcases bound with zero | past
        · exact Or.inl (List.length_eq_zero_iff.mp (by omega))
        · exact Or.inr (List.length_eq_zero_iff.mp (by omega))
  rcases whole with rfl | rfl
  · exact Or.inl rfl
  · right
    intro pair
    rw [split, List.append_nil, List.mem_map]

variable {pairs : List (Int × Extent)}

theorem Matches.filled {rows : List DataRow}
    (holds : Matches rows pairs) : ∀ pair, pair ∈ filledPairs pairs rows ↔ ∃ row ∈ rows, row.pair = pair := by
  intro pair
  unfold filledPairs
  split
  · rw [List.mem_map]
  · rename_i nonempty
    exact (holds.resolve_left nonempty) pair

variable {before after : Store}

theorem Coherent.of_same {database : DatabasePtr} (coherent : Coherent before database)
    (handle : after.handles database = before.handles database)
    (groups : ∀ collector thread, SameGroup before.theCache after.theCache
      (dataKey database collector thread)) : Coherent after database := by
  have sameTables : tables after database = tables before database := by
    simp only [tables, handle]
  have sameCommitted : committedTables after database = committedTables before database := by
    simp only [committedTables, handle]
  constructor
  · rw [sameTables]
    exact coherent.identifiers
  · rw [sameTables, sameCommitted]
    exact coherent.grows
  · rw [handle]
    exact coherent.settled
  · intro collector thread
    obtain ⟨pairs, caches, holds⟩ := coherent.cached collector thread
    exact ⟨pairs, caches.of_sameGroup (groups collector thread), sameTables ▸ holds⟩

variable {key : Entry × Entry}

theorem Invariant.of_touches (invariant : Invariant before) (touched : OnlyTouches key before after)
    (caches : after.theCache.Caches key pairs)
    (here : Coherent after key.1.dmDatabase) : Invariant after := by
  constructor
  · intro database
    by_cases same : database = key.1.dmDatabase
    · exact same ▸ here
    · apply (invariant.coherent database).of_same (touched.handles database same)
      intro collector thread
      apply touched.groups
      intro keyEq
      exact same (congrArg (fun key => key.1.dmDatabase) keyEq)
  · intro other
    by_cases same : other = key
    · exact ⟨pairs, same ▸ caches⟩
    · obtain ⟨pairs, caches⟩ := invariant.caches other
      exact ⟨pairs, caches.of_sameGroup (touched.groups other same)⟩

theorem Invariant.of_handle {database : DatabasePtr} (invariant : Invariant before)
    (handles : ∀ other, other ≠ database → after.handles other = before.handles other)
    (cache : after.theCache = before.theCache) (here : Coherent after database) : Invariant after := by
  constructor
  · intro other
    by_cases same : other = database
    · exact same ▸ here
    · apply (invariant.coherent other).of_same (handles other same)
      intro collector thread
      rw [cache]
      exact SameGroup.refl _ _
  · intro key
    rw [cache]
    exact invariant.caches key

variable {contents : Tables}

theorem mem_dataOf {collector thread : Int} {row : DataRow} : row ∈ contents.dataOf collector thread ↔
      row ∈ contents.data ∧ row.collector = collector ∧ row.thread = thread := by
  simp [Tables.dataOf]

variable {store : Store}

theorem eq_nil_of_caches (caches : store.theCache.Caches key pairs)
    (empty : (store.theCache.getExtents key).extents = []) : pairs = [] := by
  rw [caches.extents] at empty
  exact List.map_eq_nil_iff.mp empty

section

variable {database : DatabasePtr}

theorem Coherent.write {handle : Handle Tables} (coherent : Coherent store database)
    (working : handle.dmDatabase.working = tables store database ∨
      (handle.dmDatabase.working = committedTables store database ∧ Uncached store database))
    (grows : handle.dmDatabase.committed.data <+: handle.dmDatabase.working.data)
    (settled : Settled handle) : Coherent ((Store.access database).write store handle) database := by
  have here : tables ((Store.access database).write store handle) database =
      handle.dmDatabase.working := by simp [tables]
  constructor
  · rw [here]
    rcases working with same | ⟨undone, _⟩
    · rw [same]
      exact coherent.identifiers
    · rw [undone]
      intro row member
      exact coherent.identifiers row (coherent.grows.mem member)
  · rw [here]
    simpa [committedTables] using grows
  · simpa using settled
  · intro collector thread
    obtain ⟨pairs, caches, holds⟩ := coherent.cached collector thread
    refine ⟨pairs, caches, ?_⟩
    rw [here]
    rcases working with same | ⟨undone, uncached⟩
    · rw [same]
      exact holds
    · rw [undone]
      rcases holds with empty | holds
      · exact Or.inl empty
      · by_cases empty : pairs = []
        · exact Or.inl empty
        right
        intro pair
        rw [holds pair]
        constructor
        · rintro ⟨row, member, rfl⟩
          obtain ⟨present, rfl, rfl⟩ := mem_dataOf.mp member
          refine ⟨row, mem_dataOf.mpr ⟨?_, rfl, rfl⟩, rfl⟩
          by_contra added
          exact empty (eq_nil_of_caches caches (uncached row present added))
        · rintro ⟨row, member, rfl⟩
          obtain ⟨present, same⟩ := mem_dataOf.mp member
          exact ⟨row, mem_dataOf.mpr ⟨coherent.grows.mem present, same⟩, rfl⟩

theorem Invariant.write {handle : Handle Tables}
    (invariant : Invariant store) (working : handle.dmDatabase.working = tables store database ∨
      (handle.dmDatabase.working = committedTables store database ∧ Uncached store database))
    (grows : handle.dmDatabase.committed.data <+: handle.dmDatabase.working.data)
    (settled : Settled handle) : Invariant ((Store.access database).write store handle) := by
  refine @Invariant.of_handle store _ database invariant ?_ ?_ ?_
  · intro other different
    simp [Function.update_of_ne different]
  · rfl
  · exact (invariant.coherent database).write working grows settled

theorem begin_invariant {willModify : Bool} {reply : BeginReply} (invariant : Invariant store) :
    ((Store.access database).call (Database.beginTransaction willModify reply)).wlp
      (fun _ => Invariant) (fun _ => Invariant) store := by
  rw [wlp_call]
  have coherent := invariant.coherent database
  by_cases idle : (store.handles database).dmTransaction = []
  · apply wlp_beginTransaction_outermost idle
    intro command _
    have same := issue_committed command (coherent.settled idle)
    refine invariant.write (Or.inl same.1) ?_ ?_
    · have committed := coherent.grows
      exact congrArg Tables.data same.2 ▸ congrArg Tables.data same.1 ▸ committed
    · intro impossible
      simp [begunOutermost] at impossible
  · apply wlp_beginTransaction_nested idle
    refine invariant.write (Or.inl rfl) coherent.grows ?_
    intro impossible
    simp [begunNested] at impossible

theorem commit_invariant {reply : EndReply} (invariant : Invariant store)
    (safe : AtLevel [] (store.handles database) →
      (store.handles database).dmIsCommittable = false → Uncached store database) :
    ((Store.access database).call (Database.commitTransaction reply)).wlp
      (fun _ => Invariant) (fun _ => Invariant) store := by
  rw [wlp_call]
  have coherent := invariant.coherent database
  apply wlp_of_atLevel.1
  intro outer level
  apply wlp_commitTransaction level
  · intro inner
    refine invariant.write (Or.inl rfl) coherent.grows ?_
    exact fun idle => absurd idle inner
  · rintro rfl
    cases committable : (store.handles database).dmIsCommittable with
    | true =>
      simp only [Store.access_read, committable, if_true]
      exact invariant.write (Or.inl rfl) List.prefix_rfl (fun _ => rfl)
    | false =>
      simp only [Store.access_read, committable, Bool.false_eq_true, if_false]
      exact invariant.write (Or.inr ⟨rfl, safe level committable⟩) List.prefix_rfl (fun _ => rfl)

theorem rollback_invariant {reply : EndReply} (invariant : Invariant store)
    (safe : AtLevel [] (store.handles database) → Uncached store database) :
    ((Store.access database).call (Database.rollbackTransaction reply)).wlp
      (fun _ => Invariant) (fun _ => Invariant) store := by
  rw [wlp_call]
  have coherent := invariant.coherent database
  apply wlp_of_atLevel.2
  intro outer level
  apply wlp_rollbackTransaction level
  · intro inner
    refine invariant.write (Or.inl rfl) coherent.grows ?_
    exact fun idle => absurd idle inner
  · rintro rfl
    exact invariant.write (Or.inr ⟨rfl, safe level⟩) List.prefix_rfl (fun _ => rfl)

end

theorem dataRow_pair (header : DataHeader) (thread : Int) (data : List UInt8) (id : Int) :
    (dataRow header thread data id).pair = (toInteger id,
      ⟨⟨header.timeBegin, header.timeEnd⟩, ⟨header.addrBegin, header.addrEnd⟩⟩) := by
  simp [DataRow.pair, DataRow.extent, dataRow]

theorem dataOf_insertData (contents : Tables) (header : DataHeader) (thread : Int)
    (data : List UInt8) (collector' thread' : Int) :
    (contents.insertData (dataRow header thread data)).dataOf collector' thread' =
      contents.dataOf collector' thread' ++ if header.collector = collector' ∧ thread = thread' then
          [dataRow header thread data contents.nextRowid] else [] := by
  by_cases here : header.collector = collector' ∧ thread = thread'
  · simp [Tables.dataOf, Tables.insertData, dataRow, here]
  · rw [if_neg here, List.append_nil]
    have other : ¬(decide (header.collector = collector') && decide (thread = thread')) := by
      simpa using here
    simp [Tables.dataOf, Tables.insertData, dataRow, here]

theorem Matches.inserted {header : DataHeader} {thread : Int}
    {data : List UInt8} (holds : Matches (contents.dataOf header.collector thread) pairs) :
    Matches ((contents.insertData (dataRow header thread data)).dataOf header.collector thread)
      (filledPairs pairs ((contents.insertData (dataRow header thread data)).dataOf
          header.collector thread) ++ [(toInteger contents.nextRowid,
          ⟨⟨header.timeBegin, header.timeEnd⟩, ⟨header.addrBegin, header.addrEnd⟩⟩)]) := by
  right
  intro pair
  rw [dataOf_insertData, if_pos ⟨rfl, rfl⟩, ← dataRow_pair header thread data]
  simp only [List.mem_append, List.mem_singleton, or_and_right, exists_or, exists_eq_left, filledPairs]
  split
  · simp only [List.map_append, List.mem_append, List.mem_map, List.map_cons, List.map_nil,
      List.mem_singleton, eq_comm (a := pair)]
    constructor
    · rintro ((old | new) | new)
      · exact Or.inl old
      · exact Or.inr new
      · exact Or.inr new
    · rintro (old | new)
      · exact Or.inl (Or.inl old)
      · exact Or.inr new
  · rename_i nonempty
    rw [holds.resolve_left nonempty pair, eq_comm (a := pair)]

theorem Coherent.insert {store after : Store} {database : DatabasePtr} {header : DataHeader}
    {thread : Int} {data : List UInt8} (coherent : Coherent store database)
    (rows : contents.data = ((tables store database).insertData (dataRow header thread data)).data)
    (fits : toInteger (tables store database).nextRowid = (tables store database).nextRowid)
    (touched : OnlyTouches (dataKey database header.collector thread) store after)
    (inside : DataQueues.Inside (store.handles database) (after.handles database) contents)
    (nested : (store.handles database).dmTransaction ≠ [])
    (caches : after.theCache.Caches (dataKey database header.collector thread) pairs)
    (holds : Matches (contents.dataOf header.collector thread) pairs) : Coherent after database := by
  have here : tables after database = contents := inside.working
  constructor
  · rw [here, rows]
    intro row member
    simp only [Tables.insertData, List.mem_append, List.mem_singleton] at member
    rcases member with old | rfl
    · exact coherent.identifiers row old
    · exact fits
  · have committed : committedTables after database = committedTables store database :=
      inside.committed
    rw [here, committed, rows]
    exact coherent.grows.trans (List.prefix_append _ _)
  · intro idle
    exact absurd (inside.stack.symm.trans idle) nested
  · intro collector' thread'
    rw [here]
    by_cases same : header.collector = collector' ∧ thread = thread'
    · obtain ⟨rfl, rfl⟩ := same
      exact ⟨pairs, caches, holds⟩
    · obtain ⟨others, cachesOthers, holdsOthers⟩ := coherent.cached collector' thread'
      refine ⟨others, cachesOthers.of_sameGroup (touched.groups _ ?_), ?_⟩
      · intro keyEq
        simp only [dataKey, Prod.mk.injEq, Entry.mk.injEq, true_and] at keyEq
        exact same ⟨keyEq.1.symm, keyEq.2.symm⟩
      · have unchanged : contents.dataOf collector' thread' =
            (tables store database).dataOf collector' thread' := by
          have added := dataOf_insertData (tables store database) header thread data collector' thread'
          rw [if_neg same, List.append_nil] at added
          rw [← added, Tables.dataOf, Tables.dataOf, rows]
        rw [unchanged]
        exact holdsOthers

theorem store_invariant {database : DatabasePtr} {blob : Blob}
    {reply : StoreReply} (invariant : Invariant store) (nested : (store.handles database).dmTransaction ≠ [])
    (safe : Call.Safe store (.storePerformanceData database blob reply)) :
    (DataQueues.storePerformanceData database blob reply).wlp
      (fun _ => Invariant) (fun _ => Invariant) store := by
  have coherent := invariant.coherent database
  -- A handle that sees the same rows as before, with the cache left alone.
  have same : ∀ after (contents : Tables), contents.data = (tables store database).data →
      (∀ other, other ≠ database → after.handles other = store.handles other) →
      after.theCache = store.theCache →
      DataQueues.Inside (store.handles database) (after.handles database) contents →
      Invariant after := by
    intro after contents rows others cache inside
    have here : (tables after database).data = (tables store database).data := by
      rw [tables, inside.working, rows]
    apply invariant.of_handle others cache
    constructor
    · rw [here]
      exact coherent.identifiers
    · rw [here, committedTables, inside.committed]
      exact coherent.grows
    · intro idle
      exact absurd (inside.stack.symm.trans idle) nested
    · intro collector thread
      rw [cache, Tables.dataOf, here]
      exact coherent.cached collector thread
  apply DataQueues.wlp_storePerformanceData rfl nested invariant.caches
  · intro after _ others cache inside _
    exact same after ((tables store database).record blob) rfl others cache inside
  · intro after header thread contents pairs accepted contentsEq caches touched inside _ cachesAfter
    obtain ⟨fits, _⟩ := safe header thread accepted
    obtain ⟨known, cachesKnown, holds⟩ := coherent.cached header.collector thread
    obtain rfl := caches.unique cachesKnown
    subst contentsEq
    have rows : (((tables store database).insertData
        (dataRow header thread blob.data)).record blob).data =
        ((tables store database).insertData (dataRow header thread blob.data)).data := rfl
    apply invariant.of_touches touched cachesAfter
    exact coherent.insert rows fits touched inside nested cachesAfter holds.inserted
  · intro error after others cache inside _
    exact same after _ rfl others cache inside
  · intro error after header thread contents front back accepted contentsEq caches touched inside _
      split partway cachesAfter
    obtain ⟨fits, complete⟩ := safe header thread accepted
    subst contentsEq
    have rowsLength : (((tables store database).insertData
        (dataRow header thread blob.data)).dataOf header.collector thread).length =
        ((tables store database).dataOf header.collector thread).length + 1 := by
      rw [dataOf_insertData, if_pos ⟨rfl, rfl⟩, List.length_append]
      rfl
    apply invariant.of_touches touched cachesAfter
    apply coherent.insert rfl fits touched inside nested cachesAfter
    exact Matches.of_complete split partway (rowsLength ▸ complete caches.extents)

theorem fill_invariant {store after : Store}
    (invariant : Invariant store) (touched : OnlyTouches key store after)
    (kept : Kept (store.handles key.1.dmDatabase) (after.handles key.1.dmDatabase))
    (caches : after.theCache.Caches key pairs)
    (holds : key.2.dmDatabase = key.1.dmDatabase → Matches (rowsOf key store) pairs) : Invariant after := by
  have coherent := invariant.coherent key.1.dmDatabase
  have sameTables : tables after key.1.dmDatabase = tables store key.1.dmDatabase := kept.working
  apply invariant.of_touches touched caches
  constructor
  · rw [sameTables]
    exact coherent.identifiers
  · rw [sameTables, committedTables, kept.committed]
    exact coherent.grows
  · intro idle
    rw [kept.working, kept.committed]
    exact coherent.settled (kept.stack.symm.trans idle)
  · intro collector thread
    rw [sameTables]
    by_cases same : dataKey key.1.dmDatabase collector thread = key
    · refine ⟨pairs, same ▸ caches, ?_⟩
      have both : key.2.dmDatabase = key.1.dmDatabase := by rw [← same]; rfl
      have rows : rowsOf key store = (tables store key.1.dmDatabase).dataOf collector thread := by
        rw [← same]
        rfl
      exact rows ▸ holds both
    · obtain ⟨others, cachesOthers, holdsOthers⟩ := coherent.cached collector thread
      exact ⟨others, cachesOthers.of_sameGroup (touched.groups _ same), holdsOthers⟩

theorem intersecting_returns (nthElement : NthElement)
    (caches : store.theCache.Caches key pairs) (extent : Extent) :
    ∃ identifiers after, intersecting nthElement key extent store =
        .returned identifiers after ∧ OnlyTouches key store after ∧
      after.handles = store.handles ∧ after.theCache.Caches key pairs ∧
      ∀ identifier, identifier ∈ identifiers ↔
        ∃ pair ∈ pairs, pair.1 = identifier ∧ pair.2.doesIntersect extent = true := by
  obtain ⟨next, scanned, consistent, extents⟩ :=
    ExtentGroup.getIntersectionWith_correct nthElement _ caches.consistent (le_refl _) extent
  have object : ∀ index ∈ ExtentGroup.linearScan (store.theCache.getExtents key).extents extent,
      ∃ pair, pairs[index]? = some pair ∧ pair.2.doesIntersect extent = true ∧
        store.theCache.getObject key index = some pair.1 := by
    intro index member
    obtain ⟨found, present, meets⟩ := (ExtentGroup.mem_linearScan _ _ _).mp member
    rw [caches.extents, List.getElem?_map, Option.map_eq_some_iff] at present
    obtain ⟨pair, here, rfl⟩ := present
    refine ⟨pair, here, meets, ?_⟩
    have objects := caches.objects
    cases stored : store.theCache.dmExtentToObject key with
    | none =>
      rw [stored] at objects
      simp only [Option.getD_none, List.nil_eq, List.map_eq_nil_iff] at objects
      simp [objects] at here
    | some list =>
      rw [stored, Option.getD_some] at objects
      simp [getObject, stored, objects, here]
  have all : ∀ index ∈ ExtentGroup.linearScan (store.theCache.getExtents key).extents extent,
      (store.theCache.getObject key index).isSome := by
    intro index member
    obtain ⟨pair, _, _, found⟩ := object index member
    simp [found]
  refine ⟨(ExtentGroup.linearScan (store.theCache.getExtents key).extents extent).image
      fun index => (store.theCache.getObject key index).getD 0,
    { store with theCache := store.theCache.setExtents key next }, ?_, ?_, rfl, ?_, ?_⟩
  · simp only [intersecting, scanned, objectsAt, if_pos all]
  · refine ⟨fun _ _ => rfl, fun other different => ⟨?_, rfl⟩⟩
    exact Function.update_of_ne different _ _
  · have here : (store.theCache.setExtents key next).getExtents key = next := by
      simp [setExtents, getExtents]
    exact ⟨by rw [here, extents, caches.extents], caches.objects, by rw [here]; exact consistent⟩
  · intro identifier
    rw [Finset.mem_image]
    constructor
    · rintro ⟨index, member, rfl⟩
      obtain ⟨pair, here, meets, found⟩ := object index member
      exact ⟨pair, List.mem_of_getElem? here, by simp [found], meets⟩
    · rintro ⟨pair, member, rfl, meets⟩
      obtain ⟨index, here⟩ := List.mem_iff_getElem?.mp member
      have scannedHere : index ∈ ExtentGroup.linearScan (store.theCache.getExtents key).extents extent := by
        rw [ExtentGroup.mem_linearScan, caches.extents]
        exact ⟨pair.2, by simp [here], meets⟩
      refine ⟨index, scannedHere, ?_⟩
      obtain ⟨other, here', _, found⟩ := object index scannedHere
      rw [here, Option.some.injEq] at here'
      simp [found, here']

theorem query_invariant (nthElement : NthElement) {collector thread : Entry}
    {extent : Extent} {reply : FillReply} (invariant : Invariant store)
    (safe : Call.Safe store (.getIdentifiers collector thread extent reply)) :
    (getIdentifiers nthElement collector thread extent reply).wlp
      (fun _ => Invariant) (fun _ => Invariant) store := by
  obtain ⟨pairs, caches⟩ := invariant.caches (collector, thread)
  have known : thread.dmDatabase = collector.dmDatabase →
      Matches (rowsOf (collector, thread) store) pairs := by
    intro same
    obtain ⟨others, cachesOthers, holds⟩ :=
      (invariant.coherent collector.dmDatabase).cached collector.dmEntry thread.dmEntry
    have keyEq : dataKey collector.dmDatabase collector.dmEntry thread.dmEntry = (collector, thread) := by
      obtain ⟨database, collector⟩ := collector
      obtain ⟨_, thread⟩ := thread
      cases same
      rfl
    rw [keyEq] at cachesOthers
    obtain rfl := caches.unique cachesOthers
    exact holds
  simp only [getIdentifiers, wlp_bind]
  apply wlp_addIdentifiersIfEmpty (invariant.coherent _).settled caches
  · intro after touched kept _ cachesAfter
    obtain ⟨identifiers, last, answered, touchedLast, handles, cachesLast, _⟩ :=
      intersecting_returns nthElement cachesAfter extent
    simp only [Procedure.wlp, answered]
    apply fill_invariant invariant (touched.trans touchedLast) _ cachesLast
    · intro same
      exact Or.inr (known same).filled
    · rw [handles]
      exact kept
  · intro error front back after touched kept empty split partway cachesAfter
    apply fill_invariant invariant touched kept cachesAfter
    intro _
    subst empty
    exact Matches.of_complete split partway (safe caches.extents)

theorem step_invariant (nthElement : NthElement) {store next : Store} {call : Call}
    (invariant : Invariant store) (safe : call.Safe store)
    (stepped : call.step nthElement store = some next) : Invariant next := by
  cases call with
  | beginTransaction database willModify reply =>
    exact wlp_state? (begin_invariant invariant) stepped
  | commitTransaction database reply =>
    exact wlp_state? (commit_invariant invariant safe) stepped
  | rollbackTransaction database reply =>
    exact wlp_state? (rollback_invariant invariant safe) stepped
  | storePerformanceData database blob reply =>
    simp only [Call.step] at stepped
    split at stepped
    · contradiction
    · rename_i nested
      exact wlp_state? (store_invariant invariant (by simpa using nested) safe) stepped
  | getIdentifiers collector thread extent reply =>
    exact wlp_state? (query_invariant nthElement invariant safe) stepped

theorem opened_invariant (name : DatabasePtr → String) {contents : DatabasePtr → Tables}
    (fits : ∀ database, ∀ row ∈ (contents database).data, toInteger row.id = row.id) :
    Invariant (Store.opened name contents) := by
  constructor
  · intro database
    constructor
    · exact fits database
    · exact List.prefix_rfl
    · exact fun _ => rfl
    · intro collector thread
      exact ⟨[], caches_empty _, Or.inl rfl⟩
  · intro key
    exact ⟨[], caches_empty _⟩

theorem getIdentifiers_eq (nthElement : NthElement) (database : DatabasePtr)
    (collector thread : Int) (extent : Extent) (reply : FillReply) (store : Store) :
    getIdentifiers nthElement ⟨database, collector⟩ ⟨database, thread⟩ extent reply store =
      match addIdentifiersIfEmpty (dataKey database collector thread) reply store with
      | .returned _ filled =>
        intersecting nthElement (dataKey database collector thread) extent filled
      | .thrown error filled => .thrown error filled
      | .aborted => .aborted := by
  simp only [getIdentifiers, bind_apply, dataKey]
  cases addIdentifiersIfEmpty (⟨database, collector⟩, ⟨database, thread⟩) reply store <;> rfl

theorem Invariant.exact (nthElement : NthElement) (invariant : Invariant store) : Exact nthElement store := by
  intro database collector thread extent reply filled ran
  have coherent := invariant.coherent database
  obtain ⟨pairs, caches, holds⟩ := coherent.cached collector thread
  have cachesFilled : filled.theCache.Caches (dataKey database collector thread)
      (filledPairs pairs (rowsOf (dataKey database collector thread) store)) := by
    have safe : (addIdentifiersIfEmpty (dataKey database collector thread) reply).wlp
        (fun _ after => after.theCache.Caches (dataKey database collector thread)
          (filledPairs pairs (rowsOf (dataKey database collector thread) store)))
        (fun _ _ => True) store :=
      wlp_addIdentifiersIfEmpty coherent.settled caches
        (fun after _ _ _ cachesAfter => cachesAfter) (fun _ _ _ _ _ _ _ _ _ _ => trivial)
    have result := wlp_of_returned safe ran
    exact result
  obtain ⟨identifiers, after, answered, _, _, _, scanned⟩ :=
    intersecting_returns nthElement cachesFilled extent
  refine ⟨identifiers, after, ?_, ?_⟩
  · simp only [getIdentifiers_eq, ran]
    exact answered
  · intro identifier
    rw [scanned identifier]
    constructor
    · rintro ⟨pair, member, rfl, meets⟩
      obtain ⟨row, present, rfl⟩ := (holds.filled pair).mp member
      obtain ⟨present, sameCollector, sameThread⟩ := mem_dataOf.mp present
      exact ⟨row, present, sameCollector, sameThread, (coherent.identifiers row present).symm, meets⟩
    · rintro ⟨row, present, sameCollector, sameThread, rfl, meets⟩
      exact ⟨row.pair, (holds.filled row.pair).mpr
        ⟨row, mem_dataOf.mpr ⟨present, sameCollector, sameThread⟩, rfl⟩,
        coherent.identifiers row present, meets⟩

/-- In every state reached by safe calls, the cache answers with the rows of the
database. -/
theorem getIdentifiers_exact (nthElement : NthElement) {name : DatabasePtr → String}
    {contents : DatabasePtr → Tables}
    (fits : ∀ database, ∀ row ∈ (contents database).data, toInteger row.id = row.id)
    {calls : List Call}
    (safe : Runs.Along Call.Safe (Call.step nthElement) (Store.opened name contents) calls)
    {store : Store}
    (ran : Runs.run (Call.step nthElement) (Store.opened name contents) calls = some store) :
    Exact nthElement store := by
  have invariant : Invariant store :=
    Runs.run_invariant_along Invariant
      (fun _ _ _ holds safe stepped => step_invariant nthElement holds safe stepped)
      (opened_invariant name fits) safe ran
  exact invariant.exact nthElement

def quietQuery : QueryReply := ⟨.ok, none, .ok⟩

def quietEnd : EndReply := ⟨fun _ => .ok, true⟩

def quietFill : FillReply := ⟨⟨.ok, quietEnd, quietEnd⟩, quietQuery⟩

def quietStore : StoreReply :=
  ⟨⟨.ok, quietEnd, quietEnd⟩, quietQuery, "host", quietQuery, quietQuery, quietQuery, quietQuery, quietFill⟩

def oneThread : Tables := ⟨[1], [⟨1, "host", 7, none⟩], [], 0, []⟩

def sampleBlob : Blob := ⟨some ⟨0, 1, "host", 7, 7, 10, 20, 30, 40⟩, [0]⟩

def storeThen (last : Call) : List Call :=
  [.beginTransaction 1 true .ok, .storePerformanceData 1 sampleBlob quietStore, last]

def sampleStore : Store := Store.opened (fun _ => "experiment") fun _ => oneThread

theorem getIdentifiers_exact_committed :
    ∃ store, Runs.run (Call.step NthElement.bySorting) sampleStore
        (storeThen (.commitTransaction 1 quietEnd)) = some store ∧
      Exact NthElement.bySorting store := by
  have returns : (Runs.run (Call.step NthElement.bySorting) sampleStore
      (storeThen (.commitTransaction 1 quietEnd))).isSome := by decide +kernel
  have begunTables : (Call.step NthElement.bySorting sampleStore
      (.beginTransaction 1 true .ok)).map (tables · 1) = some oneThread := by decide +kernel
  have storedCommittable : ((Call.step NthElement.bySorting sampleStore
      (.beginTransaction 1 true .ok)).bind fun begun =>
        (Call.step NthElement.bySorting begun (.storePerformanceData 1 sampleBlob quietStore)).map
          fun stored => (stored.handles 1).dmIsCommittable) = some true := by decide +kernel
  obtain ⟨store, ran⟩ := Option.isSome_iff_exists.mp returns
  refine ⟨store, ran, getIdentifiers_exact NthElement.bySorting ?_ ?_ ran⟩
  · intro database row member
    cases member
  · refine ⟨trivial, fun begun begins => ⟨?_, fun stored stores => ⟨?_, fun _ _ => trivial⟩⟩⟩
    · intro header thread _
      have startEq : sampleStore = Store.opened (fun _ => "experiment") fun _ => oneThread := rfl
      rw [startEq, begins, Option.map_some, Option.some.injEq] at begunTables
      rw [begunTables]
      refine ⟨by decide, ?_⟩
      intro _ index failure impossible
      cases impossible
    · intro _ notCommittable
      have startEq : sampleStore = Store.opened (fun _ => "experiment") fun _ => oneThread := rfl
      rw [startEq, begins, Option.bind_some, stores, Option.map_some, Option.some.injEq,
        notCommittable] at storedCommittable
      cases storedCommittable

theorem rolledBack_store_cached :
    ∃ store identifiers after, Runs.run (Call.step NthElement.bySorting) sampleStore
        (storeThen (.rollbackTransaction 1 quietEnd)) = some store ∧
      getIdentifiers NthElement.bySorting ⟨1, 1⟩ ⟨1, 1⟩ ⟨⟨0, 100⟩, ⟨0, 100⟩⟩ quietFill store =
        .returned identifiers after ∧
      1 ∈ identifiers ∧ (tables store 1).data = [] ∧ ¬Exact NthElement.bySorting store := by
  have answered : ((Runs.run (Call.step NthElement.bySorting) sampleStore
      (storeThen (.rollbackTransaction 1 quietEnd))).bind fun store =>
        match getIdentifiers NthElement.bySorting ⟨1, 1⟩ ⟨1, 1⟩ ⟨⟨0, 100⟩, ⟨0, 100⟩⟩ quietFill store with
        | .returned identifiers _ => some (identifiers, (tables store 1).data)
        | .thrown _ _ => none
        | .aborted => none) = some ({1}, []) := by decide +kernel
  obtain ⟨store, ran, answered⟩ := Option.bind_eq_some_iff.mp answered
  cases query : getIdentifiers NthElement.bySorting ⟨1, 1⟩ ⟨1, 1⟩ ⟨⟨0, 100⟩, ⟨0, 100⟩⟩ quietFill store with
  | returned identifiers after =>
    simp only [query, Option.some.injEq, Prod.mk.injEq] at answered
    obtain ⟨rfl, noRows⟩ := answered
    refine ⟨store, {1}, after, ran, query, by simp, noRows, ?_⟩
    intro exact
    cases filling : addIdentifiersIfEmpty (dataKey 1 1 1) quietFill store with
    | returned _ filled =>
      obtain ⟨identifiers, last, answered, rows⟩ :=
        exact 1 1 1 ⟨⟨0, 100⟩, ⟨0, 100⟩⟩ quietFill filled filling
      rw [query, Outcome.returned.injEq] at answered
      obtain ⟨row, present, _⟩ := (rows 1).mp (by simp [← answered.1])
      simp [noRows] at present
    | thrown error filled => simp [getIdentifiers_eq, filling] at query
    | aborted => simp [getIdentifiers_eq, filling] at query
  | thrown error after => simp [query] at answered
  | aborted => simp [query] at answered
end OpenSpeedShop.DataCache
