import OpenSpeedShop.Framework.DataCacheCore
import OpenSpeedShop.Framework.Transactions

/-!
What storing a blob does inside an open transaction, to the tables that the
transaction sees and to the cache, when it returns and when it throws.
-/

namespace OpenSpeedShop

open Procedure Access Database
open Store (access)

@[simp] theorem Store.access_read (database : DatabasePtr) (store : Store) :
    (access database).read store = store.handles database := rfl

@[simp] theorem Store.access_write_handles (database : DatabasePtr) (store : Store)
    (handle : Handle Tables) :
    ((access database).write store handle).handles = Function.update store.handles database handle := rfl

@[simp] theorem Store.access_write_theCache (database : DatabasePtr) (store : Store)
    (handle : Handle Tables) :
    ((access database).write store handle).theCache = store.theCache := rfl

def DataRow.extent (row : DataRow) : Extent where
  dmInterval := ⟨OffsetBinary.decode row.timeBegin, OffsetBinary.decode row.timeEnd⟩
  dmRange := ⟨OffsetBinary.decode row.addrBegin, OffsetBinary.decode row.addrEnd⟩

def DataRow.pair (row : DataRow) : Int × Extent := (toInteger row.id, row.extent)

theorem makeExtent?_eq_some {timeBegin timeEnd addrBegin addrEnd : UInt64} {extent : Extent}
    (made : makeExtent? timeBegin timeEnd addrBegin addrEnd = some extent) :
    extent = ⟨⟨timeBegin, timeEnd⟩, ⟨addrBegin, addrEnd⟩⟩ ∧ timeBegin < timeEnd ∧ addrBegin < addrEnd := by
  simp only [makeExtent?, Option.bind_eq_bind, Option.bind_eq_some_iff, Interval.make?_eq_some,
    Option.some.injEq] at made
  obtain ⟨interval, ⟨ordered, rfl⟩, range, ⟨ordered', rfl⟩, rfl⟩ := made
  exact ⟨rfl, ordered, ordered'⟩

theorem DataRow.extent?_eq_some {row : DataRow} {extent : Extent}
    (made : row.extent? = some extent) : extent = row.extent :=
  (makeExtent?_eq_some made).1

namespace DataCache

structure OnlyTouches (key : Entry × Entry) (before after : Store) : Prop where
  handles : ∀ other, other ≠ key.1.dmDatabase → after.handles other = before.handles other
  groups : ∀ other, other ≠ key → ExtentTable.SameGroup before.theCache after.theCache other

theorem OnlyTouches.refl (key : Entry × Entry) (store : Store) : OnlyTouches key store store :=
  ⟨fun _ _ => rfl, fun _ _ => ExtentTable.SameGroup.refl _ _⟩

variable {key : Entry × Entry}

theorem OnlyTouches.trans {first second third : Store}
    (one : OnlyTouches key first second) (two : OnlyTouches key second third) : OnlyTouches key first third :=
  ⟨fun other different => (two.handles other different).trans (one.handles other different),
    fun other different => (one.groups other different).trans (two.groups other different)⟩

theorem OnlyTouches.write (key : Entry × Entry) (store : Store) (handle : Handle Tables) :
    OnlyTouches key store ((access key.1.dmDatabase).write store handle) :=
  ⟨fun _ different => Function.update_of_ne different _ _, fun _ _ => ExtentTable.SameGroup.refl _ _⟩

theorem OnlyTouches.addExtent (key : Entry × Entry) (store : Store) (identifier : Int)
    (extent : Extent) : OnlyTouches key store
      { store with theCache := store.theCache.addExtent key identifier extent } :=
  ⟨fun _ _ => rfl, fun _ different => ExtentTable.sameGroup_addExtent _ different _ _⟩

def Settled (handle : Handle Tables) : Prop :=
  handle.dmTransaction = [] → handle.dmDatabase.working = handle.dmDatabase.committed

structure Kept (before after : Handle Tables) : Prop where
  stack : after.dmTransaction = before.dmTransaction
  working : after.dmDatabase.working = before.dmDatabase.working
  committed : after.dmDatabase.committed = before.dmDatabase.committed

variable {raised : DatabaseException → Store → Prop} {post : Unit → Store → Prop} {store : Store}

theorem wlp_addRow {row : DataRow} (added : post () { store with
      theCache := store.theCache.addExtent key (toInteger row.id) row.extent }) :
    (addRow key row).wlp post raised store := by
  unfold addRow
  cases made : row.extent? with
  | none => exact (wlp_abort _ _ _).mpr trivial
  | some extent =>
    obtain rfl := DataRow.extent?_eq_some made
    simp only [addExtent, wlp_modify]
    exact added

def rowsOf (key : Entry × Entry) (store : Store) : List DataRow :=
  (store.handles key.1.dmDatabase).dmDatabase.working.dataOf key.1.dmEntry key.2.dmEntry

variable {pairs : List (Int × Extent)}

theorem wlp_fillRows {statement : String} {reply : QueryReply}
    {store start : Store} {outer : List (Option Nat)} (level : AtLevel outer (start.handles key.1.dmDatabase))
    (caches : start.theCache.Caches key pairs) (touched : OnlyTouches key store start)
    (filled : ∀ after, OnlyTouches key store after → AtLevel outer (after.handles key.1.dmDatabase) →
      Unchanged (start.handles key.1.dmDatabase) (after.handles key.1.dmDatabase) →
      after.theCache.Caches key (pairs ++ (rowsOf key start).map DataRow.pair) → post () after)
    (failed : ∀ error front back after, OnlyTouches key store after →
      AtLevel outer (after.handles key.1.dmDatabase) →
      Unchanged (start.handles key.1.dmDatabase) (after.handles key.1.dmDatabase) →
      rowsOf key start = front ++ back → front = [] ∨ (reply.failureAt front.length).isSome →
      after.theCache.Caches key (pairs ++ front.map DataRow.pair) → raised error after) :
    ((access key.1.dmDatabase).query statement
      (Tables.dataOf key.1.dmEntry key.2.dmEntry) reply () fun _ row => addRow key row).wlp
      post raised start := by
  apply wlp_query _ level (fun delivered _ after => OnlyTouches key store after ∧
    after.theCache.Caches key (pairs ++ delivered.map DataRow.pair))
  · exact ⟨touched, by simpa using caches⟩
  · intro delivered _ after handle holds
    exact ⟨holds.1.trans (OnlyTouches.write key after handle), holds.2⟩
  · intro front row back _ after _ holds
    apply wlp_addRow
    refine ⟨⟨holds.1.trans (OnlyTouches.addExtent key after _ _), ?_⟩, rfl⟩
    rw [List.map_append, ← List.append_assoc]
    exact holds.2.addExtent _ _
  · intro _ after holds level' same
    exact filled after holds.1 level' same holds.2
  · intro front back _ error after split holds partway level' same
    exact failed error front back after holds.1 level' same split partway holds.2

theorem rowsOf_write {handle : Handle Tables} (same : handle.dmDatabase.working =
      (store.handles key.1.dmDatabase).dmDatabase.working) :
    rowsOf key ((access key.1.dmDatabase).write store handle) = rowsOf key store := by
  simp [rowsOf, same]

theorem kept_outermost {before after : Handle Tables} {command : TransactionCommand}
    (idle : before.dmTransaction = []) (settled : Settled before)
    (same : Unchanged (begunOutermost command before) after) (ending : TransactionCommand) :
    Kept before (issue ending (closed [] after)) := by
  obtain ⟨working, committed⟩ := issue_committed command (settled idle)
  have settledAfter : (closed [] after).dmDatabase.working = (closed [] after).dmDatabase.committed := by
    have workingAfter := same.working.trans working
    have committedAfter := same.committed.trans committed
    simp only [closed, workingAfter, committedAfter, settled idle]
  exact ⟨by simp [closed, idle],
    (issue_committed ending settledAfter).1.trans (same.working.trans working),
    (issue_committed ending settledAfter).2.trans (same.committed.trans committed)⟩

variable {reply : FillReply}

theorem wlp_addIdentifiers
    (settled : Settled (store.handles key.1.dmDatabase)) (caches : store.theCache.Caches key pairs)
    (filled : ∀ after, OnlyTouches key store after →
      Kept (store.handles key.1.dmDatabase) (after.handles key.1.dmDatabase) →
      ((store.handles key.1.dmDatabase).dmTransaction ≠ [] →
        (after.handles key.1.dmDatabase).dmIsCommittable = (store.handles key.1.dmDatabase).dmIsCommittable) →
      after.theCache.Caches key (pairs ++ (rowsOf key store).map DataRow.pair) → post () after)
    (failed : ∀ error front back after, OnlyTouches key store after →
      Kept (store.handles key.1.dmDatabase) (after.handles key.1.dmDatabase) →
      rowsOf key store = front ++ back → front = [] ∨ (reply.query.failureAt front.length).isSome →
      after.theCache.Caches key (pairs ++ front.map DataRow.pair) → raised error after) :
    (addIdentifiers key reply).wlp post raised store := by
  unfold addIdentifiers
  simp only [wlp_bind, wlp_assert]
  intro _
  by_cases idle : (store.handles key.1.dmDatabase).dmTransaction = []
  · apply wlp_transaction_outermost _ idle
    intro command _
    have begun := @rowsOf_write key store (begunOutermost command (store.handles key.1.dmDatabase))
      (issue_committed command (settled idle)).1
    have start : ((access key.1.dmDatabase).write store
        (begunOutermost command (store.handles key.1.dmDatabase))).handles key.1.dmDatabase =
        begunOutermost command (store.handles key.1.dmDatabase) := by simp
    have level : AtLevel [] (((access key.1.dmDatabase).write store
        (begunOutermost command (store.handles key.1.dmDatabase))).handles key.1.dmDatabase) :=
      ⟨[], by rw [start]; rfl⟩
    apply wlp_fillRows level caches (OnlyTouches.write key store _)
    · intro after touched level same holds
      rw [start] at same
      rw [begun] at holds
      refine ⟨level, filled _ (touched.trans (OnlyTouches.write key after _)) ?_ (absurd idle) holds⟩
      simpa using kept_outermost idle settled same _
    · intro error front back after touched level same split partway holds
      rw [start] at same
      rw [begun] at split
      refine ⟨level, failed error front back _ (touched.trans (OnlyTouches.write key after _)) ?_
        split partway holds⟩
      have kept := kept_outermost idle settled same .rollback
      exact ⟨by simpa using kept.stack, by simpa using kept.working, by simpa using kept.committed⟩
  · apply wlp_transaction_nested _ rfl idle
    have begun := @rowsOf_write key store (begunNested (store.handles key.1.dmDatabase)) rfl
    have start : ((access key.1.dmDatabase).write store
        (begunNested (store.handles key.1.dmDatabase))).handles key.1.dmDatabase =
        begunNested (store.handles key.1.dmDatabase) := by simp
    have level : AtLevel (store.handles key.1.dmDatabase).dmTransaction
        (((access key.1.dmDatabase).write store
          (begunNested (store.handles key.1.dmDatabase))).handles key.1.dmDatabase) :=
      ⟨[], by rw [start]; rfl⟩
    apply wlp_fillRows level caches (OnlyTouches.write key store _)
    · intro after touched level same holds
      rw [start] at same
      refine ⟨level, filled _ (touched.trans (OnlyTouches.write key after _)) ?_ ?_ ?_⟩
      · exact ⟨by simp [closed], by simpa [closed, begunNested] using same.working,
          by simpa [closed, begunNested] using same.committed⟩
      · intro _
        simpa [closed, begunNested] using same.committable
      · rw [begun] at holds
        exact holds
    · intro error front back after touched level same split partway holds
      rw [start] at same
      rw [begun] at split
      refine ⟨level, failed error front back _ (touched.trans (OnlyTouches.write key after _)) ?_
        split partway holds⟩
      exact ⟨by simp [closed], by simpa [closed, begunNested] using same.working,
        by simpa [closed, begunNested] using same.committed⟩

def filledPairs (pairs : List (Int × Extent)) (rows : List DataRow) : List (Int × Extent) :=
  if pairs = [] then rows.map DataRow.pair else pairs

theorem wlp_addIdentifiersIfEmpty
    (settled : Settled (store.handles key.1.dmDatabase)) (caches : store.theCache.Caches key pairs)
    (filled : ∀ after, OnlyTouches key store after →
      Kept (store.handles key.1.dmDatabase) (after.handles key.1.dmDatabase) →
      ((store.handles key.1.dmDatabase).dmTransaction ≠ [] →
        (after.handles key.1.dmDatabase).dmIsCommittable = (store.handles key.1.dmDatabase).dmIsCommittable) →
      after.theCache.Caches key (filledPairs pairs (rowsOf key store)) → post () after)
    (failed : ∀ error front back after, OnlyTouches key store after →
      Kept (store.handles key.1.dmDatabase) (after.handles key.1.dmDatabase) → pairs = [] →
      rowsOf key store = front ++ back → front = [] ∨ (reply.query.failureAt front.length).isSome →
      after.theCache.Caches key (front.map DataRow.pair) → raised error after) :
    (addIdentifiersIfEmpty key reply).wlp post raised store := by
  simp only [addIdentifiersIfEmpty, wlp_bind, wlp_get, caches.isEmpty]
  cases pairs with
  | nil =>
    simp only [List.isEmpty_nil, if_true]
    apply wlp_addIdentifiers settled caches
    · intro after touched kept committable holds
      exact filled after touched kept committable (by simpa [filledPairs] using holds)
    · intro error front back after touched kept split partway holds
      exact failed error front back after touched kept rfl split partway (by simpa using holds)
  | cons pair rest =>
    simp only [List.isEmpty_cons, Bool.false_eq_true, if_false, wlp_pure]
    exact filled store (OnlyTouches.refl key store) ⟨rfl, rfl, rfl⟩ (fun _ => rfl)
      (by simpa [filledPairs] using caches)

theorem wlp_addIdentifier {database : DatabasePtr} {collector thread : Int} {extent : Extent}
    {identifier : Int} (named : key = dataKey database collector thread)
    (nested : (store.handles database).dmTransaction ≠ [])
    (caches : store.theCache.Caches key pairs) (added : ∀ after, OnlyTouches key store after →
      Kept (store.handles database) (after.handles database) →
      (after.handles database).dmIsCommittable = (store.handles database).dmIsCommittable →
      after.theCache.Caches key
        (filledPairs pairs (rowsOf key store) ++ [(identifier, extent)]) → post () after)
    (failed : ∀ error front back after, OnlyTouches key store after →
      Kept (store.handles database) (after.handles database) → pairs = [] →
      rowsOf key store = front ++ back → front = [] ∨ (reply.query.failureAt front.length).isSome →
      after.theCache.Caches key (front.map DataRow.pair) → raised error after) :
    (addIdentifier database collector thread extent identifier reply).wlp post raised store := by
  have here : key.1.dmDatabase = database := by
    rw [named]
    rfl
  subst here
  simp only [addIdentifier, wlp_bind, ← named]
  apply wlp_addIdentifiersIfEmpty (fun idle => absurd idle nested) caches
  · intro after touched kept committable holds
    simp only [addExtent, wlp_modify]
    exact added _ (touched.trans (OnlyTouches.addExtent key after _ _)) kept (committable nested)
      (holds.addExtent identifier extent)
  · exact failed

end DataCache

namespace DataQueues

open DataCache

def threadOf (header : DataHeader) (canonicalName : String) (tables : Tables) : Int :=
  let find := fun posixTid =>
    (tables.threadsOf canonicalName header.pid.toInt32 posixTid).getLastD 0
  let thread := find (some (OffsetBinary.encode header.posixTid.toUInt64))
  let thread := if thread = 0 then find none else thread
  if thread = 0 then find (some (OffsetBinary.encode 0)) else thread

variable {raised : DatabaseException → Store → Prop} {database : DatabasePtr}

variable {outer : List (Option Nat)} {store : Store}

theorem wlp_searchIfZero {thread : Int} {statement : String}
    {select : Tables → List Int} {reply : QueryReply} {start : Handle Tables}
    {handle : Handle Tables} (level : AtLevel outer handle)
    (same : Unchanged start handle) {post : Int → Store → Prop}
    (found : ∀ handle, AtLevel outer handle → Unchanged start handle →
      post (if thread = 0 then (select start.dmDatabase.working).getLastD 0 else thread)
        ((access database).write store handle))
    (failed : ∀ error handle, AtLevel outer handle → Unchanged start handle →
      raised error ((access database).write store handle)) :
    (searchIfZero thread ((access database).queryLast statement select reply 0)).wlp
      post raised ((access database).write store handle) := by
  unfold searchIfZero
  split
  · rename_i zero
    simp only [zero, if_true] at found
    apply wlp_queryLast _ (by simpa using level)
    · intro last lastLevel lastSame
      rw [read_write_simp] at lastSame ⊢
      rw [write_write_simp, same.working]
      exact found last lastLevel (same.trans lastSame)
    · intro error last lastLevel lastSame
      rw [read_write_simp] at lastSame
      rw [write_write_simp]
      exact failed error last lastLevel (same.trans lastSame)
  · rename_i nonzero
    simp only [nonzero, if_false] at found
    exact found handle level same

variable {reply : StoreReply}

theorem wlp_findThread {header : DataHeader} {start handle : Handle Tables}
    (level : AtLevel outer handle) (same : Unchanged start handle) {post : Int → Store → Prop}
    (found : ∀ handle, AtLevel outer handle → Unchanged start handle →
      post (threadOf header reply.canonicalName start.dmDatabase.working)
        ((access database).write store handle))
    (failed : ∀ error handle, AtLevel outer handle → Unchanged start handle →
      raised error ((access database).write store handle)) :
    (findThread database header reply).wlp post raised ((access database).write store handle) := by
  unfold findThread
  simp only [wlp_bind]
  apply wlp_queryLast _ (by simpa using level)
  · intro first firstLevel firstSame
    rw [read_write_simp] at firstSame ⊢
    rw [write_write_simp, same.working, wlp_bind]
    apply wlp_searchIfZero firstLevel (same.trans firstSame)
    · intro middle middleLevel middleSame
      exact wlp_searchIfZero middleLevel middleSame found failed
    · exact failed
  · intro error handle handleLevel handleSame
    rw [read_write_simp] at handleSame
    rw [write_write_simp]
    exact failed error handle handleLevel (same.trans handleSame)

def accepted? (blob : Blob) (canonicalName : String) (tables : Tables) : Option (DataHeader × Int) := do
  let header ← blob.header
  let thread := threadOf header canonicalName tables
  if header.addrBegin ≥ header.addrEnd || header.timeBegin ≥ header.timeEnd ||
      tables.collectors.count header.collector != 1 || thread == 0 then none
  else some (header, thread)

structure Inside (before after : Handle Tables) (working : Tables) : Prop where
  stack : after.dmTransaction = before.dmTransaction
  committed : after.dmDatabase.committed = before.dmDatabase.committed
  working : after.dmDatabase.working = working

variable {post : Unit → Store → Prop}

theorem wlp_insertPerformanceData {header : DataHeader} {thread : Int} {data : List UInt8}
    {pairs : List (Int × Extent)} (level : AtLevel outer (store.handles database))
    (caches : store.theCache.Caches (dataKey database header.collector thread) pairs)
    {tables : Tables} (tablesEq : tables = (store.handles database).dmDatabase.working.insertData
      (dataRow header thread data))
    (inserted : ∀ after, OnlyTouches (dataKey database header.collector thread) store after →
      AtLevel outer (after.handles database) → (after.handles database).dmDatabase.working = tables →
      (after.handles database).dmDatabase.committed = (store.handles database).dmDatabase.committed →
      (after.handles database).dmIsCommittable = (store.handles database).dmIsCommittable →
      after.theCache.Caches (dataKey database header.collector thread)
        (filledPairs pairs (tables.dataOf header.collector thread) ++ [(toInteger tables.lastInsertRowid,
            ⟨⟨header.timeBegin, header.timeEnd⟩, ⟨header.addrBegin, header.addrEnd⟩⟩)]) →
      post () after) (failed : ∀ error handle, AtLevel outer handle →
      Unchanged (store.handles database) handle →
      raised error ((access database).write store handle)) (partly : ∀ error front back after,
      OnlyTouches (dataKey database header.collector thread) store after →
      AtLevel outer (after.handles database) → (after.handles database).dmDatabase.working = tables →
      (after.handles database).dmDatabase.committed =
        (store.handles database).dmDatabase.committed → pairs = [] →
      tables.dataOf header.collector thread = front ++ back →
      front = [] ∨ (reply.fill.query.failureAt front.length).isSome →
      after.theCache.Caches (dataKey database header.collector thread)
        (front.map DataRow.pair) → raised error after) :
    (insertPerformanceData database header thread data reply).wlp post raised store := by
  unfold insertPerformanceData
  simp only [wlp_bind]
  apply wlp_command _ level
  · intro handle handleLevel working committed _ committable
    simp only [wlp_bind, wlp_get]
    have here : ((access database).write store handle).handles database = handle := by simp
    rw [Store.access_read, ← tablesEq] at working
    have rows : rowsOf (dataKey database header.collector thread)
        ((access database).write store handle) = tables.dataOf header.collector thread := by
      simp [rowsOf, dataKey, working]
    rw [here, working]
    cases made : makeExtent? header.timeBegin header.timeEnd header.addrBegin header.addrEnd with
    | none => exact (wlp_abort _ _ _).mpr trivial
    | some extent =>
      obtain ⟨rfl, _, _⟩ := makeExtent?_eq_some made
      have touched : OnlyTouches (dataKey database header.collector thread) store
          ((access database).write store handle) := OnlyTouches.write _ store handle
      have cachesHere : ((access database).write store handle).theCache.Caches
          (dataKey database header.collector thread) pairs := caches
      apply wlp_addIdentifier rfl (by rw [here]; exact handleLevel.nonempty) cachesHere
      · intro after touchedAfter kept committableAfter holds
        rw [here] at kept committableAfter
        apply inserted after (touched.trans touchedAfter) (handleLevel.of_eq kept.stack)
          (kept.working.trans working) (kept.committed.trans committed)
          (committableAfter.trans committable)
        rw [← rows]
        exact holds
      · intro error front back after touchedAfter kept empty split partway holds
        rw [here] at kept
        apply partly error front back after (touched.trans touchedAfter)
          (handleLevel.of_eq kept.stack) (kept.working.trans working)
          (kept.committed.trans committed) empty _ partway holds
        rw [← rows]
        exact split
  · exact failed

theorem wlp_recordStored (database : DatabasePtr) (blob : Blob) (store : Store)
    (post : Unit → Store → Prop) (raised : DatabaseException → Store → Prop) :
    (recordStored database blob).wlp post raised store ↔ post () ((access database).write store
        { store.handles database with
          dmDatabase := { (store.handles database).dmDatabase with
            working := (store.handles database).dmDatabase.working.record blob } }) := by
  simp [recordStored]

theorem wlp_storePerformanceData {blob : Blob}
    {start : Handle Tables} (startEq : start = store.handles database)
    (nested : start.dmTransaction ≠ []) (caches : ∀ key, ∃ pairs, store.theCache.Caches key pairs)
    (ignored : ∀ after, accepted? blob reply.canonicalName start.dmDatabase.working = none →
      (∀ other, other ≠ database → after.handles other = store.handles other) →
      after.theCache = store.theCache →
      Inside start (after.handles database) (start.dmDatabase.working.record blob) →
      (after.handles database).dmIsCommittable = start.dmIsCommittable → post () after)
    (inserted : ∀ after header thread tables pairs,
      accepted? blob reply.canonicalName start.dmDatabase.working = some (header, thread) →
      tables = start.dmDatabase.working.insertData (dataRow header thread blob.data) →
      store.theCache.Caches (dataKey database header.collector thread) pairs →
      OnlyTouches (dataKey database header.collector thread) store after →
      Inside start (after.handles database) (tables.record blob) →
      (after.handles database).dmIsCommittable = start.dmIsCommittable →
      after.theCache.Caches (dataKey database header.collector thread)
        (filledPairs pairs (tables.dataOf header.collector thread) ++ [(toInteger tables.lastInsertRowid,
            ⟨⟨header.timeBegin, header.timeEnd⟩, ⟨header.addrBegin, header.addrEnd⟩⟩)]) →
      post () after) (failed : ∀ error after,
      (∀ other, other ≠ database → after.handles other = store.handles other) →
      after.theCache = store.theCache → Inside start (after.handles database) start.dmDatabase.working →
      (after.handles database).dmIsCommittable = false → raised error after)
    (partly : ∀ error after header thread tables front back,
      accepted? blob reply.canonicalName start.dmDatabase.working = some (header, thread) →
      tables = start.dmDatabase.working.insertData (dataRow header thread blob.data) →
      store.theCache.Caches (dataKey database header.collector thread) [] →
      OnlyTouches (dataKey database header.collector thread) store after →
      Inside start (after.handles database) tables → (after.handles database).dmIsCommittable = false →
      tables.dataOf header.collector thread = front ++ back →
      front = [] ∨ (reply.fill.query.failureAt front.length).isSome →
      after.theCache.Caches (dataKey database header.collector thread)
        (front.map DataRow.pair) → raised error after) :
    (storePerformanceData database blob reply).wlp post raised store := by
  unfold storePerformanceData
  apply wlp_transaction_nested _ (startEq ▸ rfl) nested
  rw [Store.access_read, ← startEq]
  have level : AtLevel start.dmTransaction (begunNested start) := ⟨[], rfl⟩
  -- An exception raised before the entry exists.
  have failedInside : ∀ error handle, AtLevel start.dmTransaction handle →
      Unchanged (begunNested start) handle →
      AtLevel start.dmTransaction ((access database).read ((access database).write store handle)) ∧
        raised error ((access database).write ((access database).write store handle)
          { closed start.dmTransaction
              ((access database).read ((access database).write store handle)) with
            dmIsCommittable := false }) := by
    intro error handle handleLevel same
    simp only [read_write_simp, write_write_simp]
    refine ⟨handleLevel, failed error _ ?_ rfl ?_ (by simp)⟩
    · intro other different
      simp [Function.update_of_ne different]
    · exact ⟨by simp [closed], by simpa [closed, begunNested] using same.committed,
        by simpa [closed, begunNested] using same.working⟩
  cases headerEq : blob.header with
  | none => exact (wlp_abort _ _ _).mpr trivial
  | some header =>
    simp only [wlp_bind]
    apply wlp_queryLast _ (by simpa using level)
    · intro counted countedLevel countedSame
      rw [read_write_simp] at countedSame
      rw [read_write_simp, write_write_simp, wlp_bind]
      apply wlp_findThread countedLevel countedSame
      · intro found foundLevel foundSame
        have working : (begunNested start).dmDatabase.working = start.dmDatabase.working := rfl
        rw [working]
        have counted_ : [start.dmDatabase.working.collectors.count header.collector].getLastD 0 =
            start.dmDatabase.working.collectors.count header.collector := rfl
        rw [counted_]
        cases ignoreEq : (decide (header.addrBegin ≥ header.addrEnd) ||
          decide (header.timeBegin ≥ header.timeEnd) ||
            start.dmDatabase.working.collectors.count header.collector != 1 ||
            threadOf header reply.canonicalName start.dmDatabase.working == 0) with
        | true =>
          have notAccepted : accepted? blob reply.canonicalName start.dmDatabase.working = none := by
            simp only [accepted?, headerEq, Option.bind_eq_bind, Option.bind_some, ignoreEq, if_true]
          simp only [Bool.not_true, Bool.false_eq_true, if_false, wlp_recordStored]
          simp only [Store.access_write_handles, Function.update_self, Store.access_read, write_write_simp]
          refine ⟨foundLevel, ignored _ notAccepted ?_ rfl ?_ ?_⟩
          · intro other different
            simp [Function.update_of_ne different]
          · constructor
            · simp [closed]
            · simpa [closed, begunNested] using foundSame.committed
            · simp [closed, foundSame.working, begunNested]
          · simpa [closed, begunNested] using foundSame.committable
        | false =>
          have isAccepted : accepted? blob reply.canonicalName start.dmDatabase.working =
              some (header, threadOf header reply.canonicalName start.dmDatabase.working) := by
            simp only [accepted?, headerEq, Option.bind_eq_bind, Option.bind_some, ignoreEq,
              Bool.false_eq_true, if_false]
          simp only [Bool.not_false, if_true, wlp_bind]
          generalize threadEq :
            threadOf header reply.canonicalName start.dmDatabase.working = thread at isAccepted
          obtain ⟨pairs, holds⟩ := caches (dataKey database header.collector thread)
          have here : ((access database).write store found).handles database = found := by
            simp
          have tablesEq : found.dmDatabase.working.insertData
              (dataRow header thread blob.data) =
              start.dmDatabase.working.insertData (dataRow header thread blob.data) := by
            rw [foundSame.working, working]
          have touched : OnlyTouches (dataKey database header.collector thread) store
              ((access database).write store found) := OnlyTouches.write _ store found
          have holdsHere : ((access database).write store found).theCache.Caches
              (dataKey database header.collector thread) pairs := holds
          have levelHere : AtLevel start.dmTransaction
              (((access database).write store found).handles database) := by
            rw [here]
            exact foundLevel
          apply wlp_insertPerformanceData levelHere holdsHere (by rw [here, tablesEq])
          · intro after touchedAfter levelAfter workingAfter committedAfter committableAfter cachesAfter
            rw [here] at committedAfter committableAfter
            simp only [wlp_recordStored, Store.access_write_handles, Function.update_self,
              Store.access_read, write_write_simp]
            refine ⟨levelAfter, inserted _ header thread _ pairs isAccepted rfl holds
              ((touched.trans touchedAfter).trans (OnlyTouches.write _ after _)) ?_ ?_
              cachesAfter⟩
            · constructor
              · simp [closed]
              · simpa [closed, begunNested] using committedAfter.trans foundSame.committed
              · simp [closed, workingAfter]
            · simpa [closed, begunNested] using committableAfter.trans foundSame.committable
          · intro error handle handleLevel same
            rw [here] at same
            rw [write_write_simp]
            exact failedInside error handle handleLevel (foundSame.trans same)
          · intro error front back after touchedAfter levelAfter workingAfter committedAfter
              empty split partway cachesAfter
            rw [here] at committedAfter
            refine ⟨levelAfter, partly error _ header thread _ front back isAccepted rfl
              (empty ▸ holds) ((touched.trans touchedAfter).trans (OnlyTouches.write _ after _))
              ?_ (by simp) split partway cachesAfter⟩
            constructor
            · simp [closed]
            · simpa [closed, begunNested] using committedAfter.trans foundSame.committed
            · simpa [closed] using workingAfter
      · exact failedInside
    · intro error handle handleLevel handleSame
      rw [read_write_simp] at handleSame
      rw [write_write_simp]
      exact failedInside error handle handleLevel handleSame

end DataQueues

end OpenSpeedShop
