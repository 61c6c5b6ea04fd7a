import OpenSpeedShop.Framework.DataQueues

/-!
What becomes of the queued blobs when a store throws during a flush: the queue
that is being flushed loses the blobs that were stored and popped before it.
-/

namespace OpenSpeedShop.DataQueues

open Procedure DataCache
open Database (issue closed)
open Process (access)

def storedIn (process : Process) (database : DatabasePtr) : List Blob :=
  (process.store.handles database).dmDatabase.committed.stored

def queueOf (process : Process) (identifier : Int) : List Blob :=
  (process.identifierToQueue[identifier]?).getD []

def NoneLost (before after : Process) : Prop :=
  ∀ (identifier : Int) (database : DatabasePtr),
    before.identifierToDatabase[identifier]? = some database → ∀ blob,
      (queueOf before identifier).count blob + (storedIn before database).count blob ≤
        (queueOf after identifier).count blob + (storedIn after database).count blob

def Balanced (before after : Process) : Prop :=
  SameMaps before after ∧ ∀ (identifier : Int) (database : DatabasePtr),
    before.identifierToDatabase[identifier]? = some database → ∀ blob,
      (queueOf after identifier).count blob + (storedIn after database).count blob =
        (queueOf before identifier).count blob + (storedIn before database).count blob

def FirstStoreThrows (process : Process) (database : DatabasePtr) (reply : FlushReply)
    (queue : List Blob) : Prop :=
  ∃ blob rest error failed, queue = blob :: rest ∧ (do
      (Process.access database).call (Database.beginTransaction true reply.transaction.begun)
      storeFront database blob (reply.store 0)) process = .thrown error failed

def FailsAtFirstIn (replies : Int → FlushReply) : List Int → Process → Prop
  | [], _ => False
  | identifier :: rest, process =>
    match flushIdentifier identifier (replies identifier) process with
    | .returned _ middle => FailsAtFirstIn replies rest middle
    | _ => ∃ database, process.identifierToDatabase[identifier]? = some database ∧
        FirstStoreThrows process database (replies identifier) (queueOf process identifier)

def FailsAtFirst (process : Process) : Call → Prop
  | .flushDatabase database reply | .removeDatabase database reply =>
    ∃ identifier, process.databaseToIdentifier[database]? = some identifier ∧
      FirstStoreThrows process database reply (queueOf process identifier)
  | .flushPerformanceData replies =>
    FailsAtFirstIn replies process.identifierToQueue.keys process
  | _ => False

structure Ready (process : Process) : Prop where
  consistent : Consistent process
  idle : ∀ database, (process.store.handles database).dmTransaction = []
  caches : ∀ key, ∃ pairs, process.store.theCache.Caches key pairs

structure Within (database : DatabasePtr) (before after : Store) : Prop where
  others : ∀ other, other ≠ database → after.handles other = before.handles other
  stack : (after.handles database).dmTransaction = (before.handles database).dmTransaction
  committed : (after.handles database).dmDatabase.committed = (before.handles database).dmDatabase.committed
  caches : ∀ key, ∃ pairs, after.theCache.Caches key pairs

variable {database : DatabasePtr}

theorem Within.trans {first second third : Store}
    (one : Within database first second) (two : Within database second third) : Within database first third :=
  ⟨fun other different => (two.others other different).trans (one.others other different),
    two.stack.trans one.stack, two.committed.trans one.committed, two.caches⟩

theorem wlp_storeInside {blob : Blob} {reply : StoreReply}
    {store : Store} (nested : (store.handles database).dmTransaction ≠ [])
    (caches : ∀ key, ∃ pairs, store.theCache.Caches key pairs) :
    (storePerformanceData database blob reply).wlp (fun _ after => Within database store after ∧
        (after.handles database).dmDatabase.working.stored =
          (store.handles database).dmDatabase.working.stored ++ [blob] ∧
        (after.handles database).dmIsCommittable = (store.handles database).dmIsCommittable)
      (fun _ after => Within database store after) store := by
  have touchedCaches : ∀ {key : Entry × Entry} {after : Store} {pairs : List (Int × Extent)},
      OnlyTouches key store after → after.theCache.Caches key pairs →
      ∀ other, ∃ pairs, after.theCache.Caches other pairs := by
    intro key after pairs touched here other
    by_cases same : other = key
    · exact ⟨pairs, same ▸ here⟩
    · obtain ⟨known, cachesKnown⟩ := caches other
      exact ⟨known, cachesKnown.of_sameGroup (touched.groups other same)⟩
  apply wlp_storePerformanceData rfl nested caches
  · intro after _ others cache inside committable
    exact ⟨⟨others, inside.stack, inside.committed, cache ▸ caches⟩, by rw [inside.working]; rfl, committable⟩
  · intro after header thread tables pairs _ tablesEq _ touched inside committable cachesAfter
    refine ⟨⟨touched.handles, inside.stack, inside.committed,
      touchedCaches touched cachesAfter⟩, ?_, committable⟩
    rw [inside.working, tablesEq]
    rfl
  · intro error after others cache inside _
    exact ⟨others, inside.stack, inside.committed, cache ▸ caches⟩
  · intro error after header thread tables front back _ _ _ touched inside _ _ _ cachesAfter
    exact ⟨touched.handles, inside.stack, inside.committed, touchedCaches touched cachesAfter⟩

variable {identifier : Int}

theorem wlp_storeQueue_inside {reply : Nat → StoreReply} :
    ∀ (queue : List Blob) (stored : Nat) (process : Process),
    process.identifierToQueue[identifier]? = some queue →
    (process.store.handles database).dmTransaction ≠ [] →
    (∀ key, ∃ pairs, process.store.theCache.Caches key pairs) →
    (storeQueue database identifier reply queue stored).wlp
      (fun _ after => LeftWith identifier [] process after ∧ Within database process.store after.store ∧
        (after.store.handles database).dmDatabase.working.stored =
          (process.store.handles database).dmDatabase.working.stored ++ queue ∧
        (after.store.handles database).dmIsCommittable = (process.store.handles database).dmIsCommittable)
      (fun _ after => ∃ front back, queue = front ++ back ∧
        LeftWith identifier back process after ∧ Within database process.store after.store ∧
        (front = [] ↔ ∃ blob rest error failed, queue = blob :: rest ∧
          storeFront database blob (reply stored) process = .thrown error failed)) process := by
  intro queue
  induction queue with
  | nil =>
    intro stored process present nested caches
    rw [storeQueue, wlp_pure]
    exact ⟨LeftWith.refl present, ⟨fun _ _ => rfl, rfl, rfl, caches⟩, by simp, rfl⟩
  | cons blob rest ih =>
    intro stored process present nested caches
    have front : (storeFront database blob (reply stored)).wlp
        (fun _ after => LeftWith identifier (blob :: rest) process after ∧
          Within database process.store after.store ∧
          (after.store.handles database).dmDatabase.working.stored =
            (process.store.handles database).dmDatabase.working.stored ++ [blob] ∧
          (after.store.handles database).dmIsCommittable = (process.store.handles database).dmIsCommittable)
        (fun _ after => LeftWith identifier (blob :: rest) process after ∧
          Within database process.store after.store) process := by
      rw [storeFront, wlp_bind, wlp_modify, onStore, wlp_within]
      apply wlp_mono (wlp_storeInside nested caches)
      · rintro _ after ⟨inside, storedAfter, committable⟩
        exact ⟨⟨rfl, rfl, rfl, present, fun _ _ => rfl⟩, inside, storedAfter, committable⟩
      · rintro error after inside
        exact ⟨⟨rfl, rfl, rfl, present, fun _ _ => rfl⟩, inside⟩
    rw [storeQueue, wlp_bind]
    apply wlp_intro
    · intro _ middle returned
      obtain ⟨left, inside, storedMiddle, committableMiddle⟩ := wlp_of_returned front returned
      have notThrown : ¬∃ blob' rest' error failed, blob :: rest = blob' :: rest' ∧
          storeFront database blob' (reply stored) process = .thrown error failed := by
        rintro ⟨blob', rest', error, failed, same, thrown⟩
        cases same
        rw [returned] at thrown
        cases thrown
      rw [wlp_bind, wlp_modify]
      have popped := @LeftWith.pop _ _ rest _ _ left
      have nestedMiddle : (middle.store.handles database).dmTransaction ≠ [] := by
        rw [inside.stack]
        exact nested
      apply wlp_mono (ih (stored + 1) _ popped.queue nestedMiddle inside.caches)
      · rintro _ after ⟨leftAfter, insideAfter, storedAfter, committableAfter⟩
        refine ⟨popped.trans leftAfter, inside.trans insideAfter, ?_, committableAfter.trans committableMiddle⟩
        rw [storedAfter, storedMiddle, List.append_assoc]
        rfl
      · rintro error after ⟨front', back, split, leftAfter, insideAfter, _⟩
        refine ⟨blob :: front', back, by rw [split]; rfl, popped.trans leftAfter,
          inside.trans insideAfter, fun none => ?_, fun thrown => absurd thrown notThrown⟩
        cases none
    · intro error after thrown
      obtain ⟨left, inside⟩ := wlp_of_thrown front thrown
      exact ⟨[], blob :: rest, rfl, left, inside,
        fun _ => ⟨blob, rest, error, after, rfl, thrown⟩, fun _ => rfl⟩

theorem Balanced.noneLost {first second third : Process} (balanced : Balanced first second) :
    NoneLost first third ↔ NoneLost second third := by
  obtain ⟨⟨_, _, maps⟩, counts⟩ := balanced
  constructor
  · intro noneLost identifier database owner blob
    rw [maps] at owner
    rw [counts identifier database owner blob]
    exact noneLost identifier database owner blob
  · intro noneLost identifier database owner blob
    rw [← counts identifier database owner blob]
    exact noneLost identifier database (maps ▸ owner) blob

theorem Balanced.trans {first second third : Process} (one : Balanced first second)
    (two : Balanced second third) : Balanced first third := by
  obtain ⟨mapsOne, countsOne⟩ := one
  obtain ⟨mapsTwo, countsTwo⟩ := two
  refine ⟨⟨mapsTwo.1.trans mapsOne.1, mapsTwo.2.1.trans mapsOne.2.1, mapsTwo.2.2.trans mapsOne.2.2⟩, ?_⟩
  intro identifier database owner blob
  have early := countsOne identifier database owner blob
  have late := countsTwo identifier database (mapsOne.2.2 ▸ owner) blob
  exact late.trans early

theorem Balanced.refl (process : Process) : Balanced process process :=
  ⟨⟨rfl, rfl, rfl⟩, fun _ _ _ _ => rfl⟩

theorem queueOf_eq {process : Process} {queue : List Blob}
    (present : process.identifierToQueue[identifier]? = some queue) : queueOf process identifier = queue := by
  simp [queueOf, present]

variable {before after : Process}

theorem Balanced.of_stored {queue : List Blob}
    (consistent : Consistent before) (present : before.identifierToQueue[identifier]? = some queue)
    (owner : before.identifierToDatabase[identifier]? = some database)
    (left : LeftWith identifier [] before after)
    (others : ∀ other, other ≠ database → storedIn after other = storedIn before other)
    (stored : storedIn after database = storedIn before database ++ queue) : Balanced before after := by
  refine ⟨⟨left.nextIdentifier, left.databaseToIdentifier, left.identifierToDatabase⟩, ?_⟩
  intro found foundDatabase foundOwner blob
  by_cases same : found = identifier
  · subst same
    rw [owner, Option.some.injEq] at foundOwner
    subst foundOwner
    rw [queueOf_eq left.queue, queueOf_eq present, stored, List.count_append]
    simp [Nat.add_comm]
  · have apart : foundDatabase ≠ database := by
      intro sameDatabase
      have one := (consistent.inverse _ _).mpr foundOwner
      have two := (consistent.inverse _ _).mpr owner
      rw [sameDatabase, two, Option.some.injEq] at one
      exact same one.symm
    rw [others _ apart, queueOf, queueOf, left.others found same]

theorem noneLost_iff_front_empty {queue front back : List Blob} (split : queue = front ++ back)
    (present : before.identifierToQueue[identifier]? = some queue)
    (owner : before.identifierToDatabase[identifier]? = some database)
    (left : LeftWith identifier back before after)
    (stored : ∀ database, storedIn after database = storedIn before database) :
    NoneLost before after ↔ front = [] := by
  constructor
  · intro noneLost
    cases front with
    | nil => rfl
    | cons blob rest =>
      have count := noneLost identifier database owner blob
      rw [queueOf_eq present, queueOf_eq left.queue, stored, split, List.cons_append,
        List.count_cons_self, List.count_append] at count
      omega
  · rintro rfl found foundDatabase _ blob
    rw [stored]
    by_cases same : found = identifier
    · rw [same, queueOf_eq present, queueOf_eq left.queue, split, List.nil_append]
    · rw [queueOf, queueOf, left.others found same]

theorem Ready.of_flush {queue back : List Blob} (ready : Ready before)
    (present : before.identifierToQueue[identifier]? = some queue)
    (left : LeftWith identifier back before after) (subset : ∀ blob ∈ back, blob ∈ queue)
    (others : ∀ other, other ≠ database → after.store.handles other = before.store.handles other)
    (idle : (after.store.handles database).dmTransaction = [])
    (caches : ∀ key, ∃ pairs, after.store.theCache.Caches key pairs) : Ready after := by
  refine ⟨left.consistent ready.consistent present subset, fun other => ?_, caches⟩
  by_cases same : other = database
  · rw [same]
    exact idle
  · rw [others other same]
    exact ready.idle other

def Begun (database : DatabasePtr) (process begun : Process) : Prop :=
  ∃ command, (command = .beginExclusive ∨ command = .beginDeferred) ∧
    begun = (Process.access database).write process
      (Database.begunOutermost command (process.store.handles database))

theorem wlp_begin {reply : BeginReply} {process : Process}
    (idle : (process.store.handles database).dmTransaction = []) :
    ((access database).call (Database.beginTransaction true reply)).wlp
      (fun _ begun => Begun database process begun) (fun _ _ => False) process := by
  rw [Access.wlp_call]
  apply Database.wlp_beginTransaction_outermost idle
  exact fun command either => ⟨command, either, rfl⟩

section

variable {database : DatabasePtr} {identifier : Int} {process begun : Process}
  (began : Begun database process begun)

include began

theorem Begun.stack : (begun.store.handles database).dmTransaction = [none] := by
  obtain ⟨command, -, rfl⟩ := began
  exact congrArg Handle.dmTransaction ((access database).read_write process _)

theorem Begun.committable : (begun.store.handles database).dmIsCommittable = true := by
  obtain ⟨command, -, rfl⟩ := began
  exact congrArg Handle.dmIsCommittable ((access database).read_write process _)

theorem Begun.stored : (begun.store.handles database).dmDatabase.working.stored = storedIn process database ∧
      (begun.store.handles database).dmDatabase.committed.stored = storedIn process database := by
  obtain ⟨command, either, rfl⟩ := began
  have handle := (access database).read_write process
    (Database.begunOutermost command (process.store.handles database))
  have working := congrArg (fun handle => handle.dmDatabase.working.stored) handle
  have committed := congrArg (fun handle => handle.dmDatabase.committed.stored) handle
  refine ⟨working.trans ?_, committed.trans ?_⟩ <;> rcases either with rfl | rfl <;> rfl

theorem Begun.others {other : DatabasePtr} (different : other ≠ database) :
    begun.store.handles other = process.store.handles other := by
  obtain ⟨command, -, rfl⟩ := began
  exact Function.update_of_ne different _ _

theorem Begun.caches (ready : Ready process) : ∀ key, ∃ pairs, begun.store.theCache.Caches key pairs := by
  obtain ⟨command, -, rfl⟩ := began
  exact ready.caches

theorem Begun.queue {queue : List Blob} (present : process.identifierToQueue[identifier]? = some queue) :
    begun.identifierToQueue[identifier]? = some queue := by
  obtain ⟨command, -, rfl⟩ := began
  exact present

variable {after : Process}

theorem Begun.leftWith {back : List Blob}
    (left : LeftWith identifier back begun after) : LeftWith identifier back process after := by
  obtain ⟨command, -, rfl⟩ := began
  exact ⟨left.nextIdentifier, left.databaseToIdentifier, left.identifierToDatabase, left.queue, left.others⟩

theorem Begun.ended (ready : Ready process) {queue back : List Blob}
    (present : process.identifierToQueue[identifier]? = some queue)
    (left : LeftWith identifier back begun after)
    (within : Within database begun.store after.store) (subset : ∀ blob ∈ back, blob ∈ queue)
    {handle : Handle Tables} (idle : handle.dmTransaction = []) :
    Ready ((access database).write after handle) ∧
      LeftWith identifier back process ((access database).write after handle) ∧ ∀ other, other ≠ database →
        storedIn ((access database).write after handle) other = storedIn process other := by
  have same : ∀ other, other ≠ database →
      ((access database).write after handle).store.handles other = process.store.handles other := by
    intro other different
    have kept := (within.others other different).trans (began.others different)
    exact (Function.update_of_ne different _ _).trans kept
  have leftEnded : LeftWith identifier back process ((access database).write after handle) := by
    have whole := began.leftWith left
    exact ⟨whole.1, whole.2, whole.3, whole.4, whole.5⟩
  refine ⟨ready.of_flush present leftEnded subset same ?_ within.caches, leftEnded, ?_⟩
  · have wrote := (access database).read_write after handle
    exact (congrArg Handle.dmTransaction wrote).trans idle
  · intro other different
    rw [storedIn, same other different, storedIn]

theorem Begun.commits (ready : Ready process) {queue : List Blob}
    (present : process.identifierToQueue[identifier]? = some queue)
    (owner : process.identifierToDatabase[identifier]? = some database)
    (left : LeftWith identifier [] begun after) (within : Within database begun.store after.store)
    (stored : (after.store.handles database).dmDatabase.working.stored =
      (begun.store.handles database).dmDatabase.working.stored ++ queue)
    {ended : Process} (endedEq : ended = (access database).write after
      (issue .commit (closed [] (after.store.handles database)))) : Ready ended ∧ Balanced process ended := by
  subst endedEq
  obtain ⟨readyAfter, leftAfter, storedOthers⟩ := began.ended ready present left within
    (by simp)
    (show (issue .commit (closed []
      (after.store.handles database))).dmTransaction = [] from rfl)
  refine ⟨readyAfter, Balanced.of_stored ready.consistent present owner leftAfter storedOthers ?_⟩
  have wrote := (access database).read_write after
    (issue .commit (closed [] (after.store.handles database)))
  have committed := congrArg (fun handle => handle.dmDatabase.committed.stored) wrote
  rw [← began.stored.1, ← stored]
  exact committed

theorem Begun.rollsBack (ready : Ready process) {queue front back : List Blob}
    (split : queue = front ++ back) (present : process.identifierToQueue[identifier]? = some queue)
    (owner : process.identifierToDatabase[identifier]? = some database)
    (left : LeftWith identifier back begun after) (within : Within database begun.store after.store)
    {ended : Process} (endedEq : ended = (access database).write after
      (issue .rollback (closed [] (after.store.handles database)))) :
    Ready ended ∧ (NoneLost process ended ↔ front = []) := by
  subst endedEq
  obtain ⟨readyAfter, leftAfter, storedOthers⟩ := began.ended ready present left within
    (fun _ member => split ▸ List.mem_append_right front member)
    (show (issue .rollback (closed []
      (after.store.handles database))).dmTransaction = [] from rfl)
  refine ⟨readyAfter, noneLost_iff_front_empty split present owner leftAfter fun other => ?_⟩
  by_cases same : other = database
  · subst same
    have wrote := (access other).read_write after
      (issue .rollback (closed [] (after.store.handles other)))
    have committed := congrArg (fun handle => handle.dmDatabase.committed.stored) wrote
    exact committed.trans ((congrArg Tables.stored within.committed).trans began.stored.2)
  · exact storedOthers other same

end

variable {reply : FlushReply}

theorem wlp_flushQueue_ready {queue : List Blob} {process : Process} (ready : Ready process)
    (present : process.identifierToQueue[identifier]? = some queue)
    (owner : process.identifierToDatabase[identifier]? = some database) :
    (flushQueue database identifier queue reply).wlp
      (fun _ after => Ready after ∧ Balanced process after) (fun _ after => Ready after ∧
        (NoneLost process after ↔ FirstStoreThrows process database reply queue)) process := by
  unfold flushQueue
  split
  · exact ⟨ready, Balanced.refl process⟩
  rename_i nonempty
  have begins := @wlp_begin database reply.transaction.begun process (ready.idle database)
  unfold Access.transaction
  rw [wlp_onException, wlp_bind]
  apply wlp_intro
  · intro _ begun ran
    have began := wlp_of_returned begins ran
    have firstThrows : FirstStoreThrows process database reply queue ↔
        ∃ blob rest error failed, queue = blob :: rest ∧
          storeFront database blob (reply.store 0) begun = .thrown error failed := by
      simp only [FirstStoreThrows, bind_apply, ran]
    have inside := @wlp_storeQueue_inside database identifier reply.store queue 0 begun
      (began.queue present) (by simp [began.stack]) (began.caches ready)
    rw [wlp_bind]
    apply wlp_mono inside
    · rintro _ after ⟨left, within, stored, committable⟩
      have level : Database.AtLevel [] (after.store.handles database) :=
        ⟨[], within.stack.trans began.stack⟩
      have allowed : (after.store.handles database).dmIsCommittable = true :=
        committable.trans began.committable
      rw [wlp_bind, Access.wlp_call]
      apply Database.wlp_commitTransaction level
      · exact fun outer => absurd rfl outer
      · intro _
        rw [wlp_pure]
        refine began.commits ready present owner left within stored ?_
        rw [allowed, if_pos rfl]
    · rintro error after ⟨front, back, split, left, within, first⟩
      have level : Database.AtLevel [] (after.store.handles database) :=
        ⟨[], within.stack.trans began.stack⟩
      rw [Access.wlp_call]
      apply Database.wlp_rollbackTransaction level
      · exact fun outer => absurd rfl outer
      · intro _
        rw [firstThrows, ← first]
        exact began.rollsBack ready split present owner left within rfl
  · intro error failed ran
    exact absurd (wlp_of_thrown begins ran) id

theorem wlp_flushIdentifier_ready {process : Process} (ready : Ready process) :
    (flushIdentifier identifier reply).wlp (fun _ after => Ready after ∧ Balanced process after)
      (fun _ after => Ready after ∧ (NoneLost process after ↔
        ∃ database, process.identifierToDatabase[identifier]? = some database ∧
          FirstStoreThrows process database reply (queueOf process identifier))) process := by
  rw [flushIdentifier, wlp_bind, wlp_get]
  cases present : process.identifierToQueue[identifier]? with
  | none => exact (wlp_abort _ _ _).mpr trivial
  | some queue =>
    cases owner : process.identifierToDatabase[identifier]? with
    | none =>
      have both := ready.consistent.queues identifier
      simp [present, owner] at both
    | some database =>
      apply wlp_mono (wlp_flushQueue_ready ready present owner)
      · exact fun _ _ flushed => flushed
      · rintro error after ⟨readyAfter, exactly⟩
        refine ⟨readyAfter, ?_⟩
        simpa only [Option.some.injEq, exists_eq_left', queueOf_eq present] using exactly

theorem wlp_flushQueues_ready {replies : Int → FlushReply} :
    ∀ (identifiers : List Int) (process : Process), Ready process →
    (flushQueues replies identifiers).wlp (fun _ after => Ready after ∧ Balanced process after)
      (fun _ after => Ready after ∧
        (NoneLost process after ↔ FailsAtFirstIn replies identifiers process)) process := by
  intro identifiers
  induction identifiers with
  | nil =>
    intro process ready
    exact ⟨ready, Balanced.refl process⟩
  | cons identifier rest ih =>
    intro process ready
    have first := @wlp_flushIdentifier_ready identifier (replies identifier) process ready
    rw [flushQueues, wlp_bind]
    apply wlp_intro
    · intro _ middle ran
      obtain ⟨readyMiddle, balanced⟩ := wlp_of_returned first ran
      simp only [FailsAtFirstIn, ran, balanced.noneLost]
      apply wlp_mono (ih middle readyMiddle)
      · rintro _ after ⟨readyAfter, balancedAfter⟩
        exact ⟨readyAfter, balanced.trans balancedAfter⟩
      · exact fun _ _ flushed => flushed
    · intro error after ran
      simp only [FailsAtFirstIn, ran]
      have result := wlp_of_thrown first ran
      exact result

theorem wlp_flushDatabase_ready {process : Process} (ready : Ready process) :
    (flushDatabase database reply).wlp (fun _ after => Ready after) (fun _ after => Ready after ∧
        (NoneLost process after ↔ FailsAtFirst process (.flushDatabase database reply))) process := by
  simp only [flushDatabase, wlp_bind, wlp_assert, wlp_get]
  intro _
  cases known : process.databaseToIdentifier[database]? with
  | none => exact (wlp_abort _ _ _).mpr trivial
  | some identifier =>
    have owner := (ready.consistent.inverse database identifier).mp known
    dsimp only
    cases present : process.identifierToQueue[identifier]? with
    | none => exact (wlp_abort _ _ _).mpr trivial
    | some queue =>
      apply wlp_mono (wlp_flushQueue_ready ready present owner)
      · exact fun _ after flushed => flushed.1
      · rintro error after ⟨readyAfter, exactly⟩
        refine ⟨readyAfter, ?_⟩
        simpa only [FailsAtFirst, known, Option.some.injEq, exists_eq_left', queueOf_eq present] using exactly

theorem Ready.of_store (ready : Ready before)
    (consistent : Consistent after) (same : after.store = before.store) : Ready after :=
  ⟨consistent, same ▸ ready.idle, same ▸ ready.caches⟩

theorem perform_ready {process : Process} (ready : Ready process) (call : Call) :
    call.perform.wlp (fun _ after => Ready after) (fun _ after => Ready after ∧
      (NoneLost process after ↔ FailsAtFirst process call)) process := by
  have consistentAfter : ∀ after, call.perform process = .returned () after → Consistent after := by
    intro after ran
    have stepped : call.stepReturned process = some after := by
      simp [Call.stepReturned, ran]
    exact (Call.stepped ready.consistent stepped).consistent
  cases call with
  | addDatabase database =>
    have safe : (addDatabase database).wlp (fun _ after => after.store = process.store)
        (fun _ _ => False) process := by
      simp [addDatabase, wlp_bind, wlp_assert, wlp_get, wlp_modify]
    apply wlp_intro
    · intro _ after ran
      have same := wlp_of_returned safe ran
      exact ready.of_store (consistentAfter after ran) same
    · exact fun error after ran => absurd (wlp_of_thrown safe ran) id
  | removeDatabase database reply =>
    have safe : (removeDatabase database reply).wlp
        (fun _ after => ∃ flushed, Ready flushed ∧ after.store = flushed.store)
        (fun _ after => Ready after ∧
          (NoneLost process after ↔ FailsAtFirst process (.removeDatabase database reply)))
        process := by
      simp only [removeDatabase, wlp_bind, wlp_assert, wlp_get]
      intro _ _
      apply wlp_mono (wlp_flushDatabase_ready ready)
      · exact fun _ flushed readyFlushed => ⟨flushed, readyFlushed, rfl⟩
      · exact fun _ _ lost => lost
    apply wlp_intro
    · intro _ after ran
      obtain ⟨flushed, readyFlushed, same⟩ := wlp_of_returned safe ran
      exact readyFlushed.of_store (consistentAfter after ran) same
    · intro error after ran
      have lost := wlp_of_thrown safe ran
      exact lost
  | enqueuePerformanceData blob =>
    have safe : (enqueuePerformanceData blob).wlp (fun _ after => after.store = process.store)
        (fun _ _ => False) process := by
      unfold enqueuePerformanceData
      cases blob.header with
      | none => exact (wlp_abort _ _ _).mpr trivial
      | some header =>
        rw [wlp_modify]
        split <;> rfl
    apply wlp_intro
    · intro _ after ran
      have same := wlp_of_returned safe ran
      exact ready.of_store (consistentAfter after ran) same
    · exact fun error after ran => absurd (wlp_of_thrown safe ran) id
  | flushDatabase database reply => exact wlp_flushDatabase_ready ready
  | flushPerformanceData replies =>
    rw [Call.perform, flushPerformanceData, wlp_bind, wlp_get]
    apply wlp_mono (wlp_flushQueues_ready process.identifierToQueue.keys process ready)
    · exact fun _ after flushed => flushed.1
    · exact fun _ _ lost => lost

theorem initial_ready (name : DatabasePtr → String) (contents : DatabasePtr → Tables) :
    Ready (Process.initial (Store.opened name contents)) :=
  ⟨initial_consistent _, fun _ => rfl, fun key => ⟨[], ExtentTable.caches_empty key⟩⟩

theorem step_ready {process next : Process} {call : Call} (ready : Ready process)
    (stepped : call.step process = some next) : Ready next := by
  apply wlp_state? _ stepped
  apply wlp_mono (perform_ready ready call)
  · exact fun _ _ returned => returned
  · exact fun _ _ thrown => thrown.1

/-- After any run, a flush that throws loses nothing exactly when it fails at the
first blob of the queue that it was flushing. -/
theorem flush_noneLost_iff {name : DatabasePtr → String} {contents : DatabasePtr → Tables}
    {calls : List Call} {process : Process}
    (ran : Runs.run Call.step (Process.initial (Store.opened name contents)) calls = some process)
    {call : Call} {error : DatabaseException} {after : Process}
    (thrown : call.perform process = .thrown error after) :
    NoneLost process after ↔ FailsAtFirst process call := by
  have ready : Ready process :=
    Runs.run_invariant Ready (initial_ready name contents) (fun _ _ _ => step_ready) ran
  exact (wlp_of_thrown (perform_ready ready call) thrown).2

def refusing (place : Nat) : FlushReply where
  transaction := quietFlush.transaction
  store stored :=
    if stored = place then { quietStore with insert := ⟨.ok, some (0, .readOnly), .ok⟩ }
    else quietStore

def twoQueued : Option Process :=
  Runs.run Call.step (Process.initial sampleStore)
    [.addDatabase 1, .enqueuePerformanceData sampleBlob, .enqueuePerformanceData sampleBlob]

theorem flush_noneLost_iff_refusingFirst :
    ∃ process error after, twoQueued = some process ∧
      flushDatabase 1 (refusing 0) process = .thrown error after ∧ NoneLost process after := by
  have evaluated : twoQueued.map (fun process =>
      ((queueOf process 0), process.databaseToIdentifier[(1 : DatabasePtr)]?,
        (match flushDatabase 1 (refusing 0) process with
        | .thrown _ _ => true
        | _ => false),
        (match (do
            (Process.access 1).call (Database.beginTransaction true .ok)
            storeFront 1 sampleBlob ((refusing 0).store 0)) process with
        | .thrown _ _ => true
        | _ => false))) = some ([sampleBlob, sampleBlob], some 0, true, true) := by
    decide +kernel
  obtain ⟨process, ran, evaluated⟩ := Option.map_eq_some_iff.mp evaluated
  obtain ⟨queue, known, throws, first⟩ : _ ∧ _ ∧ _ ∧ _ := by
    simpa only [Prod.mk.injEq] using evaluated
  cases flushed : flushDatabase 1 (refusing 0) process with
  | returned value after => simp [flushed] at throws
  | aborted => simp [flushed] at throws
  | thrown error after =>
    refine ⟨process, error, after, ran, flushed, ?_⟩
    have lost := @flush_noneLost_iff _ _ _ process ran (.flushDatabase 1 (refusing 0)) error after flushed
    apply lost.mpr
    refine ⟨0, known, sampleBlob, [sampleBlob], ?_⟩
    split at first
    · rename_i error failed stored
      exact ⟨error, failed, queue, stored⟩
    · cases first

theorem secondStore_throws_firstLost :
    ∃ process error after, twoQueued = some process ∧
      flushDatabase 1 (refusing 1) process = .thrown error after ∧
      (queueOf process 0).count sampleBlob = 2 ∧ (queueOf after 0).count sampleBlob = 1 ∧
      storedIn after 1 = [] ∧ ¬NoneLost process after := by
  have evaluated : twoQueued.map (fun process =>
      (queueOf process 0, process.identifierToDatabase[(0 : Int)]?,
        (match flushDatabase 1 (refusing 1) process with
        | .thrown _ after => some (queueOf after 0, storedIn after 1)
        | _ => none))) =
      some ([sampleBlob, sampleBlob], some 1, some ([sampleBlob], [])) := by
    decide +kernel
  obtain ⟨process, ran, evaluated⟩ := Option.map_eq_some_iff.mp evaluated
  obtain ⟨queue, owner, throws⟩ : _ ∧ _ ∧ _ := by
    simpa only [Prod.mk.injEq] using evaluated
  cases flushed : flushDatabase 1 (refusing 1) process with
  | returned value after => simp [flushed] at throws
  | aborted => simp [flushed] at throws
  | thrown error after =>
    simp only [flushed, Option.some.injEq, Prod.mk.injEq] at throws
    refine ⟨process, error, after, ran, flushed, by simp [queue], by simp [throws.1], throws.2, ?_⟩
    intro noneLost
    have count := noneLost 0 1 owner sampleBlob
    rw [queue, throws.1, throws.2] at count
    simp only [List.count_cons_self, List.count_nil] at count
    omega

end OpenSpeedShop.DataQueues
