import OpenSpeedShop.Framework.DataCache
import OpenSpeedShop.Framework.DataQueuesCore

/-!
The data queues over whole runs: the maps agree, and every blob enqueued under a known identifier is
handed to its database once, in the order of arrival.
-/

namespace OpenSpeedShop.DataQueues

open Procedure DataCache

variable {process : Process}

variable {post raised : Process → Prop}

theorem wlp_onStore {Value : Type} {act : DataCache.Act Value}
    (kept : ∀ store, post { process with store := store })
    (keptRaised : ∀ store, raised { process with store := store }) :
    (onStore act).wlp (fun _ => post) (fun _ => raised) process := by
  rw [onStore, wlp_within]
  unfold Procedure.wlp
  cases act process.store with
  | returned value store => exact kept store
  | thrown error store => exact keptRaised store
  | aborted => trivial

variable {database : DatabasePtr}

theorem wlp_transaction {willModify : Bool} {reply : MacroReply} {body : Act Unit}
    (kept : ∀ after store, post after → post { after with store := store })
    (keptRaised : ∀ after store, raised after → raised { after with store := store })
    (weaken : ∀ after, post after → raised after)
    (notBegun : ∀ store, raised { process with store := store })
    (ran : ∀ store, body.wlp (fun _ => post) (fun _ => raised) { process with store := store }) :
    ((Process.access database).transaction willModify reply body).wlp
      (fun _ => post) (fun _ => raised) process := by
  apply Access.wlp_transaction_frame _ _ weaken
  · exact fun _ => notBegun _
  · exact fun _ => ran _
  · exact fun after _ => kept after _
  · exact fun after _ => keptRaised after _

structure LeftWith (identifier : Int) (back : List Blob) (before after : Process) : Prop where
  nextIdentifier : after.nextIdentifier = before.nextIdentifier
  databaseToIdentifier : after.databaseToIdentifier = before.databaseToIdentifier
  identifierToDatabase : after.identifierToDatabase = before.identifierToDatabase
  queue : after.identifierToQueue[identifier]? = some back
  others : ∀ other, other ≠ identifier → after.identifierToQueue[other]? = before.identifierToQueue[other]?

variable {identifier : Int}

variable {queue : List Blob}

theorem LeftWith.refl (present : process.identifierToQueue[identifier]? = some queue) :
    LeftWith identifier queue process process :=
  ⟨rfl, rfl, rfl, present, fun _ _ => rfl⟩

theorem LeftWith.trans {middle back : List Blob} {first second third : Process}
    (one : LeftWith identifier middle first second) (two : LeftWith identifier back second third) :
    LeftWith identifier back first third :=
  ⟨two.nextIdentifier.trans one.nextIdentifier,
    two.databaseToIdentifier.trans one.databaseToIdentifier,
    two.identifierToDatabase.trans one.identifierToDatabase, two.queue,
    fun other different => (two.others other different).trans (one.others other different)⟩

theorem LeftWith.pop {queue rest : List Blob} {before after : Process}
    (left : LeftWith identifier queue before after) : LeftWith identifier rest before
      { after with identifierToQueue := after.identifierToQueue.insert identifier rest } := by
  refine ⟨left.nextIdentifier, left.databaseToIdentifier, left.identifierToDatabase, ?_, ?_⟩
  · simp
  · intro other different
    have apart : ¬identifier = other := fun same => different same.symm
    simpa [Std.TreeMap.getElem?_insert, apart] using left.others other different

theorem wlp_storeQueue {reply : Nat → StoreReply} : ∀ (queue : List Blob) (stored : Nat) (process : Process),
    process.identifierToQueue[identifier]? = some queue →
    (storeQueue database identifier reply queue stored).wlp
      (fun _ after => LeftWith identifier [] process after ∧
        after.handed = process.handed ++ queue.map fun blob => (database, blob))
      (fun _ after => ∃ front back, queue = front ++ back ∧
        LeftWith identifier back process after) process := by
  intro queue
  induction queue with
  | nil =>
    intro stored process present
    simp only [storeQueue, wlp_pure]
    exact ⟨LeftWith.refl present, by simp⟩
  | cons blob rest ih =>
    intro stored process present
    have kept : ∀ store, LeftWith identifier (blob :: rest) process
        { process with handed := process.handed ++ [(database, blob)], store := store } :=
      fun _ => ⟨rfl, rfl, rfl, present, fun _ _ => rfl⟩
    rw [storeQueue, wlp_bind, storeFront, wlp_bind, wlp_modify]
    apply wlp_onStore
    · intro store
      rw [wlp_bind, wlp_modify]
      have popped := @LeftWith.pop _ _ rest _ _ (kept store)
      apply wlp_mono (ih (stored + 1) _ popped.queue)
      · rintro _ after ⟨left, handed⟩
        refine ⟨popped.trans left, ?_⟩
        rw [handed]
        simp
      · rintro error after ⟨front, back, split, left⟩
        exact ⟨blob :: front, back, by rw [split]; rfl, popped.trans left⟩
    · intro store
      exact ⟨[], blob :: rest, rfl, kept store⟩

variable {reply : FlushReply}

theorem wlp_flushQueue (present : process.identifierToQueue[identifier]? = some queue) :
    (flushQueue database identifier queue reply).wlp (fun _ after => LeftWith identifier [] process after ∧
        after.handed = process.handed ++ queue.map fun blob => (database, blob))
      (fun _ after => ∃ front back, queue = front ++ back ∧
        LeftWith identifier back process after) process := by
  unfold flushQueue
  split
  · rename_i empty
    obtain rfl := List.isEmpty_iff.mp empty
    exact ⟨LeftWith.refl present, by simp⟩
  · apply wlp_transaction
    · rintro after store ⟨left, handed⟩
      exact ⟨⟨left.1, left.2, left.3, left.4, left.5⟩, handed⟩
    · rintro after store ⟨front, back, split, left⟩
      exact ⟨front, back, split, ⟨left.1, left.2, left.3, left.4, left.5⟩⟩
    · rintro after ⟨left, _⟩
      exact ⟨queue, [], by simp, left⟩
    · exact fun store => ⟨[], queue, rfl, ⟨rfl, rfl, rfl, present, fun _ _ => rfl⟩⟩
    · intro store
      apply wlp_mono (wlp_storeQueue queue 0 { process with store := store } present)
      · rintro _ after ⟨left, handed⟩
        exact ⟨⟨left.1, left.2, left.3, left.4, left.5⟩, handed⟩
      · rintro error after ⟨front, back, split, left⟩
        exact ⟨front, back, split, ⟨left.1, left.2, left.3, left.4, left.5⟩⟩

def experiment? (blob : Blob) : Option Int := blob.header.map DataHeader.experiment

structure Consistent (process : Process) : Prop where
  inverse : ∀ (database : DatabasePtr) (identifier : Int),
    process.databaseToIdentifier[database]? = some identifier ↔
      process.identifierToDatabase[identifier]? = some database
  queues : ∀ identifier : Int, (process.identifierToQueue[identifier]?).isSome =
    (process.identifierToDatabase[identifier]?).isSome
  range : ∀ (identifier : Int) (database : DatabasePtr), process.identifierToDatabase[identifier]? = some database →
    database ≠ 0 ∧ 0 ≤ identifier ∧ identifier < process.nextIdentifier
  sorted : ∀ (identifier : Int) (queue : List Blob), process.identifierToQueue[identifier]? = some queue →
    ∀ blob ∈ queue, experiment? blob = some identifier
  started : 0 ≤ process.nextIdentifier

def pending (process : Process) (identifier : Int) : List (DatabasePtr × Blob) :=
  match process.identifierToDatabase[identifier]? with
  | some database =>
    ((process.identifierToQueue[identifier]?).getD []).map fun blob => (database, blob)
  | none => []

def handedUnder (process : Process) (identifier : Int) : List (DatabasePtr × Blob) :=
  process.handed.filter fun entry => experiment? entry.2 = some identifier

def SameMaps (before after : Process) : Prop :=
  after.nextIdentifier = before.nextIdentifier ∧
    after.databaseToIdentifier = before.databaseToIdentifier ∧
    after.identifierToDatabase = before.identifierToDatabase

def Conserves (before after : Process) (added : Int → List (DatabasePtr × Blob)) : Prop :=
  ∀ identifier, handedUnder after identifier ++ pending after identifier =
    handedUnder before identifier ++ pending before identifier ++ added identifier

def nothing : Int → List (DatabasePtr × Blob) := fun _ => []

theorem Conserves.trans {first second third : Process}
    (one : Conserves first second nothing) (two : Conserves second third nothing) :
    Conserves first third nothing := by
  intro identifier
  have early := one identifier
  have late := two identifier
  simp only [nothing, List.append_nil] at early late ⊢
  exact late.trans early

theorem LeftWith.consistent {queue back : List Blob} {before after : Process}
    (consistent : Consistent before) (left : LeftWith identifier back before after)
    (present : before.identifierToQueue[identifier]? = some queue)
    (subset : ∀ blob ∈ back, blob ∈ queue) : Consistent after := by
  constructor
  · rw [left.databaseToIdentifier, left.identifierToDatabase]
    exact consistent.inverse
  · intro other
    rw [left.identifierToDatabase, ← consistent.queues other]
    by_cases same : other = identifier
    · rw [same, left.queue, present]
      rfl
    · rw [left.others other same]
  · rw [left.identifierToDatabase, left.nextIdentifier]
    exact consistent.range
  · intro other found here blob member
    by_cases same : other = identifier
    · rw [same, left.queue, Option.some.injEq] at here
      rw [same]
      exact consistent.sorted identifier queue present blob (subset blob (here ▸ member))
    · rw [left.others other same] at here
      exact consistent.sorted other found here blob member
  · rw [left.nextIdentifier]
    exact consistent.started

theorem flushed_conserves {before after : Process} (consistent : Consistent before)
    (present : before.identifierToQueue[identifier]? = some queue)
    (owner : before.identifierToDatabase[identifier]? = some database)
    (left : LeftWith identifier [] before after)
    (handed : after.handed = before.handed ++ queue.map fun blob => (database, blob)) :
    Conserves before after nothing := by
  intro other
  have under := consistent.sorted identifier queue present
  simp only [nothing, List.append_nil, handedUnder, handed, List.filter_append, pending,
    left.identifierToDatabase]
  by_cases same : other = identifier
  · subst same
    have all : (queue.map fun blob => (database, blob)).filter
        (fun entry => experiment? entry.2 = some other) =
        queue.map fun blob => (database, blob) := by
      apply List.filter_eq_self.mpr
      intro entry member
      obtain ⟨blob, inQueue, rfl⟩ := List.mem_map.mp member
      simpa using under blob inQueue
    simp [all, owner, left.queue, present]
  · have none : (queue.map fun blob => (database, blob)).filter
        (fun entry => experiment? entry.2 = some other) = [] := by
      apply List.filter_eq_nil_iff.mpr
      intro entry member
      obtain ⟨blob, inQueue, rfl⟩ := List.mem_map.mp member
      simpa [under blob inQueue] using fun here => same here.symm
    rw [none, List.append_nil, left.others other same]

structure Flushed (identifiers : List Int) (before after : Process) : Prop where
  maps : SameMaps before after
  consistent : Consistent after
  conserves : Conserves before after nothing
  emptied : ∀ identifier ∈ identifiers, after.identifierToQueue[identifier]? = some []
  others : ∀ identifier : Int, identifier ∉ identifiers →
    after.identifierToQueue[identifier]? = before.identifierToQueue[identifier]?

theorem wlp_flushQueue_flushed
    (consistent : Consistent process) (present : process.identifierToQueue[identifier]? = some queue)
    (owner : process.identifierToDatabase[identifier]? = some database) :
    (flushQueue database identifier queue reply).wlp
      (fun _ => Flushed [identifier] process) (fun _ _ => True) process := by
  apply wlp_mono (wlp_flushQueue present)
  · rintro _ after ⟨left, handed⟩
    constructor
    · exact ⟨left.nextIdentifier, left.databaseToIdentifier, left.identifierToDatabase⟩
    · exact left.consistent consistent present (by simp)
    · exact flushed_conserves consistent present owner left handed
    · intro other member
      rw [List.mem_singleton.mp member]
      exact left.queue
    · intro other outside
      exact left.others other (fun same => outside (by simp [same]))
  · exact fun _ _ _ => trivial

theorem wlp_flushDatabase (consistent : Consistent process) :
    (flushDatabase database reply).wlp (fun _ after => ∃ identifier,
        process.databaseToIdentifier[database]? = some identifier ∧
        Flushed [identifier] process after) (fun _ _ => True) process := by
  simp only [flushDatabase, wlp_bind, wlp_assert, wlp_get]
  intro _
  cases known : process.databaseToIdentifier[database]? with
  | none => exact (wlp_abort _ _ _).mpr trivial
  | some identifier =>
    have owner := (consistent.inverse database identifier).mp known
    dsimp only
    cases present : process.identifierToQueue[identifier]? with
    | none => exact (wlp_abort _ _ _).mpr trivial
    | some queue =>
      apply wlp_mono (wlp_flushQueue_flushed consistent present owner)
      · exact fun _ after flushed => ⟨identifier, rfl, flushed⟩
      · exact fun _ _ _ => trivial

theorem wlp_flushQueues {replies : Int → FlushReply} :
    ∀ (identifiers : List Int) (process : Process), Consistent process →
    (flushQueues replies identifiers).wlp (fun _ => Flushed identifiers process)
      (fun _ _ => True) process := by
  intro identifiers
  induction identifiers with
  | nil =>
    intro process consistent
    simp only [flushQueues, wlp_pure]
    exact ⟨⟨rfl, rfl, rfl⟩, consistent, fun _ => by simp [nothing], by simp, fun _ _ => rfl⟩
  | cons identifier rest ih =>
    intro process consistent
    simp only [flushQueues, flushIdentifier, wlp_bind, wlp_get]
    cases present : process.identifierToQueue[identifier]? with
    | none => exact (wlp_abort _ _ _).mpr trivial
    | some queue =>
      cases owner : process.identifierToDatabase[identifier]? with
      | none =>
        have both := consistent.queues identifier
        simp [present, owner] at both
      | some database =>
        apply wlp_mono (wlp_flushQueue_flushed consistent present owner)
        · intro _ middle first
          apply wlp_mono (ih middle first.consistent)
          · intro _ after later
            constructor
            · exact ⟨later.maps.1.trans first.maps.1, later.maps.2.1.trans first.maps.2.1,
                later.maps.2.2.trans first.maps.2.2⟩
            · exact later.consistent
            · exact first.conserves.trans later.conserves
            · intro other member
              by_cases again : other ∈ rest
              · exact later.emptied other again
              · rw [later.others other again]
                exact first.emptied other (by simpa [again] using member)
            · intro other outside
              simp only [List.mem_cons, not_or] at outside
              rw [later.others other outside.2]
              exact first.others other (by simpa using outside.1)
          · exact fun _ _ _ => trivial
        · exact fun _ _ _ => trivial

def acceptedBy (process : Process) (identifier : Int) : Call → List (DatabasePtr × Blob)
  | .enqueuePerformanceData blob =>
    if experiment? blob = some identifier then
      (process.identifierToDatabase[identifier]?).toList.map fun database => (database, blob)
    else []
  | _ => []

structure Stepped (before : Process) (call : Call) (after : Process) : Prop where
  consistent : Consistent after
  conserves : Conserves before after fun identifier => acceptedBy before identifier call
  grows : before.nextIdentifier ≤ after.nextIdentifier
  assigns : ∀ database, call = .addDatabase database →
    getDatabaseIdentifier database after = before.nextIdentifier ∧ before.nextIdentifier < after.nextIdentifier

theorem not_queued (consistent : Consistent process)
    (unknown : process.identifierToDatabase[identifier]? = none) :
    process.identifierToQueue[identifier]? = none := by
  have both := consistent.queues identifier
  cases found : process.identifierToQueue[identifier]? with
  | none => rfl
  | some queue => simp [found, unknown] at both

theorem add_stepped (consistent : Consistent process) :
    (addDatabase database).wlp (fun _ => Stepped process (.addDatabase database))
      (fun _ _ => True) process := by
  simp only [addDatabase, wlp_bind, wlp_assert, wlp_get, wlp_modify, decide_eq_true_eq]
  intro nonnull unknown bounded
  rw [Option.isNone_iff_eq_none] at unknown
  have fresh : process.identifierToDatabase[process.nextIdentifier]? = none := by
    cases found : process.identifierToDatabase[process.nextIdentifier]? with
    | none => rfl
    | some owner => exact absurd (consistent.range _ owner found).2.2 (lt_irrefl _)
  constructor
  · constructor
    · intro other identifier
      simp only [Std.TreeMap.getElem?_insert, Std.LawfulEqCmp.compare_eq_iff_eq]
      by_cases sameDatabase : database = other
      · by_cases sameIdentifier : process.nextIdentifier = identifier
        · simp [sameDatabase, sameIdentifier]
        · simp only [sameDatabase, if_true, sameIdentifier, if_false, Option.some.injEq, false_iff]
          intro owner
          have known := (consistent.inverse other identifier).mpr owner
          rw [← sameDatabase, unknown] at known
          cases known
      · by_cases sameIdentifier : process.nextIdentifier = identifier
        · simp only [sameDatabase, if_false, sameIdentifier, if_true, Option.some.injEq, iff_false]
          intro known
          have owner := (consistent.inverse other identifier).mp known
          rw [← sameIdentifier, fresh] at owner
          cases owner
        · simpa only [sameDatabase, sameIdentifier, if_false] using consistent.inverse other identifier
    · intro identifier
      simp only [Std.TreeMap.getElem?_insert, Std.LawfulEqCmp.compare_eq_iff_eq]
      by_cases same : process.nextIdentifier = identifier
      · simp [same]
      · simpa only [same, if_false] using consistent.queues identifier
    · intro identifier owner
      simp only [Std.TreeMap.getElem?_insert, Std.LawfulEqCmp.compare_eq_iff_eq]
      by_cases same : process.nextIdentifier = identifier
      · simp only [same, if_true, Option.some.injEq]
        rintro rfl
        have started := consistent.started
        exact ⟨nonnull, by omega, by omega⟩
      · simp only [same, if_false]
        intro found
        obtain ⟨owned, lower, upper⟩ := consistent.range identifier owner found
        exact ⟨owned, lower, by omega⟩
    · intro identifier queue
      simp only [Std.TreeMap.getElem?_insert, Std.LawfulEqCmp.compare_eq_iff_eq]
      by_cases same : process.nextIdentifier = identifier
      · simp only [same, if_true, Option.some.injEq]
        rintro rfl blob member
        cases member
      · simp only [same, if_false]
        exact consistent.sorted identifier queue
    · have started := consistent.started
      simp only
      omega
  · intro identifier
    simp only [acceptedBy, List.append_nil, handedUnder, pending, Std.TreeMap.getElem?_insert,
      Std.LawfulEqCmp.compare_eq_iff_eq]
    by_cases same : process.nextIdentifier = identifier
    · subst same
      simp [fresh]
    · simp only [same, if_false]
  · simp
  · rintro other same
    cases same
    simp [getDatabaseIdentifier]

theorem Flushed.stepped {identifiers : List Int} {before after : Process} {call : Call}
    (flushed : Flushed identifiers before after)
    (accepts : ∀ identifier, acceptedBy before identifier call = [])
    (other : ∀ database, call ≠ .addDatabase database) : Stepped before call after := by
  constructor
  · exact flushed.consistent
  · intro identifier
    simp only [accepts identifier]
    exact flushed.conserves identifier
  · exact flushed.maps.1.ge
  · intro database same
    exact absurd same (other database)

theorem erase_stepped (consistent : Consistent process)
    (known : process.databaseToIdentifier[database]? = some identifier)
    (emptied : process.identifierToQueue[identifier]? = some []) {after : Process}
    (afterEq : after = { process with
      databaseToIdentifier := process.databaseToIdentifier.erase database
      identifierToDatabase := process.identifierToDatabase.erase identifier
      identifierToQueue := process.identifierToQueue.erase identifier }) :
    Consistent after ∧ Conserves process after nothing := by
  subst afterEq
  have owner := (consistent.inverse database identifier).mp known
  constructor
  · constructor
    · intro other index
      simp only [Std.TreeMap.getElem?_erase, Std.LawfulEqCmp.compare_eq_iff_eq]
      by_cases sameDatabase : database = other
      · by_cases sameIdentifier : identifier = index
        · simp [sameDatabase, sameIdentifier]
        · simp only [sameDatabase, if_true, sameIdentifier, if_false, false_iff, reduceCtorEq]
          intro owned
          have again := (consistent.inverse other index).mpr owned
          rw [← sameDatabase, known, Option.some.injEq] at again
          exact sameIdentifier again
      · by_cases sameIdentifier : identifier = index
        · simp only [sameDatabase, if_false, sameIdentifier, if_true, iff_false, reduceCtorEq]
          intro again
          have owned := (consistent.inverse other index).mp again
          rw [← sameIdentifier, owner, Option.some.injEq] at owned
          exact sameDatabase owned
        · simpa only [sameDatabase, sameIdentifier, if_false] using consistent.inverse other index
    · intro index
      simp only [Std.TreeMap.getElem?_erase, Std.LawfulEqCmp.compare_eq_iff_eq]
      by_cases same : identifier = index
      · simp [same]
      · simpa only [same, if_false] using consistent.queues index
    · intro index other
      simp only [Std.TreeMap.getElem?_erase, Std.LawfulEqCmp.compare_eq_iff_eq]
      by_cases same : identifier = index
      · simp [same]
      · simpa only [same, if_false] using consistent.range index other
    · intro index queue
      simp only [Std.TreeMap.getElem?_erase, Std.LawfulEqCmp.compare_eq_iff_eq]
      by_cases same : identifier = index
      · simp [same]
      · simpa only [same, if_false] using consistent.sorted index queue
    · exact consistent.started
  · intro index
    simp only [nothing, List.append_nil, handedUnder, pending, Std.TreeMap.getElem?_erase,
      Std.LawfulEqCmp.compare_eq_iff_eq]
    by_cases same : identifier = index
    · subst same
      simp [owner, emptied]
    · simp only [same, if_false]

theorem remove_stepped (consistent : Consistent process) :
    (removeDatabase database reply).wlp (fun _ => Stepped process (.removeDatabase database reply))
      (fun _ _ => True) process := by
  simp only [removeDatabase, wlp_bind, wlp_assert, wlp_get]
  intro _ _
  apply wlp_mono (wlp_flushDatabase consistent)
  · rintro _ after ⟨identifier, known, flushed⟩
    rw [wlp_modify]
    have knownAfter : after.databaseToIdentifier[database]? = some identifier := by
      rw [flushed.maps.2.1]
      exact known
    obtain ⟨consistentErased, conserves⟩ := erase_stepped flushed.consistent knownAfter
      (flushed.emptied identifier (by simp)) rfl
    simp only [knownAfter, Option.getD_some]
    constructor
    · exact consistentErased
    · exact flushed.conserves.trans conserves
    · exact flushed.maps.1.ge
    · intro other same
      cases same
  · exact fun _ _ _ => trivial

theorem enqueue_stepped {blob : Blob} (consistent : Consistent process) :
    (enqueuePerformanceData blob).wlp (fun _ => Stepped process (.enqueuePerformanceData blob))
      (fun _ _ => True) process := by
  unfold enqueuePerformanceData
  cases decoded : blob.header with
  | none => exact (wlp_abort _ _ _).mpr trivial
  | some header =>
    rw [wlp_modify]
    have under : experiment? blob = some header.experiment := by simp [experiment?, decoded]
    cases present : process.identifierToQueue[header.experiment]? with
    | none =>
      have unknown : process.identifierToDatabase[header.experiment]? = none := by
        have both := consistent.queues header.experiment
        rw [present] at both
        cases owner : process.identifierToDatabase[header.experiment]? with
        | none => rfl
        | some database => simp [owner] at both
      refine ⟨consistent, ?_, le_refl _, fun _ same => nomatch same⟩
      intro identifier
      by_cases here : header.experiment = identifier
      · simp [acceptedBy, ← here, unknown]
      · simp [acceptedBy, under, here]
    | some queue =>
      have known : ∃ database, process.identifierToDatabase[header.experiment]? = some database := by
        have both := consistent.queues header.experiment
        rw [present] at both
        exact Option.isSome_iff_exists.mp both.symm
      obtain ⟨database, owner⟩ := known
      have queued (identifier : Int) :
          (process.identifierToQueue.insert header.experiment (queue ++ [blob]))[identifier]? =
            if header.experiment = identifier then some (queue ++ [blob])
            else process.identifierToQueue[identifier]? := by
        simp [Std.TreeMap.getElem?_insert]
      refine ⟨?_, ?_, le_refl _, fun _ same => nomatch same⟩
      · constructor
        · exact consistent.inverse
        · intro identifier
          simp only [queued]
          split
          · rename_i here
            rw [← here, owner]
            rfl
          · exact consistent.queues identifier
        · exact consistent.range
        · intro identifier found
          simp only [queued]
          split
          · rename_i here
            rintro ⟨⟩ entry member
            rcases List.mem_append.mp member with old | new
            · exact here ▸ consistent.sorted header.experiment queue present entry old
            · rw [List.mem_singleton.mp new, under, here]
          · exact consistent.sorted identifier found
        · exact consistent.started
      · intro identifier
        simp only [acceptedBy, handedUnder, pending, queued, under, Option.some.injEq]
        by_cases here : header.experiment = identifier
        · simp [← here, owner, present]
        · simp [here]

variable {process after : Process}

theorem Call.stepped {call : Call} (consistent : Consistent process)
    (ran : call.stepReturned process = some after) : Stepped process call after := by
  have safe : call.perform.wlp (fun _ => Stepped process call) (fun _ _ => True) process := by
    cases call with
    | addDatabase database => exact add_stepped consistent
    | removeDatabase database reply => exact remove_stepped consistent
    | enqueuePerformanceData blob => exact enqueue_stepped consistent
    | flushDatabase database reply =>
      apply wlp_mono (wlp_flushDatabase consistent)
      · rintro _ after ⟨identifier, _, flushed⟩
        exact flushed.stepped (fun _ => rfl) (fun _ same => Call.noConfusion same)
      · exact fun _ _ _ => trivial
    | flushPerformanceData replies =>
      simp only [Call.perform, DataQueues.flushPerformanceData, wlp_bind, wlp_get]
      apply wlp_mono (wlp_flushQueues _ process consistent)
      · exact fun _ after flushed =>
          flushed.stepped (fun _ => rfl) (fun _ same => Call.noConfusion same)
      · exact fun _ _ _ => trivial
  unfold Call.stepReturned at ran
  split at ran
  · rename_i value next returned
    cases ran
    have result := wlp_of_returned safe returned
    exact result
  · contradiction

/-- All blobs that a run enqueues under an identifier, each with the database
that owns the identifier when it is enqueued. -/
def accepted (identifier : Int) : Process → List Call → List (DatabasePtr × Blob)
  | _, [] => []
  | process, call :: rest =>
    acceptedBy process identifier call ++
      match call.stepReturned process with
      | some next => accepted identifier next rest
      | none => []

def assigned : Process → List Call → List Int
  | _, [] => []
  | process, call :: rest =>
    match call.stepReturned process with
    | some next =>
      match call with
      | .addDatabase database => getDatabaseIdentifier database next :: assigned next rest
      | _ => assigned next rest
    | none => []

theorem run_conserves : ∀ (calls : List Call) {process final : Process}, Consistent process →
    Runs.run (fun process call => Call.stepReturned process call) process calls = some final →
    Consistent final ∧ Conserves process final fun identifier => accepted identifier process calls := by
  intro calls
  induction calls with
  | nil =>
    intro process final consistent ran
    simp only [Runs.run_nil, Option.some.injEq] at ran
    subst final
    exact ⟨consistent, fun _ => by simp [accepted]⟩
  | cons call rest ih =>
    intro process final consistent ran
    rw [Runs.run_cons] at ran
    obtain ⟨next, first, remaining⟩ := Option.bind_eq_some_iff.mp ran
    have stepped := Call.stepped consistent first
    obtain ⟨consistentFinal, conserves⟩ := ih stepped.consistent remaining
    refine ⟨consistentFinal, fun identifier => ?_⟩
    rw [conserves identifier, stepped.conserves identifier]
    simp [accepted, first]

theorem assigned_increasing : ∀ (calls : List Call) {process : Process}, Consistent process →
    (assigned process calls).Pairwise (· < ·) ∧
      ∀ identifier ∈ assigned process calls, process.nextIdentifier ≤ identifier := by
  intro calls
  induction calls with
  | nil =>
    intro process _
    exact ⟨List.Pairwise.nil, by simp [assigned]⟩
  | cons call rest ih =>
    intro process consistent
    cases first : call.stepReturned process with
    | none => simp [assigned, first]
    | some next =>
      have stepped := Call.stepped consistent first
      obtain ⟨increasing, above⟩ := ih stepped.consistent
      have grows := stepped.grows
      cases call with
      | addDatabase database =>
        obtain ⟨identifier, later⟩ := stepped.assigns database rfl
        simp only [assigned, first, identifier, List.pairwise_cons, List.mem_cons, forall_eq_or_imp]
        refine ⟨⟨?_, increasing⟩, le_refl _, ?_⟩
        · intro other member
          have bound := above other member
          omega
        · intro other member
          have bound := above other member
          omega
      | removeDatabase | enqueuePerformanceData | flushDatabase | flushPerformanceData =>
        simp only [assigned, first]
        refine ⟨increasing, fun other member => ?_⟩
        have bound := above other member
        omega

theorem initial_consistent (store : Store) : Consistent (Process.initial store) := by
  constructor <;> simp [Process.initial]

theorem flushPerformanceData_empties {replies : Int → FlushReply} (consistent : Consistent process)
    (ran : flushPerformanceData replies process = .returned () after) (identifier : Int) :
    pending after identifier = [] := by
  have safe : (flushPerformanceData replies).wlp
      (fun _ => Flushed process.identifierToQueue.keys process) (fun _ _ => True) process := by
    simp only [flushPerformanceData, wlp_bind, wlp_get]
    exact wlp_flushQueues _ process consistent
  have flushed := wlp_of_returned safe ran
  unfold pending
  split
  · by_cases queued : identifier ∈ process.identifierToQueue.keys
    · simp [flushed.emptied identifier queued]
    · rw [flushed.others identifier queued, Std.TreeMap.getElem?_eq_none]
      · rfl
      · simpa using queued
  · rfl

theorem flushDatabase_empties
    (consistent : Consistent process) (ran : flushDatabase database reply process = .returned () after)
    (known : process.databaseToIdentifier[database]? = some identifier) : pending after identifier = [] := by
  obtain ⟨found, knownFound, flushed⟩ := wlp_of_returned (wlp_flushDatabase consistent) ran
  rw [known, Option.some.injEq] at knownFound
  subst knownFound
  unfold pending
  split
  · simp [flushed.emptied identifier (by simp)]
  · rfl

/-- Conservation over every run in which no store fails: what was handed over under an identifier and what
is still queued is what was enqueued, in order and with its owner. -/
theorem enqueued_handedOver {store : Store} {calls : List Call} {final : Process}
    (ran : Runs.run (fun process call => Call.stepReturned process call)
      (Process.initial store) calls = some final) :
    (∀ identifier, handedUnder final identifier ++ pending final identifier =
      accepted identifier (Process.initial store) calls) ∧
    (∀ replies after, flushPerformanceData replies final = .returned () after →
      ∀ identifier, pending after identifier = []) ∧
    (∀ database reply after identifier, flushDatabase database reply final = .returned () after →
      final.databaseToIdentifier[database]? = some identifier → pending after identifier = []) ∧
    Consistent final ∧
    (assigned (Process.initial store) calls).Pairwise (· < ·) ∧
    (∀ blob header, blob.header = some header →
      final.identifierToDatabase[header.experiment]? = none →
      enqueuePerformanceData blob final = .returned () final) := by
  have initial := initial_consistent store
  obtain ⟨consistent, conserves⟩ := run_conserves calls initial ran
  refine ⟨?_, ?_, ?_, consistent, (assigned_increasing calls initial).1, ?_⟩
  · intro identifier
    rw [conserves identifier]
    simp [handedUnder, pending, Process.initial]
  · exact fun replies after flushed => flushPerformanceData_empties consistent flushed
  · exact fun database reply after identifier flushed known =>
      flushDatabase_empties consistent flushed known
  · intro blob header decoded unknown
    simp only [enqueuePerformanceData, decoded, Procedure.modify, not_queued consistent unknown]

def quietFlush : FlushReply := ⟨quietFill.transaction, fun _ => quietStore⟩

theorem enqueued_handedOver_once :
    let calls : List Call := [.addDatabase 1, .enqueuePerformanceData sampleBlob,
      .flushPerformanceData fun _ => quietFlush, .enqueuePerformanceData sampleBlob]
    ∃ final, Runs.run (fun process call => Call.stepReturned process call)
        (Process.initial sampleStore) calls = some final ∧
      handedUnder final 0 ++ pending final 0 = [(1, sampleBlob), (1, sampleBlob)] := by
  intro calls
  have returns : (Runs.run (fun process call => Call.stepReturned process call)
      (Process.initial sampleStore) calls).isSome := by decide +kernel
  have both : accepted 0 (Process.initial sampleStore) calls =
      [(1, sampleBlob), (1, sampleBlob)] := by decide +kernel
  obtain ⟨final, ran⟩ := Option.isSome_iff_exists.mp returns
  exact ⟨final, ran, by rw [(enqueued_handedOver ran).1 0, both]⟩

end OpenSpeedShop.DataQueues
