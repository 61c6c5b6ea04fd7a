import OpenSpeedShop.Daemon.ThreadTableCore

/-!
The state of a thread is kept for its pointer alone. As long as nothing asks for a second name for a
thread the table is in order.
-/

namespace OpenSpeedShop.Daemon

open List (mem_map mem_map_of_mem map_map mem_singleton map_append mem_cons nodup_cons mem_append
  filter_map)

namespace ThreadTable

open EntryMap (lookup_eq_none)

/-- The two maps of names are inverse, and the maps of pointers have one entry for each
pointer with a name. -/
structure Good (table : ThreadTable) : Prop where
  inverse : ∀ thread ptr, (thread, ptr) ∈ table.dmNameToPtr ↔ (ptr, thread) ∈ table.dmPtrToNames
  onceByName : (table.dmNameToPtr.map Prod.fst).Nodup
  onceByPtr : table.dmPtrToNames.Nodup
  oneState : ∀ entry ∈ table.dmPtrToNames,
    (table.dmPtrToState.filter fun state => state.1 = entry.1).length = 1
  onePipes : ∀ entry ∈ table.dmPtrToNames,
    (table.dmPtrToPipes.filter fun pipes => pipes.1 = entry.1).length = 1
  oncePerExperiment : (table.dmPtrToNames.map fun entry => (entry.2.experiment, entry.1)).Nodup

structure Single (table : ThreadTable) : Prop where
  names : table.dmPtrToNames = table.dmNameToPtr.map Prod.swap
  pipes : table.dmPtrToPipes = table.dmNameToPtr.map fun entry => (entry.2, none)
  states : table.dmPtrToState.map Prod.fst = table.dmNameToPtr.map Prod.snd
  nodupNames : (table.dmNameToPtr.map Prod.fst).Nodup
  nodupPtrs : (table.dmNameToPtr.map Prod.snd).Nodup

theorem length_filter_key {Value : Type} {key : Nat} {entries : List (Nat × Value)}
    (nodup : (entries.map Prod.fst).Nodup) (member : key ∈ entries.map Prod.fst) :
    (entries.filter fun entry => entry.1 = key).length = 1 := by
  have once := List.count_eq_one_of_mem nodup member
  rw [List.count, List.countP_map, List.countP_eq_length_filter] at once
  rw [← once]
  congr 2

variable {table : ThreadTable}

theorem Single.good (single : Single table) : Good table := by
  have keys : table.dmPtrToNames.map Prod.fst = table.dmNameToPtr.map Prod.snd := by
    rw [single.names, map_map]
    rfl
  have nodup : (table.dmPtrToNames.map Prod.fst).Nodup := by
    rw [keys]
    exact single.nodupPtrs
  constructor
  · intro thread ptr
    rw [single.names, mem_map]
    constructor
    · exact fun member => ⟨(thread, ptr), member, rfl⟩
    · rintro ⟨⟨other, address⟩, member, same⟩
      cases same
      exact member
  · exact single.nodupNames
  · exact nodup.of_map _
  · intro entry member
    refine length_filter_key ?_ ?_
    · rw [single.states]
      exact single.nodupPtrs
    · rw [single.states, ← keys]
      exact mem_map_of_mem member
  · intro entry member
    have pipes : table.dmPtrToPipes.map Prod.fst = table.dmNameToPtr.map Prod.snd := by
      rw [single.pipes, map_map]
      rfl
    refine length_filter_key ?_ ?_
    · rw [pipes]
      exact single.nodupPtrs
    · rw [pipes, ← keys]
      exact mem_map_of_mem member
  · refine List.Nodup.of_map Prod.snd ?_
    rw [map_map]
    exact nodup

variable {thread : ThreadName}

theorem getPtr_isSome : (table.getPtr thread).isSome ↔ thread ∈ table.dmNameToPtr.map Prod.fst := by
  rw [getPtr, EntryMap.lookup_isSome]

structure Addable (table : ThreadTable) (targets : List (ThreadName × Nat)) : Prop where
  nodupNames : (targets.map Prod.fst).Nodup
  nodupPtrs : (targets.map Prod.snd).Nodup
  freshNames : ∀ target ∈ targets, target.1 ∉ table.dmNameToPtr.map Prod.fst
  freshPtrs : ∀ target ∈ targets, target.2 ∉ table.dmNameToPtr.map Prod.snd

def extend (table : ThreadTable) (targets : List (ThreadName × Nat)) : ThreadTable where
  dmNameToPtr := table.dmNameToPtr ++ targets
  dmPtrToNames := table.dmPtrToNames ++ targets.map Prod.swap
  dmPtrToPipes := table.dmPtrToPipes ++ targets.map fun target => (target.2, none)
  dmPtrToState := table.dmPtrToState ++ targets.map fun target => (target.2, .disconnected)

variable {targets : List (ThreadName × Nat)}

theorem Single.extend (single : Single table) (addable : Addable table targets) :
    Single (table.extend targets) := by
  constructor
  · simp [ThreadTable.extend, single.names]
  · simp [ThreadTable.extend, single.pipes]
  · simp [ThreadTable.extend, single.states]
  · rw [ThreadTable.extend, map_append]
    refine List.nodup_append.mpr ⟨single.nodupNames, addable.nodupNames, ?_⟩
    rintro name old other new rfl
    obtain ⟨target, member, rfl⟩ := mem_map.mp new
    exact addable.freshNames target member old
  · rw [ThreadTable.extend, map_append]
    refine List.nodup_append.mpr ⟨single.nodupPtrs, addable.nodupPtrs, ?_⟩
    rintro ptr old other new rfl
    obtain ⟨target, member, rfl⟩ := mem_map.mp new
    exact addable.freshPtrs target member old

variable {target : ThreadName × Nat}

theorem addable_cons {rest : List (ThreadName × Nat)} :
    Addable table (target :: rest) ↔ Addable table [target] ∧ Addable (table.extend [target]) rest := by
  constructor
  · intro addable
    have names := nodup_cons.mp addable.nodupNames
    have ptrs := nodup_cons.mp addable.nodupPtrs
    refine ⟨⟨by simp, by simp, ?_, ?_⟩, ⟨names.2, ptrs.2, ?_, ?_⟩⟩
    · intro other member
      exact addable.freshNames other (mem_cons.mpr (.inl (mem_singleton.mp member)))
    · intro other member
      exact addable.freshPtrs other (mem_cons.mpr (.inl (mem_singleton.mp member)))
    · intro other member known
      rw [extend, map_append, mem_append] at known
      rcases known with old | new
      · exact addable.freshNames other (by simp [member]) old
      · rw [List.map_singleton, mem_singleton] at new
        exact names.1 (new ▸ mem_map_of_mem member)
    · intro other member known
      rw [extend, map_append, mem_append] at known
      rcases known with old | new
      · exact addable.freshPtrs other (by simp [member]) old
      · rw [List.map_singleton, mem_singleton] at new
        exact ptrs.1 (new ▸ mem_map_of_mem member)
  · rintro ⟨first, others⟩
    have apart : ∀ other ∈ rest, other.1 ≠ target.1 ∧ other.2 ≠ target.2 := by
      intro other member
      have name := others.freshNames other member
      have ptr := others.freshPtrs other member
      simp only [extend, map_append, List.map_singleton, mem_append,
        mem_singleton, not_or] at name ptr
      exact ⟨name.2, ptr.2⟩
    refine ⟨nodup_cons.mpr ⟨?_, others.nodupNames⟩, nodup_cons.mpr ⟨?_, others.nodupPtrs⟩, ?_, ?_⟩
    · intro known
      obtain ⟨other, member, same⟩ := mem_map.mp known
      exact (apart other member).1 same
    · intro known
      obtain ⟨other, member, same⟩ := mem_map.mp known
      exact (apart other member).2 same
    · intro other member known
      rcases mem_cons.mp member with rfl | later
      · exact first.freshNames other (by simp) known
      · exact others.freshNames other later (by simp [extend, known])
    · intro other member known
      rcases mem_cons.mp member with rfl | later
      · exact first.freshPtrs other (by simp) known
      · exact others.freshPtrs other later (by simp [extend, known])

variable {table next : ThreadTable}

theorem Single.addThread_iff (single : Single table) : table.addThread target.1 target.2 none = some next ↔
      Addable table [target] ∧ next = table.extend [target] := by
  have keys : table.dmPtrToPipes.map Prod.fst = table.dmNameToPtr.map Prod.snd := by
    rw [single.pipes, map_map]
    rfl
  unfold addThread
  simp only [lookup_eq_none, single.states, keys]
  constructor
  · intro added
    split at added
    · rename_i fresh
      obtain ⟨name, -, -, ptr⟩ := fresh
      rw [if_pos ptr] at added
      cases added
      exact ⟨⟨by simp, by simp, by simpa using name, by simpa using ptr⟩, rfl⟩
    · cases added
  · rintro ⟨addable, rfl⟩
    have name := addable.freshNames target (by simp)
    have ptr := addable.freshPtrs target (by simp)
    have absent : (target.2, target.1) ∉ table.dmPtrToNames := by
      rw [single.names]
      intro member
      obtain ⟨entry, present, same⟩ := mem_map.mp member
      have first : entry.2 = target.2 := congrArg Prod.fst same
      exact ptr (first ▸ mem_map_of_mem present)
    rw [if_pos ⟨name, absent, Or.inl ptr, ptr⟩, if_pos ptr]
    rfl

theorem Single.addThreads_iff (single : Single table) :
    addThreads targets table = some next ↔ Addable table targets ∧ next = table.extend targets := by
  unfold addThreads
  induction targets generalizing table with
  | nil =>
    constructor
    · intro added
      cases added
      exact ⟨⟨by simp, by simp, by simp, by simp⟩, by simp [ThreadTable.extend]⟩
    · rintro ⟨-, rfl⟩
      simp [ThreadTable.extend]
  | cons target rest ih =>
    rw [List.foldlM_cons, addable_cons]
    constructor
    · intro added
      obtain ⟨middle, first, others⟩ := Option.bind_eq_some_iff.mp added
      obtain ⟨addable, rfl⟩ := single.addThread_iff.mp first
      obtain ⟨addableRest, rfl⟩ := (ih (single.extend addable)).mp others
      exact ⟨⟨addable, addableRest⟩, by simp [ThreadTable.extend]⟩
    · rintro ⟨⟨addable, addableRest⟩, rfl⟩
      refine Option.bind_eq_some_iff.mpr
        ⟨_, single.addThread_iff.mpr ⟨addable, rfl⟩, (ih (single.extend addable)).mpr ?_⟩
      exact ⟨addableRest, by simp [ThreadTable.extend]⟩

theorem Single.addThreads_isSome
    (single : Single table) : (addThreads targets table).isSome ↔ Addable table targets := by
  rw [Option.isSome_iff_exists]
  constructor
  · rintro ⟨next, added⟩
    exact (single.addThreads_iff.mp added).1
  · intro addable
    exact ⟨_, single.addThreads_iff.mpr ⟨addable, rfl⟩⟩

@[simp] theorem setThreadState_dmNameToPtr (state : ThreadState) (table : ThreadTable)
    (thread : ThreadName) : (setThreadState state table thread).dmNameToPtr = table.dmNameToPtr := by
  unfold setThreadState
  split <;> rfl

theorem Single.setThreadState (single : Single table) (state : ThreadState)
    (thread : ThreadName) : Single (setThreadState state table thread) := by
  unfold ThreadTable.setThreadState
  split
  · exact single
  · rename_i ptr _
    refine ⟨single.names, single.pipes, ?_, single.nodupNames, single.nodupPtrs⟩
    rw [← single.states, map_map]
    refine List.map_congr_left fun entry _ => ?_
    simp only [Function.comp_apply]
    split
    · rename_i same
      exact same.symm
    · rfl

@[simp] theorem threadsStateChanged_dmNameToPtr (table : ThreadTable) (threads : List ThreadName)
    (state : ThreadState) : (table.threadsStateChanged threads state).dmNameToPtr = table.dmNameToPtr := by
  unfold threadsStateChanged
  induction threads generalizing table with
  | nil => rfl
  | cons thread rest ih => rw [List.foldl_cons, ih, setThreadState_dmNameToPtr]

theorem Single.threadsStateChanged (single : Single table) (threads : List ThreadName) (state : ThreadState) :
    Single (table.threadsStateChanged threads state) := by
  unfold ThreadTable.threadsStateChanged
  induction threads generalizing table with
  | nil => exact single
  | cons thread rest ih => exact ih (single.setThreadState state thread)

theorem Single.removeThread_iff (single : Single table) {ptr : Nat} :
    (table.removeThread thread ptr).isSome ↔ (thread, ptr) ∈ table.dmNameToPtr := by
  have inverse := single.good.inverse thread ptr
  have pipes : table.dmPtrToPipes.map Prod.fst = table.dmNameToPtr.map Prod.snd := by
    rw [single.pipes, map_map]
    rfl
  unfold ThreadTable.removeThread
  simp only [ne_eq, lookup_eq_none, single.states, pipes, not_not]
  constructor
  · intro removed
    split at removed
    · rename_i known
      exact inverse.mpr known.2.1
    · cases removed
  · intro member
    rw [if_pos ⟨mem_map_of_mem member, inverse.mp member, mem_map_of_mem member,
      mem_map_of_mem member⟩]
    rfl

theorem Single.removeThread (single : Single table)
    {ptr : Nat} (removed : table.removeThread thread ptr = some next) : Single next := by
  have member : (thread, ptr) ∈ table.dmNameToPtr := by
    rw [← single.removeThread_iff, removed]
    rfl
  -- In a list of pairs without repetitions in either component, both components tell the pair.
  have byName : ∀ entry ∈ table.dmNameToPtr, entry.1 = thread ↔ entry = (thread, ptr) :=
    fun entry present => ⟨fun same => List.inj_on_of_nodup_map single.nodupNames present member same,
      fun same => by rw [same]⟩
  have byPtr : ∀ entry ∈ table.dmNameToPtr, entry.2 = ptr ↔ entry = (thread, ptr) :=
    fun entry present => ⟨fun same => List.inj_on_of_nodup_map single.nodupPtrs present member same,
      fun same => by rw [same]⟩
  have kept : table.dmNameToPtr.filter (fun entry => entry.2 ≠ ptr) =
      table.dmNameToPtr.filter fun entry => entry.1 ≠ thread :=
    List.filter_congr fun entry present => by simp [byName entry present, byPtr entry present]
  have names : table.dmPtrToNames.erase (ptr, thread) =
      (table.dmNameToPtr.filter fun entry => entry.1 ≠ thread).map Prod.swap := by
    rw [single.good.onceByPtr.erase_eq_filter, single.names, filter_map, ← kept]
    congr 1
    refine List.filter_congr fun entry present => ?_
    have swapped : entry.swap = (ptr, thread) ↔ entry = (thread, ptr) := by
      constructor
      · intro same
        rw [← Prod.swap_swap entry, same, Prod.swap_prod_mk]
      · rintro rfl
        rfl
    rw [Bool.eq_iff_iff]
    simp [swapped, byPtr entry present]
  have gone : ((table.dmPtrToNames.erase (ptr, thread)).filter fun entry => entry.1 = ptr).length =
      0 := by
    rw [names, ← kept, List.length_eq_zero_iff, List.filter_eq_nil_iff]
    intro entry present
    obtain ⟨old, still, rfl⟩ := mem_map.mp present
    simpa using (List.mem_filter.mp still).2
  unfold ThreadTable.removeThread at removed
  split at removed
  · dsimp only at removed
    rw [if_pos gone] at removed
    cases removed
    constructor
    · exact names
    · rw [single.pipes, filter_map, ← kept]
      rfl
    · have states := congrArg (List.filter fun address => decide (address ≠ ptr)) single.states
      rw [filter_map, filter_map] at states
      rw [← kept]
      exact states
    · exact single.nodupNames.sublist (List.filter_sublist.map _)
    · exact single.nodupPtrs.sublist (List.filter_sublist.map _)
  · cases removed

theorem getPtr_of_removeThread {ptr : Nat}
    (removed : table.removeThread thread ptr = some next) : next.getPtr thread = none := by
  unfold removeThread at removed
  split at removed
  · cases removed
    rw [getPtr, lookup_eq_none]
    intro member
    obtain ⟨entry, kept, same⟩ := mem_map.mp member
    simpa [same] using (List.mem_filter.mp kept).2
  · cases removed

end ThreadTable

open ThreadTable

section

variable (network : Network)

def Request.Entered (table : ThreadTable) (request : Request) : Prop :=
  (table.getPtr request.thread).isSome ∨ ∀ target ∈ request.targets network, target ∈ table.dmNameToPtr

def Call.Enters (before next : ThreadTable) : Call → Prop
  | .attachToThreads requests =>
    ∀ request ∈ filterByLocalHost network requests, request.Entered network next
  | .postFork isInMpiStartup parent child => isInMpiStartup = true ∨
      ∀ target ∈ inExperiments network (before.getExperiments network parent) child child.threads,
        target ∈ next.dmNameToPtr
  | .threadCreate isInMpiStartup process thread => isInMpiStartup = true ∨
      before.getNames thread.ptr ≠ [] ∨
      ∀ target ∈ inExperiments network (before.getExperiments network process) process [thread],
        target ∈ next.dmNameToPtr
  | .threadDestroy _ => True
  | .removeThread thread _ => (next.getPtr thread).isNone

def Call.Kept (table : ThreadTable) (call : Call) : Prop :=
  ∃ next, call.step network table = some next ∧ next.Good ∧ call.Enters network table next

def Request.Safe (state : ThreadTable × List ThreadName) (request : Request) : Prop :=
  (state.1.getPtr request.thread).isSome ∨ state.1.Addable (request.targets network)

def Call.Safe (table : ThreadTable) : Call → Prop
  | .attachToThreads requests =>
    Runs.Along (Request.Safe network) (attachThread network) (table, []) (filterByLocalHost network requests)
  | .postFork isInMpiStartup parent child => isInMpiStartup = true ∨
      table.Addable (inExperiments network (table.getExperiments network parent) child child.threads)
  | .threadCreate isInMpiStartup process thread => isInMpiStartup = true ∨
      table.getNames thread.ptr ≠ [] ∨
      table.Addable (inExperiments network (table.getExperiments network process) process [thread])
  | .threadDestroy _ => True
  | .removeThread thread ptr => (thread, ptr) ∈ table.dmNameToPtr

variable {network}

variable {request : Request} {table next : ThreadTable}

theorem Request.Entered.mono
    (entered : request.Entered network table) (grows : table.dmNameToPtr ⊆ next.dmNameToPtr) :
    request.Entered network next := by
  rcases entered with known | added
  · left
    rw [getPtr_isSome] at known ⊢
    exact List.map_subset Prod.fst grows known
  · exact Or.inr fun target member => grows (added target member)

theorem isSome_return {First Second : Type} (first : Option First) (next : First → Second) :
    (first >>= fun value => pure (next value)).isSome ↔ first.isSome := by
  cases first with
  | none => exact Iff.rfl
  | some value => exact Iff.rfl

theorem attachThread_isSome {state : ThreadTable × List ThreadName} (single : Single state.1) :
    (attachThread network state request).isSome ↔ request.Safe network state := by
  unfold attachThread Request.Safe
  split
  · rename_i known
    simp [known]
  · rename_i unknown
    rw [or_iff_right unknown, ← single.addThreads_isSome]
    exact isSome_return _ _

theorem attachThread_ok {state next : ThreadTable × List ThreadName} (single : Single state.1)
    (attached : attachThread network state request = some next) :
    Single next.1 ∧ state.1.dmNameToPtr ⊆ next.1.dmNameToPtr ∧ request.Entered network next.1 := by
  unfold attachThread at attached
  split at attached
  · rename_i known
    cases attached
    exact ⟨single, List.Subset.refl _, Or.inl known⟩
  · obtain ⟨table, added, returned⟩ := Option.bind_eq_some_iff.mp attached
    cases returned
    obtain ⟨addable, rfl⟩ := single.addThreads_iff.mp added
    refine ⟨single.extend addable, List.subset_append_left _ _, Or.inr fun target member => ?_⟩
    exact List.mem_append_right _ member

theorem attachThreads_ok {table : ThreadTable} (single : Single table) {requests : List Request}
    {final : ThreadTable × List ThreadName}
    (ran : Runs.run (attachThread network) (table, []) requests = some final) :
    Single final.1 ∧ ∀ request ∈ requests, request.Entered network final.1 := by
  refine Runs.run_history (fun seen state => Single state.1 ∧
    ∀ request ∈ seen, request.Entered network state.1) ⟨single, by simp⟩ ?_ ran
  rintro seen state request next ⟨singleState, entered⟩ attached
  obtain ⟨singleNext, grows, here⟩ := attachThread_ok singleState attached
  refine ⟨singleNext, fun other member => ?_⟩
  rcases mem_append.mp member with earlier | last
  · exact (entered other earlier).mono grows
  · rw [mem_singleton.mp last]
    exact here

theorem Call.step_isSome {table : ThreadTable} (single : Single table) (call : Call) :
    (call.step network table).isSome ↔ call.Safe network table := by
  cases call with
  | attachToThreads requests =>
    have whole : (Runs.run (attachThread network) (table, [])
        (filterByLocalHost network requests)).isSome ↔
        Call.Safe network table (.attachToThreads requests) :=
      Runs.isSome_run_iff_along (fun state => Single state.1)
        (fun _ _ singleState => attachThread_isSome singleState)
        (fun _ _ _ singleState attached => (attachThread_ok singleState attached).1) single
    rw [← whole]
    exact isSome_return _ _
  | postFork isInMpiStartup parent child =>
    rw [Call.step, Daemon.postFork, Call.Safe]
    cases isInMpiStartup with
    | true => simp
    | false =>
      rw [or_iff_right (by simp), ← single.addThreads_isSome, if_neg (by simp)]
      exact isSome_return _ _
  | threadCreate isInMpiStartup process thread =>
    rw [Call.step, Daemon.threadCreate, Call.Safe]
    cases isInMpiStartup with
    | true => simp
    | false =>
      by_cases known : table.getNames thread.ptr ≠ []
      · simp [known]
      · rw [or_iff_right (by simp), or_iff_right known, ← single.addThreads_isSome,
          if_neg (by simp), if_neg known]
        exact isSome_return _ _
  | threadDestroy thread => simp [Call.step, Call.Safe]
  | removeThread thread ptr =>
    rw [Call.step, Call.Safe]
    exact single.removeThread_iff

theorem Call.step_ok (single : Single table) {call : Call}
    (stepped : call.step network table = some next) : Single next ∧ call.Enters network table next := by
  cases call with
  | attachToThreads requests =>
    obtain ⟨final, attached, returned⟩ := Option.bind_eq_some_iff.mp stepped
    cases returned
    obtain ⟨singleFinal, entered⟩ := attachThreads_ok single attached
    refine ⟨singleFinal.threadsStateChanged _ _, fun request member => ?_⟩
    refine (entered request member).mono ?_
    rw [threadsStateChanged_dmNameToPtr]
    exact List.Subset.refl _
  | postFork isInMpiStartup parent child =>
    cases isInMpiStartup with
    | true =>
      cases stepped
      exact ⟨single, Or.inl rfl⟩
    | false =>
      obtain ⟨added, adding, returned⟩ := Option.bind_eq_some_iff.mp stepped
      cases returned
      obtain ⟨addable, rfl⟩ := single.addThreads_iff.mp adding
      refine ⟨(single.extend addable).threadsStateChanged _ _, Or.inr fun target member => ?_⟩
      rw [threadsStateChanged_dmNameToPtr]
      exact List.mem_append_right _ member
  | threadCreate isInMpiStartup process thread =>
    cases isInMpiStartup with
    | true =>
      cases stepped
      exact ⟨single, Or.inl rfl⟩
    | false =>
      by_cases known : table.getNames thread.ptr ≠ []
      · simp only [Call.step, Daemon.threadCreate, Bool.false_eq_true, if_false, if_pos known,
          Option.some.injEq] at stepped
        rw [← stepped]
        exact ⟨single, Or.inr (Or.inl known)⟩
      · simp only [Call.step, Daemon.threadCreate, Bool.false_eq_true, if_false, if_neg known] at stepped
        obtain ⟨added, adding, returned⟩ := Option.bind_eq_some_iff.mp stepped
        cases returned
        obtain ⟨addable, rfl⟩ := single.addThreads_iff.mp adding
        refine ⟨(single.extend addable).threadsStateChanged _ _, Or.inr (Or.inr fun target member => ?_)⟩
        rw [threadsStateChanged_dmNameToPtr]
        exact List.mem_append_right _ member
  | threadDestroy thread =>
    cases stepped
    exact ⟨single.threadsStateChanged _ _, trivial⟩
  | removeThread thread ptr =>
    refine ⟨single.removeThread stepped, ?_⟩
    rw [Call.Enters, getPtr_of_removeThread stepped]
    rfl

/-- Along a run every call keeps the table in order exactly when every call is safe. -/
theorem kept_iff_safe (network : Network) (calls : List Call) :
    Runs.Along (Call.Kept network) (fun table call => call.step network table) ThreadTable.empty calls ↔
      Runs.Along (Call.Safe network) (fun table call => call.step network table) ThreadTable.empty
        calls := by
  have empty : Single ThreadTable.empty := ⟨rfl, rfl, rfl, List.nodup_nil, List.nodup_nil⟩
  refine Runs.along_iff_along Single (fun table call single => ?_)
    (fun table call next single _ stepped => (Call.step_ok single stepped).1) empty
  rw [← Call.step_isSome single, Call.Kept, Option.isSome_iff_exists]
  refine exists_congr fun next => ⟨fun kept => kept.1, fun stepped => ?_⟩
  obtain ⟨singleNext, enters⟩ := Call.step_ok single stepped
  exact ⟨stepped, singleNext.good, enters⟩

end

def oneHost : Network := ⟨"node1", fun host => host⟩

def oneProcess : BPatchProcess := ⟨4711, [⟨16, 140001⟩], true, by decide⟩

def attachIn (experiment : Int) (processes : List BPatchProcess) : Call :=
  .attachToThreads [⟨⟨experiment, "node1", 4711, some 140001⟩, processes, some oneProcess⟩]

theorem second_experiment_aborts :
    ¬ Runs.Along (Call.Kept oneHost) (fun table call => call.step oneHost table) ThreadTable.empty
      [attachIn 1 [], attachIn 2 [oneProcess]] := by
  intro along
  have reached : (attachIn 1 []).step oneHost ThreadTable.empty = some
      ⟨[(⟨1, "node1", 4711, some 140001⟩, 16)], [(16, ⟨1, "node1", 4711, some 140001⟩)],
        [(16, none)], [(16, .suspended)]⟩ := by
    decide
  obtain ⟨next, stepped, -⟩ := (along.2 _ reached).1
  have aborts : (attachIn 2 [oneProcess]).step oneHost
      ⟨[(⟨1, "node1", 4711, some 140001⟩, 16)], [(16, ⟨1, "node1", 4711, some 140001⟩)],
        [(16, none)], [(16, .suspended)]⟩ = none := by
    decide
  rw [aborts] at stepped
  cases stepped

end OpenSpeedShop.Daemon
