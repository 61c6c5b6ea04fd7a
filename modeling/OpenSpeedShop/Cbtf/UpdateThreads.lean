import OpenSpeedShop.Cbtf.UpdateThreadsCore
import OpenSpeedShop.Library.Runs

/-!
Names without an MPI rank are never recognised again: the rank is left NULL by the
insertion, and the query for an existing row compares it.
-/

namespace OpenSpeedShop.Cbtf

open Int32 (ofInt toInt_ofInt_of_le)
open List (mem_map mem_append map_append mem_map_of_mem map_cons nil_append count_cons countP_map
  mem_append_right)

def stored (name : ThreadName) : Identity :=
  { name.identity with posixTid := some (encodePosixThreadId name.posixThreadId.2) }

def keep (kept : List ThreadName) (name : ThreadName) : List ThreadName :=
  if name.mpiRank ≥ 0 ∧ stored name ∈ kept.map stored then kept else kept ++ [name]

section

variable {name : ThreadName} {row : Schema.ThreadRow}

theorem isPlaceholder_iff : isPlaceholder name row = some true ↔
    row.host = some name.host ∧ row.pid = some name.pid.toInt ∧ row.posixTid = none := by
  simp only [isPlaceholder, Sql.both_eq_true, Sql.equal_eq_true, Sql.isNull, Option.some.injEq,
    Option.isNone_iff_eq_none]
  constructor
  · rintro ⟨⟨host, pid⟩, none⟩
    exact ⟨host.2, pid.2, none⟩
  · rintro ⟨host, pid, none⟩
    simp [host, pid, none]

theorem isExisting_iff : isExisting name row = some true ↔
    identityOf row = { stored name with mpiRank := some name.mpiRank.toInt } := by
  simp only [isExisting, Sql.both_eq_true, Sql.equal_eq_true, identityOf, stored,
    ThreadName.identity, Identity.mk.injEq]
  constructor
  · rintro ⟨⟨⟨⟨host, pid⟩, tid⟩, rank⟩, omp⟩
    exact ⟨host.2, pid.2, tid.2, rank.2, omp.2⟩
  · rintro ⟨host, pid, tid, rank, omp⟩
    simp [host, pid, tid, rank, omp]

theorem lastId_nil : lastId [] = -1 := rfl

theorem lastId_ne {rows : List Schema.ThreadRow} (something : rows ≠ [])
    (inside : ∀ row ∈ rows, 0 < row.id ∧ row.id < 2 ^ 31) : lastId rows ≠ -1 := by
  intro missing
  have last := List.getLast?_eq_getLast_of_ne_nil something
  have bounds := inside _ (List.getLast_mem something)
  rw [lastId, last, Option.map_some, Option.getD_some] at missing
  have same : (ofInt (rows.getLast something).id).toInt = (-1 : Int32).toInt := by rw [missing]
  rw [toInt_ofInt_of_le (by omega) (by omega)] at same
  have negative : (-1 : Int32).toInt = -1 := rfl
  omega

end

structure Opened (names : List ThreadName) (rows : List Schema.ThreadRow) (theTable : ThreadTable) : Prop where
  otherProcesses : ∀ row ∈ rows, ∀ name ∈ names, ¬ (row.host = some name.host ∧ row.pid = some name.pid.toInt)
  positive : ∀ row ∈ rows, 0 < row.id
  few : nextId (rows.map Schema.ThreadRow.id) + names.length ≤ 2 ^ 31
  states : ∀ entry ∈ theTable.dmThreadToState, ∃ row ∈ rows, entry.1.toInt = row.id
  callbacks : ∀ thread ∈ theTable.dmThreadToCallbacks, ∃ row ∈ rows, thread.toInt = row.id

structure Described (before : List Schema.ThreadRow) (tableBefore : ThreadTable)
    (kept : List ThreadName) (new : List Schema.ThreadRow) (theTable : ThreadTable) : Prop where
  identities : new.map identityOf = kept.map stored
  states : theTable.dmThreadToState = tableBefore.dmThreadToState ++
    new.map fun row => (Int32.ofInt row.id, .disconnected)
  callbacks : theTable.dmThreadToCallbacks = tableBefore.dmThreadToCallbacks ++
    new.map fun row => Int32.ofInt row.id
  next : nextId ((before ++ new).map Schema.ThreadRow.id) =
    nextId (before.map Schema.ThreadRow.id) + kept.length
  later : ∀ row ∈ new, nextId (before.map Schema.ThreadRow.id) ≤ row.id
  nodup : (new.map Schema.ThreadRow.id).Nodup

theorem nextId_pos {ids : List Int} (positive : ∀ id ∈ ids, 0 < id) : 0 < nextId ids := by
  unfold nextId
  cases highest : ids.max? with
  | none => simp
  | some last =>
    have above := positive last (List.max?_eq_some_iff.mp highest).1
    dsimp only
    omega

section

variable {names kept : List ThreadName} {before new : List Schema.ThreadRow}
  {tableBefore theTable : ThreadTable} {name : ThreadName}

theorem Opened.base_pos (opened : Opened names before tableBefore) :
    0 < nextId (before.map Schema.ThreadRow.id) := by
  refine nextId_pos fun id member => ?_
  obtain ⟨row, present, rfl⟩ := mem_map.mp member
  exact opened.positive row present

section

variable (opened : Opened names before tableBefore)
  (described : Described before tableBefore kept new theTable)
include opened described

theorem Described.id_lt
    (room : kept.length ≤ names.length) {row : Schema.ThreadRow} (member : row ∈ before ++ new) :
    row.id < 2 ^ 31 := by
  have below := lt_nextId (mem_map_of_mem (f := Schema.ThreadRow.id) member)
  have next := described.next
  have few := opened.few
  omega

theorem Described.noPlaceholder (member : name ∈ names) :
    Sql.select (isPlaceholder name) (before ++ new) = [] := by
  refine Sql.select_eq_nil.mpr fun row present placeholder => ?_
  obtain ⟨host, pid, unset⟩ := isPlaceholder_iff.mp placeholder
  rcases mem_append.mp present with old | added
  · exact opened.otherProcesses row old name member ⟨host, pid⟩
  · have identity := mem_map_of_mem (f := identityOf) added
    rw [described.identities] at identity
    obtain ⟨other, -, same⟩ := mem_map.mp identity
    have tid : (identityOf row).posixTid = (stored other).posixTid := by rw [same]
    rw [identityOf, unset] at tid
    cases tid

theorem Described.existing_iff (member : name ∈ names) :
    Sql.select (isExisting name) (before ++ new) ≠ [] ↔ name.mpiRank ≥ 0 ∧ stored name ∈ kept.map stored := by
  have ranked : name.mpiRank ≥ 0 →
      ({ stored name with mpiRank := some name.mpiRank.toInt } : Identity) = stored name := by
    intro rank
    simp [stored, ThreadName.identity, rank]
  constructor
  · intro something
    obtain ⟨row, found⟩ := List.exists_mem_of_ne_nil _ something
    obtain ⟨present, existing⟩ := Sql.mem_select.mp found
    have same := isExisting_iff.mp existing
    rcases mem_append.mp present with old | added
    · have host := congrArg Identity.host same
      have pid := congrArg Identity.pid same
      exact absurd ⟨host, pid⟩ (opened.otherProcesses row old name member)
    · have identity := mem_map_of_mem (f := identityOf) added
      rw [described.identities] at identity
      have rank : name.mpiRank ≥ 0 := by
        obtain ⟨other, -, equal⟩ := mem_map.mp identity
        have ranks : (stored other).mpiRank = some name.mpiRank.toInt := by
          rw [equal, same]
        simp only [stored, ThreadName.identity] at ranks
        split at ranks
        · rename_i nonneg
          have number := Int32.toInt_inj.mp (Option.some.inj ranks)
          rw [← number]
          exact nonneg
        · cases ranks
      rw [same, ranked rank] at identity
      exact ⟨rank, identity⟩
  · rintro ⟨rank, known⟩ nothing
    rw [← described.identities] at known
    obtain ⟨row, added, same⟩ := mem_map.mp known
    refine Sql.select_eq_nil.mp nothing row (by simp [added]) (isExisting_iff.mpr ?_)
    rw [ranked rank, same]

end

theorem hasId_iff {thread : Int32} {row : Schema.ThreadRow} :
    hasId thread row = some true ↔ row.id = thread.toInt := by
  simp [hasId]

theorem setMPIRank_inserted {rows : List Schema.ThreadRow} {thread : Int32}
    (fresh : ∀ row ∈ rows, row.id ≠ thread.toInt) : ∃ row : Schema.ThreadRow,
    setMPIRank thread name (rows ++ [insertedRow thread.toInt name]) = rows ++ [row] ∧
      row.id = thread.toInt ∧ identityOf row = stored name := by
  unfold setMPIRank
  by_cases rank : name.mpiRank ≥ 0
  · rw [if_pos rank, Sql.update_append_singleton
      (fun row member => mt hasId_iff.mp (fresh row member)) (hasId_iff.mpr rfl)]
    exact ⟨_, rfl, rfl, by simp [identityOf, insertedRow, stored, ThreadName.identity, rank]⟩
  · rw [if_neg rank]
    exact ⟨_, rfl, rfl, by simp [identityOf, insertedRow, stored, ThreadName.identity, rank]⟩

section

variable (opened : Opened names before tableBefore)
  (described : Described before tableBefore kept new theTable) (room : kept.length < names.length)

include opened described room

theorem Described.number : (ofInt (nextId ((before ++ new).map Schema.ThreadRow.id))).toInt =
    nextId ((before ++ new).map Schema.ThreadRow.id) := by
  have base := opened.base_pos
  have few := opened.few
  have next := described.next
  exact toInt_ofInt_of_le (by omega) (by omega)

theorem Described.fresh : ∀ row ∈ before ++ new,
    row.id ≠ (ofInt (nextId ((before ++ new).map Schema.ThreadRow.id))).toInt := by
  intro row present
  have number := described.number opened room
  have below := lt_nextId (mem_map_of_mem (f := Schema.ThreadRow.id) present)
  omega

theorem Described.fresh_ofInt : ∀ row ∈ new, ofInt row.id ≠
    ofInt (nextId ((before ++ new).map Schema.ThreadRow.id)) := by
  intro row added equal
  have base := opened.base_pos
  have small := described.id_lt opened room.le (mem_append_right before added)
  have above := described.later row added
  have same : (ofInt row.id).toInt = row.id :=
    toInt_ofInt_of_le (by omega) (by omega)
  refine described.fresh opened room row (mem_append_right before added) ?_
  rw [← equal, same]

theorem Described.absent :
    ofInt (nextId ((before ++ new).map Schema.ThreadRow.id)) ∉ theTable.dmThreadToState.map Prod.fst ∧
      ofInt (nextId ((before ++ new).map Schema.ThreadRow.id)) ∉ theTable.dmThreadToCallbacks := by
  have fresh := described.fresh opened room
  have newEntries := described.fresh_ofInt opened room
  rw [described.states, described.callbacks]
  constructor
  · intro found
    rw [map_append, mem_append, List.map_map] at found
    rcases found with old | added
    · obtain ⟨entry, present, same⟩ := mem_map.mp old
      obtain ⟨row, stored, equal⟩ := opened.states entry present
      exact fresh row (List.mem_append_left new stored) (by rw [← equal, same])
    · obtain ⟨row, present, same⟩ := mem_map.mp added
      exact newEntries row present same
  · intro found
    rcases mem_append.mp found with old | added
    · obtain ⟨row, stored, equal⟩ := opened.callbacks _ old
      exact fresh row (List.mem_append_left new stored) equal.symm
    · obtain ⟨row, present, same⟩ := mem_map.mp added
      exact newEntries row present same

theorem Described.insert {row : Schema.ThreadRow}
    (id : row.id = nextId ((before ++ new).map Schema.ThreadRow.id))
    (identity : identityOf row = stored name) : Described before tableBefore (kept ++ [name]) (new ++ [row])
      ⟨theTable.dmThreadToState ++ [(ofInt row.id, .disconnected)],
        theTable.dmThreadToCallbacks ++ [ofInt row.id]⟩ := by
  have next := described.next
  constructor
  · rw [map_append, map_append, described.identities, List.map_singleton, identity]
    rfl
  · rw [described.states]
    simp
  · rw [described.callbacks]
    simp
  · rw [← List.append_assoc, map_append, List.map_singleton, id, nextId_snoc, next]
    simp
    omega
  · intro other present
    rcases mem_append.mp present with old | last
    · exact described.later other old
    · rw [List.mem_singleton.mp last, id, next]
      omega
  · rw [map_append, List.map_singleton]
    refine List.nodup_append.mpr ⟨described.nodup, List.pairwise_singleton _ _, ?_⟩
    rintro other old last here rfl
    rw [List.mem_singleton] at here
    obtain ⟨earlier, added, same⟩ := mem_map.mp old
    refine described.fresh opened room earlier (mem_append_right before added) ?_
    rw [described.number opened room, same, here, id]

end

theorem updateThread_ok (opened : Opened names before tableBefore)
    (described : Described before tableBefore kept new theTable) (member : name ∈ names)
    (room : kept.length < names.length) : ∃ newNext tableNext,
    updateThread (before ++ new, theTable) name = some (before ++ newNext, tableNext) ∧
      Described before tableBefore (keep kept name) newNext tableNext := by
  unfold updateThread
  dsimp only
  rw [described.noPlaceholder opened member, lastId_nil, if_neg (by simp)]
  by_cases known : name.mpiRank ≥ 0 ∧ stored name ∈ kept.map stored
  · have something := (described.existing_iff opened member).mpr known
    have inside : ∀ row ∈ Sql.select (isExisting name) (before ++ new), 0 < row.id ∧ row.id < 2 ^ 31 := by
      intro row found
      have present := (Sql.mem_select.mp found).1
      refine ⟨?_, described.id_lt opened room.le present⟩
      rcases mem_append.mp present with old | added
      · exact opened.positive row old
      · have base := opened.base_pos
        have above := described.later row added
        omega
    rw [if_pos (lastId_ne something inside)]
    exact ⟨new, theTable, rfl, by rw [keep, if_pos known]; exact described⟩
  · have nothing : Sql.select (isExisting name) (before ++ new) = [] :=
      not_not.mp (mt (described.existing_iff opened member).mp known)
    obtain ⟨row, inserted, id, identity⟩ :=
      @setMPIRank_inserted name _ _ (described.fresh opened room)
    rw [described.number opened room] at inserted id
    rw [nothing, lastId_nil, if_neg (by simp), ThreadTable.addThread,
      if_pos (described.absent opened room), Option.bind_eq_bind, Option.bind_some, inserted,
      List.append_assoc, ← id]
    refine ⟨new ++ [row], _, rfl, ?_⟩
    rw [keep, if_neg known]
    exact described.insert opened room id identity

end

section

variable {names : List ThreadName} {before : List Schema.ThreadRow} {tableBefore : ThreadTable}

theorem length_keep_le (kept : List ThreadName) (name : ThreadName) :
    (keep kept name).length ≤ kept.length + 1 := by
  unfold keep
  split
  · omega
  · simp

theorem length_foldl_keep_le (seen kept : List ThreadName) :
    (seen.foldl keep kept).length ≤ kept.length + seen.length := by
  induction seen generalizing kept with
  | nil => simp
  | cons name rest ih =>
    have step := length_keep_le kept name
    have later := ih (keep kept name)
    rw [List.foldl_cons, List.length_cons]
    omega

theorem updateQueue_ok (opened : Opened names before tableBefore) {queue kept : List ThreadName}
    (members : ∀ name ∈ queue, name ∈ names) (room : kept.length + queue.length ≤ names.length)
    {new : List Schema.ThreadRow} {theTable : ThreadTable}
    (described : Described before tableBefore kept new theTable) : ∃ newNext tableNext,
    queue.foldlM updateThread (before ++ new, theTable) = some (before ++ newNext, tableNext) ∧
      Described before tableBefore (queue.foldl keep kept) newNext tableNext := by
  induction queue generalizing kept new theTable with
  | nil => exact ⟨new, theTable, rfl, described⟩
  | cons name rest ih =>
    rw [List.length_cons] at room
    obtain ⟨newMiddle, tableMiddle, ran, describedMiddle⟩ :=
      updateThread_ok opened described (members name (by simp)) (by omega)
    have step := length_keep_le kept name
    obtain ⟨newNext, tableNext, others, describedNext⟩ :=
      ih (fun other member => members other (by simp [member])) (by omega) describedMiddle
    refine ⟨newNext, tableNext, ?_, describedNext⟩
    rw [List.foldlM_cons, ran]
    exact others

theorem attachedToThreads_run (opened : Opened names before tableBefore)
    {messages : List (List ThreadName)} (all : messages.flatten = names) :
    ∃ new theTable, Runs.run attachedToThreads ⟨[], some before, tableBefore⟩ messages =
        some ⟨[], some (before ++ new), theTable⟩ ∧
      Described before tableBefore (names.foldl keep []) new theTable := by
  have reached := @Runs.run_total _ _ attachedToThreads ⟨[], some before, tableBefore⟩
    (fun seen state => ∃ new theTable, state = ⟨[], some (before ++ new), theTable⟩ ∧
      Described before tableBefore (seen.flatten.foldl keep []) new theTable)
    ⟨[], tableBefore, by simp, ⟨rfl, by simp, by simp, by simp, by simp, List.Pairwise.nil⟩⟩ messages ?_
  · obtain ⟨final, ran, new, theTable, rfl, described⟩ := reached
    rw [all] at described
    exact ⟨new, theTable, ran, described⟩
  · rintro seen message rest state split ⟨new, theTable, rfl, described⟩
    have whole : seen.flatten ++ message ++ rest.flatten = names := by
      rw [← all, split]
      simp
    have lengths := congrArg List.length whole
    rw [List.length_append, List.length_append] at lengths
    have bound := length_foldl_keep_le seen.flatten []
    rw [List.length_nil] at bound
    have members : ∀ name ∈ message, name ∈ names := by
      intro name member
      rw [← whole]
      simp [member]
    obtain ⟨newNext, tableNext, ran, describedNext⟩ :=
      updateQueue_ok opened members (by omega) described
    refine ⟨⟨[], some (before ++ newNext), tableNext⟩, ?_, newNext, tableNext, rfl, ?_⟩
    · unfold attachedToThreads updateThreads
      dsimp only
      rw [nil_append]
      cases message with
      | nil =>
        obtain ⟨sameRows, rfl⟩ := Prod.mk.inj (Option.some.inj ran)
        simp [sameRows]
      | cons first others =>
        rw [ran]
        rfl
    · rw [List.flatten_append, List.foldl_append]
      simpa using describedNext

end

def Recognisable (names : List ThreadName) : Prop :=
  (∀ name ∈ names, name.posixThreadId.1 = true) ∧
    ((names.filter fun name => name.mpiRank < 0).map ThreadName.identity).Nodup

theorem stored_mpiRank (name : ThreadName) : (stored name).mpiRank = none ↔ ¬ name.mpiRank ≥ 0 := by
  simp only [stored, ThreadName.identity]
  split
  · rename_i rank
    simp [rank]
  · rename_i rank
    simp [rank]

theorem identity_eq_stored {name : ThreadName} (tid : name.posixThreadId.1 = true) :
    name.identity = stored name := by
  simp [stored, ThreadName.identity, tid]

theorem count_foldl_keep (names : List ThreadName) (identity : Identity) :
    ((names.foldl keep []).map stored).count identity =
      if identity.mpiRank = none then (names.map stored).count identity
      else if identity ∈ names.map stored then 1 else 0 := by
  induction names using List.reverseRecOn with
  | nil => simp
  | append_singleton names name ih =>
    rw [List.foldl_append, List.foldl_cons, List.foldl_nil]
    have present : stored name ∈ (names.foldl keep []).map stored → identity = stored name →
        0 < ((names.foldl keep []).map stored).count identity := by
      rintro member rfl
      exact List.count_pos_iff.mpr member
    generalize names.foldl keep [] = kept at ih present
    unfold keep
    by_cases same : identity = stored name
    · subst same
      by_cases ranked : (stored name).mpiRank = none
      · have rank := (stored_mpiRank name).mp ranked
        simp [rank, ih, ranked]
      · have rank := not_not.mp (mt (stored_mpiRank name).mpr ranked)
        by_cases known : stored name ∈ kept.map stored
        · have positive := present known rfl
          rw [if_pos ⟨rank, known⟩, ih, if_neg ranked, if_neg ranked]
          rw [ih, if_neg ranked] at positive
          split at positive
          · simp_all
          · omega
        · have absent := List.count_eq_zero.mpr known
          rw [if_neg (fun both => known both.2), map_append, List.count_append, absent]
          simp [ranked]
    · have different : ¬ stored name = identity := fun equal => same equal.symm
      have kept : ∀ others : List ThreadName,
          ((others ++ [name]).map stored).count identity = (others.map stored).count identity := by
        intro others
        simp [List.count_append, different]
      split
      · rw [ih, kept]
        simp [same]
      · rw [kept, ih, kept]
        simp [same]

theorem count_rankless (names : List ThreadName) {identity : Identity} (ranked : identity.mpiRank = none) :
    ((names.filter fun name => name.mpiRank < 0).map ThreadName.identity).count identity =
      (names.map ThreadName.identity).count identity := by
  induction names with
  | nil => rfl
  | cons name rest ih =>
    rw [List.filter_cons]
    split
    · rw [map_cons, map_cons, count_cons, count_cons, ih]
    · rename_i rank
      have different : ¬ name.identity = identity := by
        rintro rfl
        have nonneg : name.mpiRank ≥ 0 := by simpa using rank
        simp [ThreadName.identity, nonneg] at ranked
      rw [ih, map_cons, count_cons]
      simp [different]

section

variable {names : List ThreadName} {before new : List Schema.ThreadRow}
  {tableBefore theTable : ThreadTable}

section

variable (opened : Opened names before tableBefore)
  (described : Described before tableBefore (names.foldl keep []) new theTable)
include opened described

theorem length_rows_of_name {name : ThreadName} (member : name ∈ names) :
    ((before ++ new).filter fun row => identityOf row = name.identity).length =
      ((names.foldl keep []).map stored).count name.identity := by
  have old : before.filter (fun row => identityOf row = name.identity) = [] := by
    refine List.filter_eq_nil_iff.mpr fun row present => ?_
    rw [decide_eq_true_eq]
    intro same
    exact opened.otherProcesses row present name member
      ⟨congrArg Identity.host same, congrArg Identity.pid same⟩
  rw [List.filter_append, old, nil_append, ← described.identities, ← List.countP_eq_length_filter,
    List.count, countP_map]
  refine List.countP_congr fun row _ => ?_
  simp

theorem one_entry {row : Schema.ThreadRow} (added : row ∈ new) :
    (theTable.dmThreadToState.filter fun entry => entry.1.toInt = row.id).length = 1 := by
  have bound : (names.foldl keep []).length ≤ names.length := by
    simpa using length_foldl_keep_le names []
  have base := opened.base_pos
  have number : ∀ other ∈ new, (ofInt other.id).toInt = other.id := by
    intro other present
    have small := described.id_lt opened bound (mem_append_right before present)
    have above := described.later other present
    exact toInt_ofInt_of_le (by omega) (by omega)
  have old : tableBefore.dmThreadToState.filter (fun entry => entry.1.toInt = row.id) = [] := by
    refine List.filter_eq_nil_iff.mpr fun entry present => ?_
    rw [decide_eq_true_eq]
    intro same
    obtain ⟨earlier, known, equal⟩ := opened.states entry present
    have below := lt_nextId (mem_map_of_mem (f := Schema.ThreadRow.id) known)
    have above := described.later row added
    omega
  have once : (new.map Schema.ThreadRow.id).count row.id = 1 :=
    List.count_eq_one_of_mem described.nodup (mem_map_of_mem added)
  rw [described.states, List.filter_append, old, nil_append, ← List.countP_eq_length_filter,
    countP_map, ← once, List.count, countP_map]
  refine List.countP_congr fun other present => ?_
  simp [number other present]

end

/-- After any messages each name has one row exactly when the names can be recognised. -/
theorem updateThreads_oneRowEach_iff {messages : List (List ThreadName)}
    (opened : Opened messages.flatten before tableBefore) :
    ∃ rows theTable, Runs.run attachedToThreads ⟨[], some before, tableBefore⟩ messages =
        some ⟨[], some rows, theTable⟩ ∧
      (OneRowEach messages.flatten before rows theTable ↔ Recognisable messages.flatten) := by
  obtain ⟨new, theTable, ran, described⟩ := attachedToThreads_run opened rfl
  generalize messages.flatten = names at opened described ⊢
  have lengths : ∀ name ∈ names,
      ((before ++ new).filter fun row => identityOf row = name.identity).length =
        ((names.foldl keep []).map stored).count name.identity :=
    fun name member => length_rows_of_name opened described member
  refine ⟨before ++ new, theTable, ran, fun each => ?_, fun recognisable => ?_⟩
  · have tids : ∀ name ∈ names, name.posixThreadId.1 = true := by
      intro name member
      have found := (lengths name member).symm.trans (each.oneRow name member)
      have positive : name.identity ∈ (names.foldl keep []).map stored :=
        List.count_pos_iff.mp (by omega)
      obtain ⟨other, -, same⟩ := List.mem_map.mp positive
      have tid := congrArg Identity.posixTid same
      by_contra unset
      simp [stored, ThreadName.identity, unset] at tid
    have identities : names.map stored = names.map ThreadName.identity :=
      List.map_congr_left fun name member => (identity_eq_stored (tids name member)).symm
    refine ⟨tids, List.nodup_iff_count_le_one.mpr fun identity => ?_⟩
    by_cases member : identity ∈ (names.filter fun name => name.mpiRank < 0).map ThreadName.identity
    · obtain ⟨name, rankless, rfl⟩ := List.mem_map.mp member
      obtain ⟨present, rank⟩ := List.mem_filter.mp rankless
      have ranked : name.identity.mpiRank = none := by
        rw [identity_eq_stored (tids name present), stored_mpiRank, ge_iff_le, Int32.not_le]
        exact of_decide_eq_true rank
      have found := (lengths name present).symm.trans (each.oneRow name present)
      rw [count_foldl_keep, if_pos ranked, identities] at found
      rw [count_rankless names ranked, found]
    · rw [List.count_eq_zero.mpr member]
      omega
  · obtain ⟨tids, nodup⟩ := recognisable
    have identities : names.map stored = names.map ThreadName.identity :=
      List.map_congr_left fun name member => (identity_eq_stored (tids name member)).symm
    constructor
    · intro name member
      have present : name.identity ∈ names.map ThreadName.identity := List.mem_map_of_mem member
      rw [lengths name member, count_foldl_keep, identities]
      by_cases ranked : name.identity.mpiRank = none
      · rw [if_pos ranked]
        have atMost := List.nodup_iff_count_le_one.mp nodup name.identity
        rw [count_rankless names ranked] at atMost
        have atLeast := List.count_pos_iff.mpr present
        omega
      · rw [if_neg ranked, if_pos present]
    · intro row member later
      rcases List.mem_append.mp member with old | added
      · exact absurd (List.mem_map_of_mem old) later
      · exact one_entry opened described added

end

def rankless : ThreadName := ⟨"node1", 4711, (true, 140001), -1, 0⟩

theorem updateThreads_oneRowEach_iff_rankless : ∃ rows theTable,
    Runs.run attachedToThreads ⟨[], some [], ⟨[], []⟩⟩ [[rankless]] = some ⟨[], some rows, theTable⟩ ∧
      (OneRowEach [rankless] [] rows theTable ↔ Recognisable [rankless]) :=
  @updateThreads_oneRowEach_iff [] ⟨[], []⟩ [[rankless]] ⟨by simp, by simp, by decide, by simp, by simp⟩

theorem rankless_twice : ∃ rows theTable,
    Runs.run attachedToThreads ⟨[], some [], ⟨[], []⟩⟩ [[rankless], [rankless]] =
        some ⟨[], some rows, theTable⟩ ∧
      ¬ OneRowEach [rankless, rankless] [] rows theTable :=
  ⟨_, _, rfl, fun each => absurd (each.oneRow rankless (by simp)) (by decide)⟩

end OpenSpeedShop.Cbtf
