import OpenSpeedShop.Daemon.ThreadTableCore

/-!
The instrumentation of the threads of a daemon, and how it is copied to new threads.
What installing an entry does to its thread is left out.
-/

namespace OpenSpeedShop

namespace Daemon

open EntryMap (lookup assign)

structure Collector where
  experiment : Int
  collector : Int
deriving DecidableEq

inductive Instrumentation
  | executeNow (disableSaveFpr : Bool) (callee : String) (argument : List UInt8)
  | executeAtEntryOrExit (location : String) (atEntry : Bool) (callee : String) (argument : List UInt8)
  | executeInPlaceOf (location callee : String)
  | stopAtEntryOrExit (location : String) (atEntry : Bool)
deriving DecidableEq

structure InstrumentationEntry where
  instrumentation : Instrumentation
  dmThread : Nat
deriving DecidableEq

def InstrumentationEntry.copy (thread : Nat) (entry : InstrumentationEntry) :
    InstrumentationEntry :=
  { entry with dmThread := thread }

structure ThreadEntry where
  dmGeneral : List InstrumentationEntry
  dmCollectors : List (Collector × List InstrumentationEntry)
deriving DecidableEq

abbrev InstrumentationTable := List (ThreadName × ThreadEntry)

namespace InstrumentationTable

def copyCollector (thread : Nat) (copied : List Collector × ThreadEntry)
    (collector : Collector × List InstrumentationEntry) : List Collector × ThreadEntry :=
  if (lookup collector.1 copied.2.dmCollectors).isSome then copied
  else (copied.1 ++ [collector.1], { copied.2 with
    dmCollectors := copied.2.dmCollectors ++
      [(collector.1, collector.2.map (InstrumentationEntry.copy thread))] })

def copyInstrumentation (getPtr : ThreadName → Option Nat) (source destination : ThreadName)
    (table : InstrumentationTable) : Option (List Collector × InstrumentationTable) :=
  match lookup source table with
  | none => some ([], table)
  | some copied =>
    match getPtr destination with
    | none => none
    | some thread =>
      let existing := lookup destination table
      let entry := existing.getD ⟨[], []⟩
      let entry :=
        if existing.isNone then
          { entry with
            dmGeneral := entry.dmGeneral ++ copied.dmGeneral.map (InstrumentationEntry.copy thread) }
        else entry
      let (collectors, entry) := copied.dmCollectors.foldl (copyCollector thread) ([], entry)
      some (collectors, assign destination entry table)

end InstrumentationTable

abbrev InstrumentationUpdates := List (Collector × List ThreadName)

def addUpdate (thread : ThreadName) (updates : InstrumentationUpdates) (collector : Collector) :
    InstrumentationUpdates :=
  let threads := (lookup collector updates).getD []
  assign collector (if thread ∈ threads then threads else threads ++ [thread]) updates

def copyToThread (getPtr : ThreadName → Option Nat) (source : ThreadName)
    (state : InstrumentationUpdates × InstrumentationTable) (destination : ThreadName) :
    Option (InstrumentationUpdates × InstrumentationTable) := do
  let (collectors, table) ← InstrumentationTable.copyInstrumentation getPtr source destination state.2
  return (collectors.foldl (addUpdate destination) state.1, table)

def copyInstrumentation (getPtr : ThreadName → Option Nat) (source destination : List ThreadName)
    (table : InstrumentationTable) : Option (InstrumentationUpdates × InstrumentationTable) := do
  let (updates, table) ← source.foldlM
    (fun state thread => destination.foldlM (copyToThread getPtr thread) state) ([], table)
  return (updates.filter fun update => !update.2.isEmpty, table)

def frontendAccepts (update : Collector × List ThreadName) : Bool :=
  update.2.all fun thread => thread.experiment = update.1.experiment

end Daemon

/-!
Copied instrumentation: a destination thread gets, for every collector, what the first
source thread that has it has, whatever the experiments are.
-/

namespace Daemon

open EntryMap InstrumentationTable

def instrumentation (table : InstrumentationTable) (thread : ThreadName) (collector : Collector) :
    Option (List InstrumentationEntry) :=
  (lookup thread table).bind fun entry => lookup collector entry.dmCollectors

def firstInstrumentation (table : InstrumentationTable) (source : List ThreadName)
    (collector : Collector) : Option (List InstrumentationEntry) :=
  source.findSome? fun thread => instrumentation table thread collector

abbrev copies (thread : Nat) (entries : List InstrumentationEntry) : List InstrumentationEntry :=
  entries.map (InstrumentationEntry.copy thread)

theorem or_map_self {Value : Type} (value : Option Value) (change : Value → Value) :
    value.or (value.map change) = value := by
  cases value <;> rfl

section

variable (thread : Nat) (copied : List Collector × ThreadEntry)
  (first : Collector × List InstrumentationEntry) (collector : Collector)
include thread copied first collector

theorem lookup_copyCollector : lookup collector (copyCollector thread copied first).2.dmCollectors =
      (lookup collector copied.2.dmCollectors).or
        (if first.1 = collector then some (copies thread first.2) else none) := by
  rw [copyCollector]
  by_cases known : (lookup first.1 copied.2.dmCollectors).isSome
  · rw [if_pos known]
    by_cases same : first.1 = collector
    · obtain ⟨entries, here⟩ := Option.isSome_iff_exists.mp known
      simp [← same, here]
    · simp [same]
  · rw [if_neg known, lookup_append, lookup_cons]
    rfl

theorem mem_copyCollector : collector ∈ (copyCollector thread copied first).1 ↔ collector ∈ copied.1 ∨
      lookup collector copied.2.dmCollectors = none ∧ first.1 = collector := by
  rw [copyCollector]
  by_cases known : (lookup first.1 copied.2.dmCollectors).isSome
  · rw [if_pos known]
    refine (or_iff_left ?_).symm
    rintro ⟨none, rfl⟩
    simp [none] at known
  · rw [if_neg known, List.mem_append, List.mem_singleton]
    refine or_congr_right ⟨?_, fun both => both.2.symm⟩
    rintro rfl
    exact ⟨Option.not_isSome_iff_eq_none.mp known, rfl⟩

end

theorem foldl_copyCollector (thread : Nat) (collectors : List (Collector × List InstrumentationEntry))
    (copied : List Collector × ThreadEntry) :
    (∀ collector, lookup collector (collectors.foldl (copyCollector thread) copied).2.dmCollectors =
      (lookup collector copied.2.dmCollectors).or ((lookup collector collectors).map (copies thread))) ∧
    ∀ collector, collector ∈ (collectors.foldl (copyCollector thread) copied).1 ↔
      collector ∈ copied.1 ∨ (lookup collector copied.2.dmCollectors = none ∧
        (lookup collector collectors).isSome) := by
  induction collectors generalizing copied with
  | nil => simp
  | cons first rest ih =>
    obtain ⟨found, inserted⟩ := ih (copyCollector thread copied first)
    rw [List.foldl_cons]
    constructor
    · intro collector
      rw [found, lookup_copyCollector, lookup_cons, Option.or_assoc]
      by_cases same : first.1 = collector
      · simp [same]
      · simp [same]
    · intro collector
      rw [inserted, lookup_copyCollector, mem_copyCollector, lookup_cons]
      by_cases same : first.1 = collector
      · simp [same]
      · simp [same]

theorem foldl_copyCollector_of_known {thread : Nat}
    {collectors : List (Collector × List InstrumentationEntry)} {copied : List Collector × ThreadEntry}
    (known : ∀ collector, (lookup collector collectors).isSome →
      (lookup collector copied.2.dmCollectors).isSome) :
    collectors.foldl (copyCollector thread) copied = copied := by
  induction collectors with
  | nil => rfl
  | cons first rest ih =>
    have here := known first.1 (by simp [lookup_cons])
    rw [List.foldl_cons, copyCollector, if_pos here]
    refine ih fun collector later => known collector ?_
    rw [lookup_cons]
    split
    · rfl
    · exact later

structure Copied (ptr : Nat) (source destination : ThreadName) (table : InstrumentationTable)
    (collectors : List Collector) (next : InstrumentationTable) : Prop where
  others : ∀ other ≠ destination, lookup other next = lookup other table
  known : (lookup destination next).isSome ↔ (lookup destination table).isSome ∨ (lookup source table).isSome
  copied : ∀ collector, instrumentation next destination collector =
    (instrumentation table destination collector).or
      ((instrumentation table source collector).map (copies ptr))
  collectors : ∀ collector, collector ∈ collectors ↔
    instrumentation table destination collector = none ∧ (instrumentation table source collector).isSome

variable {getPtr : ThreadName → Option Nat}

theorem copyInstrumentation_ok
    {source destination : ThreadName} {ptr : Nat} (attached : getPtr destination = some ptr)
    (table : InstrumentationTable) : ∃ collectors next,
    InstrumentationTable.copyInstrumentation getPtr source destination table = some (collectors, next) ∧
      Copied ptr source destination table collectors next := by
  unfold InstrumentationTable.copyInstrumentation
  cases found : lookup source table with
  | none => exact ⟨[], table, rfl, ⟨by simp, by simp [found], by simp [instrumentation, found],
      by simp [instrumentation, found]⟩⟩
  | some copied =>
    simp only [attached]
    refine ⟨_, _, rfl, ?_⟩
    generalize start : (if (lookup destination table).isNone then _ else _ : ThreadEntry) = entry
    have collectorsOf : ∀ collector, lookup collector entry.dmCollectors =
        instrumentation table destination collector := by
      intro collector
      rw [← start, instrumentation]
      cases lookup destination table <;> simp
    obtain ⟨each, inserted⟩ := foldl_copyCollector ptr copied.dmCollectors ([], entry)
    constructor
    · exact fun other different => lookup_assign_of_ne different _ _
    · simp [found]
    · intro collector
      rw [instrumentation, lookup_assign_self, Option.bind_some, each, collectorsOf]
      simp [instrumentation, found]
    · intro collector
      rw [inserted, collectorsOf]
      simp [instrumentation, found]

theorem copyInstrumentation_of_known
    {source destination : ThreadName} (attached : (getPtr destination).isSome) {table : InstrumentationTable}
    (present : (lookup source table).isSome → (lookup destination table).isSome)
    (known : ∀ collector, (instrumentation table source collector).isSome →
      (instrumentation table destination collector).isSome) :
    InstrumentationTable.copyInstrumentation getPtr source destination table = some ([], table) := by
  unfold InstrumentationTable.copyInstrumentation
  cases found : lookup source table with
  | none => rfl
  | some copied =>
    obtain ⟨ptr, address⟩ := Option.isSome_iff_exists.mp attached
    obtain ⟨entry, existing⟩ := Option.isSome_iff_exists.mp (present (by rw [found]; rfl))
    have unchanged : copied.dmCollectors.foldl (copyCollector ptr) ([], entry) = ([], entry) := by
      refine foldl_copyCollector_of_known fun collector here => ?_
      have later := known collector
      simp only [instrumentation, found, existing, Option.bind_some] at later
      exact later here
    simp only [address, existing, Option.getD_some, Option.isNone_some, Bool.false_eq_true,
      if_false, unchanged]
    rw [assign_of_lookup existing]

def Reported (updates : InstrumentationUpdates) (collector : Collector) (thread : ThreadName) :
    Prop :=
  ∃ threads, lookup collector updates = some threads ∧ thread ∈ threads

structure Formed (updates : InstrumentationUpdates) : Prop where
  collectors : (updates.map Prod.fst).Nodup
  threads : ∀ collector threads, lookup collector updates = some threads → threads.Nodup
  nonempty : ∀ collector threads, lookup collector updates = some threads → threads ≠ []

variable {updates : InstrumentationUpdates}

theorem reported_addUpdate {thread other : ThreadName} {collector reported : Collector} :
    Reported (addUpdate thread updates collector) reported other ↔
      Reported updates reported other ∨ (reported = collector ∧ other = thread) := by
  unfold Reported addUpdate
  by_cases same : reported = collector
  · subst same
    simp only [lookup_assign_self, Option.some.injEq, exists_eq_left', true_and]
    cases found : lookup reported updates with
    | none => simp
    | some threads =>
      by_cases member : thread ∈ threads
      · simp only [Option.getD_some, if_pos member, Option.some.injEq, exists_eq_left']
        exact ⟨Or.inl, fun either => either.elim id fun equal => equal ▸ member⟩
      · simp [member]
  · simp [lookup_assign_of_ne same, same]

theorem reported_foldl_addUpdate {thread other : ThreadName} {collectors : List Collector}
    {reported : Collector} : Reported (collectors.foldl (addUpdate thread) updates) reported other ↔
      Reported updates reported other ∨ (reported ∈ collectors ∧ other = thread) := by
  induction collectors generalizing updates with
  | nil => simp
  | cons collector rest ih =>
    rw [List.foldl_cons, ih, reported_addUpdate, List.mem_cons]
    tauto

theorem Formed.addUpdate (formed : Formed updates) (thread : ThreadName) (collector : Collector) :
    Formed (addUpdate thread updates collector) := by
  have nodup : ((lookup collector updates).getD []).Nodup := by
    cases found : lookup collector updates with
    | none => exact List.nodup_nil
    | some threads => exact formed.threads collector threads found
  constructor
  · exact nodup_assign formed.collectors
  · intro other threads found
    by_cases same : other = collector
    · subst same
      rw [Daemon.addUpdate, lookup_assign_self, Option.some.injEq] at found
      rw [← found]
      split
      · exact nodup
      · rename_i absent
        refine List.nodup_append.mpr ⟨nodup, List.pairwise_singleton _ _, ?_⟩
        rintro name old last here rfl
        rw [List.mem_singleton] at here
        exact absent (here ▸ old)
    · rw [Daemon.addUpdate, lookup_assign_of_ne same] at found
      exact formed.threads other threads found
  · intro other threads found
    by_cases same : other = collector
    · subst same
      rw [Daemon.addUpdate, lookup_assign_self, Option.some.injEq] at found
      rw [← found]
      split
      · rename_i member
        exact List.ne_nil_of_mem member
      · simp
    · rw [Daemon.addUpdate, lookup_assign_of_ne same] at found
      exact formed.nonempty other threads found

theorem Formed.foldl_addUpdate (formed : Formed updates) (thread : ThreadName) (collectors : List Collector) :
    Formed (collectors.foldl (Daemon.addUpdate thread) updates) := by
  induction collectors generalizing updates with
  | nil => exact formed
  | cons collector rest ih => exact ih (formed.addUpdate thread collector)

section

variable {getPtr : ThreadName → Option Nat} {ptr : ThreadName → Nat}

structure Spread (ptr : ThreadName → Nat) (source : ThreadName) (destination : List ThreadName)
    (state next : InstrumentationUpdates × InstrumentationTable) : Prop where
  others : ∀ other ∉ destination, lookup other next.2 = lookup other state.2
  known : ∀ thread ∈ destination, (lookup thread next.2).isSome ↔
    (lookup thread state.2).isSome ∨ (lookup source state.2).isSome
  copied : ∀ thread ∈ destination, ∀ collector, instrumentation next.2 thread collector =
    (instrumentation state.2 thread collector).or
      ((instrumentation state.2 source collector).map (copies (ptr thread)))
  reported : ∀ collector thread, Reported next.1 collector thread ↔
    Reported state.1 collector thread ∨ (thread ∈ destination ∧
      instrumentation state.2 thread collector = none ∧
      (instrumentation state.2 source collector).isSome)
  formed : Formed state.1 → Formed next.1

variable {table next : InstrumentationTable}

theorem instrumentation_congr {thread : ThreadName}
    (same : lookup thread next = lookup thread table) (collector : Collector) :
    instrumentation next thread collector = instrumentation table thread collector := by
  rw [instrumentation, same, instrumentation]

theorem Copied.source {address : Nat} {source destination : ThreadName}
    {collectors : List Collector} (copied : Copied address source destination table collectors next) :
    ((lookup source next).isSome ↔ (lookup source table).isSome) ∧
      ∀ collector, instrumentation next source collector = instrumentation table source collector := by
  by_cases same : source = destination
  · subst same
    refine ⟨by rw [copied.known, or_self], fun collector => ?_⟩
    rw [copied.copied, or_map_self]
  · refine ⟨by rw [copied.others source same], fun collector => ?_⟩
    exact instrumentation_congr (copied.others source same) collector

theorem copyToThreads_ok {source : ThreadName} {destination : List ThreadName}
    (attached : ∀ thread ∈ destination, getPtr thread = some (ptr thread))
    (state : InstrumentationUpdates × InstrumentationTable) :
    ∃ next, destination.foldlM (copyToThread getPtr source) state = some next ∧
      Spread ptr source destination state next := by
  induction destination generalizing state with
  | nil => exact ⟨state, rfl, by simp, by simp, by simp, by simp, id⟩
  | cons thread rest ih =>
    obtain ⟨collectors, table, ran, copied⟩ :=
      @copyInstrumentation_ok getPtr source thread (ptr thread) (attached thread (by simp)) state.2
    obtain ⟨next, others, spread⟩ := ih (fun other member => attached other (by simp [member]))
      (collectors.foldl (addUpdate thread) state.1, table)
    obtain ⟨stillThere, stillThese⟩ := copied.source
    refine ⟨next, ?_, ?_, ?_, ?_, ?_, ?_⟩
    · rw [List.foldlM_cons, copyToThread, ran]
      exact others
    · intro other outside
      rw [List.mem_cons, not_or] at outside
      rw [spread.others other outside.2, copied.others other outside.1]
    · intro other member
      by_cases later : other ∈ rest
      · rw [spread.known other later, stillThere]
        by_cases same : other = thread
        · rw [same, copied.known]
          tauto
        · rw [copied.others other same]
      · obtain rfl := (List.mem_cons.mp member).resolve_right later
        rw [spread.others other later, copied.known]
    · intro other member collector
      by_cases later : other ∈ rest
      · rw [spread.copied other later, stillThese]
        by_cases same : other = thread
        · rw [same, copied.copied, Option.or_assoc, Option.or_self]
        · rw [instrumentation_congr (copied.others other same)]
      · obtain rfl := (List.mem_cons.mp member).resolve_right later
        rw [instrumentation_congr (spread.others other later), copied.copied]
    · intro collector other
      rw [spread.reported, reported_foldl_addUpdate, copied.collectors, stillThese]
      by_cases same : other = thread
      · subst same
        rw [copied.copied]
        cases instrumentation state.2 other collector <;>
          cases instrumentation state.2 source collector <;> simp
      · rw [instrumentation_congr (copied.others other same)]
        simp [same]
    · exact fun formed => spread.formed (formed.foldl_addUpdate thread collectors)

structure CopiedFrom (ptr : ThreadName → Nat) (before : InstrumentationTable)
    (destination seen : List ThreadName) (state : InstrumentationUpdates × InstrumentationTable) :
    Prop where
  others : ∀ other ∉ destination, lookup other state.2 = lookup other before
  known : ∀ thread ∈ destination, (lookup thread state.2).isSome ↔
    ∃ source ∈ seen, (lookup source before).isSome
  copied : ∀ thread ∈ destination, ∀ collector, instrumentation state.2 thread collector =
    (firstInstrumentation before seen collector).map (copies (ptr thread))
  reported : ∀ collector thread, Reported state.1 collector thread ↔
    thread ∈ destination ∧ (firstInstrumentation before seen collector).isSome
  formed : Formed state.1

theorem firstInstrumentation_append (table : InstrumentationTable) (seen : List ThreadName)
    (thread : ThreadName) (collector : Collector) : firstInstrumentation table (seen ++ [thread]) collector =
      (firstInstrumentation table seen collector).or (instrumentation table thread collector) := by
  unfold firstInstrumentation
  rw [List.findSome?_append]
  cases found : instrumentation table thread collector with
  | none => simp [found]
  | some entries => simp [found]

theorem firstInstrumentation_isSome {table : InstrumentationTable} {source : List ThreadName}
    {collector : Collector} : (firstInstrumentation table source collector).isSome ↔
      ∃ thread ∈ source, (instrumentation table thread collector).isSome := by
  simp [firstInstrumentation]

variable {before : InstrumentationTable} {destination : List ThreadName}

theorem CopiedFrom.step {seen : List ThreadName}
    {state next : InstrumentationUpdates × InstrumentationTable} {source : ThreadName}
    (fresh : ∀ thread ∈ destination, lookup thread before = none)
    (copiedFrom : CopiedFrom ptr before destination seen state)
    (spread : Spread ptr source destination state next) :
    CopiedFrom ptr before destination (seen ++ [source]) next := by
  -- A destination thread that is a source has nothing that the others do not have by now.
  have sources : ∀ thread ∈ destination, ∀ collector,
      (instrumentation state.2 thread collector).or
          ((instrumentation state.2 source collector).map (copies (ptr thread))) =
        (firstInstrumentation before (seen ++ [source]) collector).map (copies (ptr thread)) := by
    intro thread member collector
    rw [copiedFrom.copied thread member, firstInstrumentation_append]
    by_cases inside : source ∈ destination
    · have nothing : instrumentation before source collector = none := by
        rw [instrumentation, fresh source inside, Option.bind_none]
      rw [copiedFrom.copied source inside, nothing]
      cases firstInstrumentation before seen collector <;> simp
    · rw [instrumentation_congr (copiedFrom.others source inside)]
      cases firstInstrumentation before seen collector <;> simp
  have entries : ∀ thread ∈ destination, ((lookup thread state.2).isSome ∨
      (lookup source state.2).isSome ↔ ∃ other ∈ seen ++ [source], (lookup other before).isSome) := by
    intro thread member
    rw [copiedFrom.known thread member]
    by_cases inside : source ∈ destination
    · rw [copiedFrom.known source inside]
      simp [fresh source inside]
    · rw [copiedFrom.others source inside]
      simp [or_and_right, exists_or]
  constructor
  · intro other outside
    rw [spread.others other outside, copiedFrom.others other outside]
  · intro thread member
    rw [spread.known thread member, entries thread member]
  · intro thread member collector
    rw [spread.copied thread member, sources thread member]
  · intro collector thread
    rw [spread.reported, copiedFrom.reported]
    by_cases member : thread ∈ destination
    · have same := sources thread member collector
      have here := copiedFrom.copied thread member collector
      rw [here] at same ⊢
      have isSome := congrArg Option.isSome same
      rw [Option.isSome_or, Option.isSome_map, Option.isSome_map, Option.isSome_map] at isSome
      rw [← isSome]
      cases firstInstrumentation before seen collector <;> simp [member]
    · simp [member]
  · exact spread.formed copiedFrom.formed

theorem copyLoops_ok (source : List ThreadName)
    (attached : ∀ thread ∈ destination, getPtr thread = some (ptr thread))
    (fresh : ∀ thread ∈ destination, lookup thread before = none) : ∃ final,
    source.foldlM (fun state thread => destination.foldlM (copyToThread getPtr thread) state)
        ([], before) = some final ∧ CopiedFrom ptr before destination source final := by
  refine Runs.run_total (CopiedFrom ptr before destination) ?_ ?_
  · refine ⟨fun _ _ => rfl, fun thread member => by simp [fresh thread member], ?_, ?_, ?_⟩
    · intro thread member collector
      rw [instrumentation, fresh thread member]
      rfl
    · simp [Reported, firstInstrumentation]
    · exact ⟨List.nodup_nil, by simp, by simp⟩
  · intro seen thread rest state _ copiedFrom
    obtain ⟨next, ran, spread⟩ := @copyToThreads_ok getPtr ptr thread destination attached state
    exact ⟨next, ran, copiedFrom.step fresh spread⟩

theorem copyLoops_of_known {source : List ThreadName} {table : InstrumentationTable}
    (attached : ∀ thread ∈ destination, (getPtr thread).isSome)
    (known : ∀ origin ∈ source, ∀ thread ∈ destination,
      ((lookup origin table).isSome → (lookup thread table).isSome) ∧
        ∀ collector, (instrumentation table origin collector).isSome →
          (instrumentation table thread collector).isSome) :
    source.foldlM (fun state thread => destination.foldlM (copyToThread getPtr thread) state)
      ([], table) = some ([], table) := by
  have inner : ∀ origin ∈ source, ∀ threads ⊆ destination,
      threads.foldlM (copyToThread getPtr origin) ([], table) = some ([], table) := by
    intro origin member threads inside
    induction threads with
    | nil => rfl
    | cons thread rest ih =>
      obtain ⟨here, others⟩ := List.cons_subset.mp inside
      have both := known origin member thread here
      rw [List.foldlM_cons, copyToThread, copyInstrumentation_of_known (attached thread here) both.1 both.2]
      exact ih others
  clear known
  induction source with
  | nil => rfl
  | cons origin rest ih =>
    rw [List.foldlM_cons, inner origin (by simp) destination (List.Subset.refl _)]
    exact ih fun other member => inner other (by simp [member])

/-- Each new thread gets the instrumentation of the collectors of its own experiment, each
pair is reported once in a message that the front end accepts, and a second copy does nothing. -/
structure StaysInside (getPtr : ThreadName → Option Nat) (source destination : List ThreadName)
    (before : InstrumentationTable) (messages : InstrumentationUpdates)
    (after : InstrumentationTable) : Prop where
  own : ∀ thread ∈ destination, ∀ collector, instrumentation after thread collector =
    if collector.experiment = thread.experiment then
      (firstInstrumentation before source collector).map (copies ((getPtr thread).getD 0))
    else none
  once : (messages.flatMap fun update => update.2.map fun thread => (update.1, thread)).Nodup
  all : ∀ collector thread, (∃ update ∈ messages, update.1 = collector ∧ thread ∈ update.2) ↔
    thread ∈ destination ∧ (instrumentation after thread collector).isSome
  accepted : ∀ update ∈ messages, frontendAccepts update = true
  again : copyInstrumentation getPtr source destination after = some ([], after)
  others : ∀ other ∉ destination, lookup other after = lookup other before

variable {updates : InstrumentationUpdates}

theorem Formed.mem_iff (formed : Formed updates) {collector : Collector} {thread : ThreadName} :
    (∃ update ∈ updates, update.1 = collector ∧ thread ∈ update.2) ↔ Reported updates collector thread := by
  constructor
  · rintro ⟨update, member, rfl, inside⟩
    exact ⟨update.2, (mem_iff_lookup formed.collectors).mp member, inside⟩
  · rintro ⟨threads, found, inside⟩
    exact ⟨(collector, threads), (mem_iff_lookup formed.collectors).mpr found, rfl, inside⟩

theorem Formed.nodup_pairs (formed : Formed updates) :
    (updates.flatMap fun update => update.2.map fun thread => (update.1, thread)).Nodup := by
  refine List.nodup_flatMap.mpr ⟨fun update member => ?_, ?_⟩
  · have threads := formed.threads update.1 update.2 ((mem_iff_lookup formed.collectors).mp member)
    exact threads.map fun first second same => (Prod.mk.inj same).2
  · refine (List.pairwise_map.mp formed.collectors).imp fun {first second} different => ?_
    intro pair here there
    obtain ⟨thread, -, rfl⟩ := List.mem_map.mp here
    obtain ⟨other, -, same⟩ := List.mem_map.mp there
    exact different (congrArg Prod.fst same).symm

/-- Copies stay inside their experiments exactly when no source thread has a collector of an
experiment that a destination thread is not in. -/
theorem copyInstrumentation_staysInside_iff {source : List ThreadName}
    (attached : ∀ thread ∈ destination, (getPtr thread).isSome)
    (fresh : ∀ thread ∈ destination, lookup thread before = none) : ∃ messages after,
    copyInstrumentation getPtr source destination before = some (messages, after) ∧
      (StaysInside getPtr source destination before messages after ↔
        ∀ origin ∈ source, ∀ collector, (instrumentation before origin collector).isSome →
          ∀ thread ∈ destination, collector.experiment = thread.experiment) := by
  have addresses : ∀ thread ∈ destination, getPtr thread = some ((getPtr thread).getD 0) := by
    intro thread member
    obtain ⟨address, found⟩ := Option.isSome_iff_exists.mp (attached thread member)
    rw [found, Option.getD_some]
  obtain ⟨⟨updates, after⟩, ran, copied⟩ :=
    @copyLoops_ok getPtr (fun thread => (getPtr thread).getD 0) before destination source addresses fresh
  have all : updates.filter (fun update => !update.2.isEmpty) = updates := by
    refine List.filter_eq_self.mpr fun update member => ?_
    have some := copied.formed.nonempty update.1 update.2 ((mem_iff_lookup copied.formed.collectors).mp member)
    simpa using some
  have isSome : ∀ thread ∈ destination, ∀ collector,
      ((instrumentation after thread collector).isSome ↔
        (firstInstrumentation before source collector).isSome) := by
    intro thread member collector
    rw [copied.copied thread member, Option.isSome_map]
  refine ⟨updates, after, ?_, fun inside => ?_, fun separate => ?_⟩
  · rw [copyInstrumentation, ran]
    simp [all]
  · intro origin member collector here thread present
    by_contra different
    have nothing := inside.own thread present collector
    rw [if_neg different] at nothing
    have there := (isSome thread present collector).mpr
      (firstInstrumentation_isSome.mpr ⟨origin, member, here⟩)
    rw [nothing] at there
    cases there
  · have apart : ∀ thread ∈ destination, ∀ collector,
        (firstInstrumentation before source collector).isSome → collector.experiment = thread.experiment := by
      intro thread present collector here
      obtain ⟨origin, member, has⟩ := firstInstrumentation_isSome.mp here
      exact separate origin member collector has thread present
    constructor
    · intro thread present collector
      rw [copied.copied thread present]
      split
      · rfl
      · rename_i different
        cases found : firstInstrumentation before source collector with
        | none => rfl
        | some entries =>
          exact absurd (apart thread present collector (by rw [found]; rfl)) different
    · exact copied.formed.nodup_pairs
    · intro collector thread
      rw [copied.formed.mem_iff, copied.reported]
      exact and_congr_right fun present => (isSome thread present collector).symm
    · intro update member
      rw [frontendAccepts, List.all_eq_true]
      intro thread inside
      have reported := copied.formed.mem_iff.mp ⟨update, member, rfl, inside⟩
      obtain ⟨present, here⟩ := (copied.reported update.1 thread).mp reported
      exact decide_eq_true (apart thread present update.1 here).symm
    · rw [copyInstrumentation, copyLoops_of_known attached]
      · rfl
      · intro origin member thread present
        constructor
        · intro here
          rw [copied.known thread present]
          by_cases inside : origin ∈ destination
          · exact (copied.known origin inside).mp here
          · rw [copied.others origin inside] at here
            exact ⟨origin, member, here⟩
        · intro collector here
          rw [isSome thread present]
          by_cases inside : origin ∈ destination
          · exact (isSome origin inside collector).mp here
          · rw [instrumentation_congr (copied.others origin inside)] at here
            exact firstInstrumentation_isSome.mpr ⟨origin, member, here⟩
    · exact copied.others

end

def threadIn (experiment : Int) (tid : UInt64) : ThreadName := ⟨experiment, "node1", 4711, some tid⟩

def oneCollector : InstrumentationTable :=
  [(threadIn 1 140001, ⟨[], [(⟨1, 1⟩, [⟨.executeNow false "pcsamp_start_sampling" [0], 16⟩])]⟩)]

theorem copyInstrumentation_staysInside_iff_oneExperiment : ∃ messages after,
    copyInstrumentation (fun _ => some 32) [threadIn 1 140001] [threadIn 1 140002] oneCollector =
        some (messages, after) ∧
      (StaysInside (fun _ => some 32) [threadIn 1 140001] [threadIn 1 140002] oneCollector messages after ↔
        ∀ origin ∈ [threadIn 1 140001], ∀ collector,
          (instrumentation oneCollector origin collector).isSome →
            ∀ thread ∈ [threadIn 1 140002], collector.experiment = thread.experiment) :=
  copyInstrumentation_staysInside_iff (by simp) (by decide)

theorem other_experiment_instrumented : ∃ messages after,
    copyInstrumentation (fun _ => some 32) [threadIn 1 140001]
        [threadIn 1 140002, threadIn 2 140002] oneCollector = some (messages, after) ∧
      ¬ StaysInside (fun _ => some 32) [threadIn 1 140001]
        [threadIn 1 140002, threadIn 2 140002] oneCollector messages after :=
  ⟨_, _, rfl, fun inside =>
    absurd (inside.own (threadIn 2 140002) (by simp) ⟨1, 1⟩) (by decide)⟩

end Daemon

end OpenSpeedShop
