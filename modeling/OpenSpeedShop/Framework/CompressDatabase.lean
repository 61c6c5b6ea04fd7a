import OpenSpeedShop.Framework.PrunedTables
import OpenSpeedShop.Framework.SampledSymbols

/-!
Compression keeps the symbols of a sampled address exactly where the search of the
first executable with samples finds them.
-/

namespace OpenSpeedShop

open Fallible
open OffsetBinary (encode)
open ThreadGroup (symbolsIn linkedObjectsIn)

namespace CompressDatabase

section

variable {environment : Environment} {state next final : State} {result : Result Unit}

structure Settled (state : State) : Prop where
  functions : ∀ row ∈ state.tables.functions.objects, row.id ∉ state.tgrpFunctions.image Entry.dmEntry
  statements : ∀ row ∈ state.tables.statements.objects, row.id ∉ state.tgrpStatements.image Entry.dmEntry
  ranges : ∀ range ∈ state.tables.statements.ranges,
    range.object.toInt ∈ state.tables.statements.objects.map ObjectRow.id

theorem settled_prune (state : State) : Settled state.prune := by
  refine ⟨fun row member => ?_, fun row member => ?_, fun range member => ?_⟩
  · exact of_decide_eq_true (List.mem_filter.mp member).2
  · exact of_decide_eq_true (List.mem_filter.mp member).2
  · exact of_decide_eq_true (List.mem_filter.mp member).2

theorem not_mem_image_of_subset {few many : Finset Entry} (subset : few ⊆ many) {id : Int}
    (absent : id ∉ many.image Entry.dmEntry) : id ∉ few.image Entry.dmEntry :=
  fun member => absent (Finset.image_subset_image subset member)

theorem Settled.prune_tables (settled : Settled state) :
    state.prune.tables = { state.tables with files := state.prune.tables.files } := by
  have functions : state.tables.functions.objects.filter (fun row =>
      row.id ∉ (state.tgrpFunctions \ state.marked.expFuncs).image Entry.dmEntry) =
      state.tables.functions.objects := by
    refine List.filter_eq_self.mpr fun row member => decide_eq_true ?_
    exact not_mem_image_of_subset Finset.sdiff_subset (settled.functions row member)
  have statements : state.tables.statements.objects.filter (fun row =>
      row.id ∉ (state.tgrpStatements \ state.marked.expas).image Entry.dmEntry) =
      state.tables.statements.objects := by
    refine List.filter_eq_self.mpr fun row member => decide_eq_true ?_
    exact not_mem_image_of_subset Finset.sdiff_subset (settled.statements row member)
  have ranges : state.tables.statements.ranges.filter (fun range =>
      range.object.toInt ∈ state.tables.statements.objects.map ObjectRow.id) =
      state.tables.statements.ranges :=
    List.filter_eq_self.mpr fun range member => decide_eq_true (settled.ranges range member)
  simp only [State.prune, ExperimentTables.deleteFunctions, ExperimentTables.deleteStatements,
    ExperimentTables.deleteFiles, functions, statements, ranges]

theorem compressExecutable_ok {threads : List Entry}
    (ran : compressExecutable environment state threads = .ok next) :
    ∃ gathered marked, gather environment threads state.buffer = .ok gathered ∧
      examine environment state.tables threads gathered.buffer.addresses state.marked = .ok marked ∧
      next = if gathered.hasSampledData then
          { state with buffer := gathered.buffer.clear, marked := marked }.prune
        else { state with buffer := gathered.buffer.clear, marked := marked } := by
  simp only [compressExecutable, bind_eq_ok] at ran
  obtain ⟨gathered, collected, marked, examined, returned⟩ := ran
  exact ⟨gathered, marked, collected, examined, (Except.ok.inj returned).symm⟩

theorem Settled.compressExecutable {threads : List Entry} (settled : Settled state)
    (ran : compressExecutable environment state threads = .ok next) :
    Settled next ∧ next.tables = { state.tables with files := next.tables.files } := by
  obtain ⟨gathered, marked, -, -, rfl⟩ := compressExecutable_ok ran
  split
  · refine ⟨settled_prune _, ?_⟩
    exact @Settled.prune_tables { state with buffer := gathered.buffer.clear, marked := marked }
      ⟨settled.functions, settled.statements, settled.ranges⟩
  · exact ⟨⟨settled.functions, settled.statements, settled.ranges⟩, rfl⟩

variable {executables : List (List Entry)}

theorem Settled.compressExecutables : ∀ {state : State}, Settled state →
      compressExecutables environment executables state = (final, result) →
      ∃ files, final.tables = { state.tables with files := files } := by
  induction executables with
  | nil =>
    intro state settled ran
    cases ran
    exact ⟨_, rfl⟩
  | cons threads rest ih =>
    intro state settled ran
    unfold CompressDatabase.compressExecutables at ran
    split at ran
    next =>
      cases ran
      exact ⟨_, rfl⟩
    next next compressed =>
      obtain ⟨settledNext, same⟩ := settled.compressExecutable compressed
      obtain ⟨files, whole⟩ := ih settledNext ran
      exact ⟨files, by rw [whole, same]⟩

theorem clean_clear (buffer : PCBuffer) : Clean buffer.clear := ⟨rfl, rfl⟩

theorem compressExecutables_tables : ∀ {state : State}, Clean state.buffer →
      compressExecutables environment executables state = (final, result) →
      (final.tables = state.tables ∧ (result = .ok () → firstSampled environment executables = none)) ∨
      ∃ threads addresses marked files, firstSampled environment executables = some (threads, addresses) ∧
        examine environment state.tables threads addresses state.marked = .ok marked ∧
        final.tables = { { state with marked := marked }.prune.tables with files := files } := by
  induction executables with
  | nil =>
    intro state _ ran
    cases ran
    exact .inl ⟨rfl, fun _ => rfl⟩
  | cons threads rest ih =>
    intro state clean ran
    unfold compressExecutables at ran
    split at ran
    next failure failed =>
      cases ran
      exact .inl ⟨rfl, fun impossible => by cases impossible⟩
    next next compressed =>
      obtain ⟨gathered, marked, collected, examined, rfl⟩ := compressExecutable_ok compressed
      obtain ⟨other, again, data, addresses⟩ := gather_clean clean collected
      cases sampled : gathered.hasSampledData with
      | true =>
        rw [sampled] at ran data
        obtain ⟨files, whole⟩ := (settled_prune _).compressExecutables ran
        refine .inr ⟨threads, gathered.buffer.addresses, marked, files, ?_, examined, whole⟩
        simp [firstSampled, again, data, addresses]
      | false =>
        rw [sampled] at ran data
        have none := gather_without clean collected sampled
        rw [none] at examined
        obtain rfl : state.marked = marked := Except.ok.inj examined
        have skipped : firstSampled environment (threads :: rest) = firstSampled environment rest := by
          simp [firstSampled, again, data]
        rw [skipped]
        have later := ih (clean_clear _) ran
        exact later

end

section

variable (environment : Environment) (database : DatabasePtr) (tables : ExperimentTables)

/-- The search of the first executable with samples finds the function, or no executable
has samples. -/
def KeepsFunction (function : Entry) : Prop :=
  ∀ threadsOf threads addresses, executables environment database tables = .ok threadsOf →
    firstSampled environment threadsOf = some (threads, addresses) →
    FoundFunction environment tables threads addresses function

def KeepsStatement (statement : Entry) : Prop :=
  ∀ threadsOf threads addresses, executables environment database tables = .ok threadsOf →
    firstSampled environment threadsOf = some (threads, addresses) →
    FoundStatement environment tables threads addresses statement

def KeepsObject (linkedObject : Int32) : Prop :=
  (∃ row ∈ tables.functions.objects, row.linkedObject = linkedObject ∧
    KeepsFunction environment database tables ⟨database, row.id⟩) ∨
  ∃ row ∈ tables.statements.objects, row.linkedObject = linkedObject ∧
    KeepsStatement environment database tables ⟨database, row.id⟩

def Sampled (thread : Entry) (pc : Address) : Prop :=
  thread ∈ tables.getThreads database ∧ ∃ collector ∈ environment.collectors, pc ∈ collector thread

def Preserved (after : ExperimentTables) : Prop :=
  ∀ thread pc time, Sampled environment database tables thread pc →
    (∀ function, Thread.getFunctionAt tables.databases thread pc time = .ok function →
      Thread.getFunctionAt after.databases thread pc time = .ok function) ∧
    ∀ statements, Thread.getStatementsAt tables.databases thread pc time = .ok statements →
      Thread.getStatementsAt after.databases thread pc time = .ok statements

open Classical in
/-- The symbols of a sampled program counter are kept, and a mapping without kept symbols
does not hide any. -/
structure Resolved : Prop where
  function : ∀ thread pc time, Sampled environment database tables thread pc →
    ∀ function, Thread.getFunctionAt tables.databases thread pc time = .ok (some function) →
      KeepsFunction environment database tables function
  statements : ∀ thread pc time, Sampled environment database tables thread pc →
    ∀ statements, Thread.getStatementsAt tables.databases thread pc time = .ok statements →
      ∀ statement ∈ statements, KeepsStatement environment database tables statement
  functionCovered : ∀ thread pc time, Sampled environment database tables thread pc →
    Thread.Covered tables.functions
      (fun id => KeepsFunction environment database tables ⟨database, id⟩)
      (fun space => KeepsObject environment database tables space.linkedObject)
      (Thread.spacesAt tables.toSymbolTables thread pc time) pc
  statementsCovered : ∀ thread pc time, Sampled environment database tables thread pc →
    Thread.Covered tables.statements
      (fun id => KeepsStatement environment database tables ⟨database, id⟩)
      (fun space => KeepsObject environment database tables space.linkedObject)
      (Thread.spacesAt tables.toSymbolTables thread pc time) pc

def Linked : Prop :=
  ∀ row ∈ tables.addressSpaces, row.linkedObject.toInt ∈ tables.linkedObjects.map (·.id)

end

section

variable {environment : Environment} {database : DatabasePtr} {tables after : ExperimentTables}

theorem not_mem_image_sdiff {all marked : Finset Entry}
    (own : ∀ entry ∈ all, entry.dmDatabase = database) {id : Int} : id ∉ (all \ marked).image Entry.dmEntry ↔
      ((⟨database, id⟩ : Entry) ∈ all → (⟨database, id⟩ : Entry) ∈ marked) := by
  rw [Finset.mem_image]
  constructor
  · intro absent member
    by_contra unmarked
    exact absent ⟨⟨database, id⟩, Finset.mem_sdiff.mpr ⟨member, unmarked⟩, rfl⟩
  · rintro marks ⟨⟨owner, entry⟩, member, rfl⟩
    obtain ⟨inAll, unmarked⟩ := Finset.mem_sdiff.mp member
    obtain rfl : owner = database := own _ inAll
    exact unmarked (marks inAll)

variable {Columns : Type}

variable {group : List Entry}

theorem mem_symbolsIn {select : SymbolTables → ObjectTables Columns} {symbol : Entry} :
    symbol ∈ symbolsIn select database tables group ↔ ∃ row ∈ (select tables.toSymbolTables).objects,
        row.linkedObject ∈ linkedObjectsIn database tables group ∧ ⟨database, row.id⟩ = symbol := by
  simp [symbolsIn, and_assoc]

theorem mem_linkedObjectsIn {linkedObject : Int32} : linkedObject ∈ linkedObjectsIn database tables group ↔
      ∃ row ∈ tables.addressSpaces, ⟨database, row.thread.toInt⟩ ∈ group ∧
        row.linkedObject = linkedObject := by
  simp [linkedObjectsIn, and_assoc]

def LeavesFunction (environment : Environment) (database : DatabasePtr)
    (tables : ExperimentTables) (id : Int) : Prop :=
  ⟨database, id⟩ ∈ ThreadGroup.getFunctions database tables (tables.getThreads database) →
    KeepsFunction environment database tables ⟨database, id⟩

def LeavesStatement (environment : Environment) (database : DatabasePtr)
    (tables : ExperimentTables) (id : Int) : Prop :=
  ⟨database, id⟩ ∈ ThreadGroup.getStatements database tables (tables.getThreads database) →
    KeepsStatement environment database tables ⟨database, id⟩

open Classical in
structure Leaves (environment : Environment) (database : DatabasePtr)
    (tables after : ExperimentTables) : Prop where
  functions : tables.functions.Keeps (LeavesFunction environment database tables) after.functions
  statements : tables.statements.Keeps (LeavesStatement environment database tables) after.statements

theorem own_symbolsIn {select : SymbolTables → ObjectTables Columns} :
    ∀ entry ∈ symbolsIn select database tables group, entry.dmDatabase = database := by
  intro entry member
  obtain ⟨row, -, -, rfl⟩ := mem_symbolsIn.mp member
  rfl

open Classical in
theorem leaves_of_unsampled {threadsOf : List (List Entry)}
    (listed : executables environment database tables = .ok threadsOf)
    (none : firstSampled environment threadsOf = none) : Leaves environment database tables tables := by
  have functions : ∀ function, KeepsFunction environment database tables function := by
    intro function others threads addresses again first
    rw [listed] at again
    cases again
    rw [none] at first
    cases first
  have statements : ∀ statement, KeepsStatement environment database tables statement := by
    intro statement others threads addresses again first
    rw [listed] at again
    cases again
    rw [none] at first
    cases first
  constructor
  · refine ⟨?_, fun _ => true, by simp, by simp⟩
    refine (List.filter_eq_self.mpr fun row _ => ?_).symm
    rw [decide_eq_true_eq]
    exact fun _ => functions _
  · refine ⟨?_, fun _ => true, by simp, by simp⟩
    refine (List.filter_eq_self.mpr fun row _ => ?_).symm
    rw [decide_eq_true_eq]
    exact fun _ => statements _

open Classical in
theorem leaves_prune {threadsOf : List (List Entry)} {threads : List Entry}
    {addresses : List Address} {marked : Marked} {files : List FileRow}
    (listed : executables environment database tables = .ok threadsOf)
    (first : firstSampled environment threadsOf = some (threads, addresses))
    (examined : examine environment tables threads addresses ⟨∅, ∅, ∅⟩ = .ok marked) :
    Leaves environment database tables
      { { start database tables with marked := marked }.prune.tables with files := files } := by
  obtain ⟨functions, statements⟩ := examine_ok examined
  have keepsFunction : ∀ function, KeepsFunction environment database tables function ↔
      function ∈ marked.expFuncs := by
    intro function
    rw [functions]
    constructor
    · exact fun keeps => keeps _ _ _ listed first
    · intro found others otherThreads otherAddresses again firstAgain
      rw [listed] at again
      cases again
      rw [first] at firstAgain
      cases firstAgain
      exact found
  have keepsStatement : ∀ statement, KeepsStatement environment database tables statement ↔
      statement ∈ marked.expas := by
    intro statement
    rw [statements]
    constructor
    · exact fun keeps => keeps _ _ _ listed first
    · intro found others otherThreads otherAddresses again firstAgain
      rw [listed] at again
      cases again
      rw [first] at firstAgain
      cases firstAgain
      exact found
  constructor
  · refine ⟨?_, fun _ => true, by simp [State.prune, start, ExperimentTables.deleteFunctions,
      ExperimentTables.deleteStatements, ExperimentTables.deleteFiles], by simp⟩
    refine List.filter_congr fun row _ => ?_
    rw [decide_eq_decide, LeavesFunction, keepsFunction]
    exact not_mem_image_sdiff own_symbolsIn
  · have objects : (start database tables).tables.statements.objects.filter (fun row =>
        row.id ∉ (ThreadGroup.getStatements database tables (tables.getThreads database) \
          marked.expas).image Entry.dmEntry) =
        tables.statements.objects.filter fun row =>
          LeavesStatement environment database tables row.id := by
      refine List.filter_congr fun row _ => ?_
      rw [decide_eq_decide, LeavesStatement, keepsStatement]
      exact not_mem_image_sdiff own_symbolsIn
    refine ⟨objects, _, rfl, fun range _ row member joined leaves => ?_⟩
    refine decide_eq_true (List.mem_map.mpr ⟨row, ?_, joined⟩)
    exact objects ▸ List.mem_filter.mpr ⟨member, decide_eq_true leaves⟩

theorem clean_empty : Clean .empty := ⟨rfl, rfl⟩

theorem compressDB_ran {result : Result Unit}
    (ran : compressDB environment database tables = (after, result)) :
    ∃ pruned, pruned.addressSpaces = tables.addressSpaces ∧ pruned.linkedObjects = tables.linkedObjects ∧
      ((result = .ok () ∧ Leaves environment database tables pruned ∧
          after = pruned.deleteLinkedObjects.deleteFiles.deleteAddressSpaces) ∨ (result ≠ .ok () ∧
          (pruned = tables ∨ Leaves environment database tables pruned) ∧ after = pruned)) := by
  unfold compressDB at ran
  split at ran
  next =>
    cases ran
    exact ⟨tables, rfl, rfl, .inr ⟨by simp, .inl rfl, rfl⟩⟩
  next threadsOf listed =>
    have pruned : ∀ {state : State} {ended : Result Unit},
        compressExecutables environment threadsOf (start database tables) = (state, ended) →
        state.tables.addressSpaces = tables.addressSpaces ∧
          state.tables.linkedObjects = tables.linkedObjects ∧
          (ended = .ok () → Leaves environment database tables state.tables) ∧
          (state.tables = tables ∨ Leaves environment database tables state.tables) := by
      intro state ended looped
      rcases compressExecutables_tables clean_empty looped with
        ⟨same, unsampled⟩ | ⟨threads, addresses, marked, files, first, examined, whole⟩
      · rw [same]
        refine ⟨rfl, rfl, fun completed => ?_, .inl rfl⟩
        exact leaves_of_unsampled listed (unsampled completed)
      · have leaves := @leaves_prune _ _ _ _ _ _ _ files listed first examined
        rw [whole]
        exact ⟨rfl, rfl, fun _ => leaves, .inr leaves⟩
    split at ran
    next state failure looped =>
      cases ran
      obtain ⟨spaces, objects, -, left⟩ := pruned looped
      exact ⟨state.tables, spaces, objects, .inr ⟨by simp, left, rfl⟩⟩
    next state looped =>
      cases ran
      obtain ⟨spaces, objects, leaves, -⟩ := pruned looped
      exact ⟨state.tables, spaces, objects, .inl ⟨rfl, leaves rfl, rfl⟩⟩

theorem deleteAddressSpaces_eq {pruned : ExperimentTables} (linked : Linked pruned) :
    pruned.deleteLinkedObjects.deleteFiles.deleteAddressSpaces.addressSpaces =
      pruned.addressSpaces.filter fun row =>
        row.linkedObject ∈ pruned.functions.objects.map (·.linkedObject) ∨
          row.linkedObject ∈ pruned.statements.objects.map (·.linkedObject) := by
  refine List.filter_congr fun row member => ?_
  rw [decide_eq_decide]
  have present := linked row member
  simp only [ExperimentTables.deleteFiles, ExperimentTables.deleteLinkedObjects, List.mem_map,
    List.mem_filter, decide_eq_true_eq] at present ⊢
  obtain ⟨object, inObjects, named⟩ := present
  constructor
  · rintro (⟨other, ⟨-, ⟨function, inFunctions, same⟩ | ⟨statement, inStatements, same⟩⟩, equal⟩ |
      used)
    · exact .inl ⟨function, inFunctions, Int32.toInt_inj.mp (same.trans equal)⟩
    · exact .inr ⟨statement, inStatements, Int32.toInt_inj.mp (same.trans equal)⟩
    · exact .inr used
  · rintro (⟨function, inFunctions, same⟩ | used)
    · exact .inl ⟨object, ⟨inObjects, .inl ⟨function, inFunctions, by rw [same, named]⟩⟩, named⟩
    · exact .inr used

theorem mem_getThreads {thread : Entry} (member : thread ∈ tables.getThreads database) :
    thread.dmDatabase = database := by
  obtain ⟨id, -, rfl⟩ := List.mem_map.mp member
  rfl

theorem linkedObject_mem {thread : Entry} (own : thread ∈ tables.getThreads database)
    {space : AddressSpaceRow} {address : Address} {time : Time}
    (member : space ∈ Thread.spacesAt tables.toSymbolTables thread address time) :
    space.linkedObject ∈ linkedObjectsIn database tables (tables.getThreads database) := by
  obtain ⟨inSpaces, ownThread, -⟩ := Thread.mem_spacesAt.mp member
  have same := mem_getThreads own
  subst same
  refine mem_linkedObjectsIn.mpr ⟨space, inSpaces, ?_, rfl⟩
  rw [ownThread]
  exact own

theorem mem_left_iff {select : SymbolTables → ObjectTables Columns}
    {left : ObjectTables Columns} {keep : Entry → Prop} {leaves : Int → Prop}
    [DecidablePred leaves] {linkedObject : Int32} (leavesIff : ∀ id, leaves id ↔ ((⟨database, id⟩ : Entry) ∈
      symbolsIn select database tables (tables.getThreads database) →
        keep ⟨database, id⟩)) (keeps : (select tables.toSymbolTables).Keeps leaves left)
    (used : linkedObject ∈ linkedObjectsIn database tables (tables.getThreads database)) :
    linkedObject ∈ left.objects.map (·.linkedObject) ↔
      ∃ row ∈ (select tables.toSymbolTables).objects, row.linkedObject = linkedObject ∧
        keep ⟨database, row.id⟩ := by
  simp only [keeps.objects, List.mem_map, List.mem_filter, decide_eq_true_eq, leavesIff]
  constructor
  · rintro ⟨row, ⟨member, left⟩, rfl⟩
    exact ⟨row, member, rfl, left (mem_symbolsIn.mpr ⟨row, member, used, rfl⟩)⟩
  · rintro ⟨row, member, rfl, kept⟩
    exact ⟨row, ⟨member, fun _ => kept⟩, rfl⟩

theorem leaves_iff_of_reached {select : SymbolTables → ObjectTables Columns}
    {keep : Entry → Prop} {leaves : Int → Prop} {linkedObject : Int32} {offset : Address}
    (leavesIff : ∀ id, leaves id ↔ ((⟨database, id⟩ : Entry) ∈
      symbolsIn select database tables (tables.getThreads database) →
        keep ⟨database, id⟩)) (used : linkedObject ∈
      linkedObjectsIn database tables (tables.getThreads database)) {row : Int × RangeRow}
    (member : row ∈ Thread.rangesAt (select tables.toSymbolTables) linkedObject offset) :
    (leaves row.1 ↔ keep ⟨database, row.1⟩) ∧
      ∃ object ∈ (select tables.toSymbolTables).objects, object.linkedObject = linkedObject ∧
        object.id = row.1 := by
  obtain ⟨id, range⟩ := row
  obtain ⟨-, -, object, inObjects, -, rfl, linked⟩ := Thread.mem_rangesAt.mp member
  refine ⟨?_, object, inObjects, linked, rfl⟩
  have reached : (⟨database, object.id⟩ : Entry) ∈
      symbolsIn select database tables (tables.getThreads database) :=
    mem_symbolsIn.mpr ⟨object, inObjects, linked ▸ used, rfl⟩
  rw [leavesIff]
  exact ⟨fun left => left reached, fun kept _ => kept⟩

open Classical in
theorem spacesAt_left (linked : Linked tables)
    (completed : compressDB environment database tables = (after, .ok ()))
    {thread : Entry} (own : thread ∈ tables.getThreads database) (address : Address) (time : Time) :
    Thread.spacesAt after.toSymbolTables thread address time =
      (Thread.spacesAt tables.toSymbolTables thread address time).filter fun space =>
        KeepsObject environment database tables space.linkedObject := by
  obtain ⟨pruned, spaces, objects, ⟨-, leaves, rfl⟩ | ⟨failed, -, -⟩⟩ := compressDB_ran completed
  · have linkedPruned : Linked pruned := by
      rw [Linked, spaces, objects]
      exact linked
    rw [Thread.spacesAt, deleteAddressSpaces_eq linkedPruned, spaces, Thread.spacesAt,
      List.filter_filter, List.filter_filter]
    refine List.filter_congr fun row member => ?_
    rw [Bool.and_comm]
    by_cases here : (row.thread.toInt = thread.dmEntry && between time row.timeBegin row.timeEnd &&
        between address row.addrBegin row.addrEnd) = true
    · have used := linkedObject_mem own (List.mem_filter.mpr ⟨member, here⟩)
      rw [here, Bool.and_true, Bool.and_true, decide_eq_decide, KeepsObject,
        @mem_left_iff database tables _ SymbolTables.functions _
          (KeepsFunction environment database tables) (LeavesFunction environment database tables) _ _
          (fun _ => Iff.rfl) leaves.functions used,
        @mem_left_iff database tables _ SymbolTables.statements _
          (KeepsStatement environment database tables) (LeavesStatement environment database tables)
          _ _ (fun _ => Iff.rfl) leaves.statements used]
    · rw [Bool.not_eq_true] at here
      rw [here, Bool.and_false, Bool.and_false]
  · exact absurd rfl failed

open Classical in
theorem lookup_left_iff {Columns Answer : Type} {select : SymbolTables → ObjectTables Columns}
    {keep : Entry → Prop} {leaves : Int → Prop} {left : ObjectTables Columns}
    {answer : List Int → Answer} {names : Answer → Int → Prop} (reports : Thread.Reports answer names)
    (leavesIff : ∀ id, leaves id ↔ ((⟨database, id⟩ : Entry) ∈
      ThreadGroup.symbolsIn select database tables (tables.getThreads database) → keep ⟨database, id⟩))
    (keeps : (select tables.toSymbolTables).Keeps leaves left)
    (keepsObject : ∀ row ∈ (select tables.toSymbolTables).objects, keep ⟨database, row.id⟩ →
      KeepsObject environment database tables row.linkedObject)
    {thread : Entry} (own : thread ∈ tables.getThreads database) {address : Address} {time : Time} :
    (∀ result, Thread.lookup answer (select tables.toSymbolTables)
        (Thread.spacesAt tables.toSymbolTables thread address time) address = .ok result →
      Thread.lookup answer left
        ((Thread.spacesAt tables.toSymbolTables thread address time).filter fun space =>
          KeepsObject environment database tables space.linkedObject) address = .ok result) ↔
    (∀ result, Thread.lookup answer (select tables.toSymbolTables)
        (Thread.spacesAt tables.toSymbolTables thread address time) address = .ok result →
      ∀ id, names result id → keep ⟨database, id⟩) ∧
    Thread.Covered (select tables.toSymbolTables) (fun id => keep ⟨database, id⟩)
      (fun space => KeepsObject environment database tables space.linkedObject)
      (Thread.spacesAt tables.toSymbolTables thread address time) address := by
  refine Thread.lookup_wanted_iff reports keeps ?_ ?_
  · intro space member offset row inRows
    exact (leaves_iff_of_reached leavesIff (linkedObject_mem own member) inRows).1
  · intro space member offset row inRows kept
    obtain ⟨-, object, inObjects, linked, same⟩ :=
      leaves_iff_of_reached leavesIff (linkedObject_mem own member) inRows
    rw [decide_eq_true_eq, ← linked]
    refine keepsObject object inObjects ?_
    rw [same]
    exact kept

section

variable (linked : Linked tables)
  (completed : compressDB environment database tables = (after, .ok ()))
  {thread : Entry} (own : thread ∈ tables.getThreads database) {address : Address} {time : Time}

include linked completed own

open Classical in
theorem getFunctionAt_left_iff :
    (∀ function, Thread.getFunctionAt tables.databases thread address time = .ok function →
      Thread.getFunctionAt after.databases thread address time = .ok function) ↔
    (∀ function, Thread.getFunctionAt tables.databases thread address time = .ok (some function) →
      KeepsFunction environment database tables function) ∧ Thread.Covered tables.functions
      (fun id => KeepsFunction environment database tables ⟨database, id⟩)
      (fun space => KeepsObject environment database tables space.linkedObject)
      (Thread.spacesAt tables.toSymbolTables thread address time) address := by
  have spaces := spacesAt_left linked completed own address time
  obtain ⟨pruned, -, -, ⟨-, leaves, rfl⟩ | ⟨failed, -, -⟩⟩ := compressDB_ran completed
  · have same := mem_getThreads own
    subst same
    simp only [Thread.getFunctionAt_eq, ExperimentTables.databases, spaces]
    refine (@lookup_left_iff environment _ tables _ _ SymbolTables.functions
      (KeepsFunction environment _ tables) (LeavesFunction environment _ tables) _ _ _
      (Thread.reports_function _) (fun _ => Iff.rfl) leaves.functions
      (fun row member kept => .inl ⟨row, member, rfl, kept⟩) thread own address time).trans ?_
    refine and_congr_left fun _ => ⟨fun all function ran => ?_, fun all result ran id named => ?_⟩
    · obtain ⟨found, answered⟩ := Thread.lookup_answers ran
      obtain ⟨id, -, rfl⟩ := Option.map_eq_some_iff.mp answered
      exact all _ ran id rfl
    · subst named
      exact all _ ran
  · exact absurd rfl failed

open Classical in
theorem getStatementsAt_left_iff :
    (∀ statements, Thread.getStatementsAt tables.databases thread address time = .ok statements →
      Thread.getStatementsAt after.databases thread address time = .ok statements) ↔
    (∀ statements, Thread.getStatementsAt tables.databases thread address time = .ok statements →
      ∀ statement ∈ statements, KeepsStatement environment database tables statement) ∧
    Thread.Covered tables.statements (fun id => KeepsStatement environment database tables ⟨database, id⟩)
      (fun space => KeepsObject environment database tables space.linkedObject)
      (Thread.spacesAt tables.toSymbolTables thread address time) address := by
  have spaces := spacesAt_left linked completed own address time
  obtain ⟨pruned, -, -, ⟨-, leaves, rfl⟩ | ⟨failed, -, -⟩⟩ := compressDB_ran completed
  · have same := mem_getThreads own
    subst same
    simp only [Thread.getStatementsAt_eq, ExperimentTables.databases, spaces]
    refine (@lookup_left_iff environment _ tables _ _ SymbolTables.statements
      (KeepsStatement environment _ tables) (LeavesStatement environment _ tables) _ _ _
      (Thread.reports_statements _) (fun _ => Iff.rfl) leaves.statements
      (fun row member kept => .inr ⟨row, member, rfl, kept⟩) thread own address time).trans ?_
    refine and_congr_left fun _ => ⟨fun all statements ran statement member => ?_,
      fun all result ran id named => all result ran _ named⟩
    obtain ⟨found, rfl⟩ := Thread.lookup_answers ran
    obtain ⟨id, -, rfl⟩ := List.mem_map.mp (List.mem_toFinset.mp member)
    exact all _ ran id member
  · exact absurd rfl failed

end

/-- The lookups of the sampled program counters return what they returned before the
compression exactly when the search has found what they return. -/
theorem compressDB_preserved_iff (linked : Linked tables)
    (completed : compressDB environment database tables = (after, .ok ())) :
    Preserved environment database tables after ↔ Resolved environment database tables := by
  constructor
  · intro preserved
    refine ⟨fun thread pc time sampled => ?_, fun thread pc time sampled => ?_,
      fun thread pc time sampled => ?_, fun thread pc time sampled => ?_⟩
    · have function := (preserved thread pc time sampled).1
      exact ((getFunctionAt_left_iff linked completed sampled.1).mp function).1
    · have statements := (preserved thread pc time sampled).2
      exact ((getStatementsAt_left_iff linked completed sampled.1).mp statements).1
    · have function := (preserved thread pc time sampled).1
      exact ((getFunctionAt_left_iff linked completed sampled.1).mp function).2
    · have statements := (preserved thread pc time sampled).2
      exact ((getStatementsAt_left_iff linked completed sampled.1).mp statements).2
  · intro resolved thread pc time sampled
    constructor
    · refine (getFunctionAt_left_iff linked completed sampled.1).mpr ⟨?_, ?_⟩
      · exact resolved.function thread pc time sampled
      · exact resolved.functionCovered thread pc time sampled
    · refine (getStatementsAt_left_iff linked completed sampled.1).mpr ⟨?_, ?_⟩
      · exact resolved.statements thread pc time sampled
      · exact resolved.statementsCovered thread pc time sampled

end

def mapped (thread : Int32) (addrBegin addrEnd : Address) (linkedObject : Int32) :
    AddressSpaceRow :=
  ⟨thread, OffsetBinary.encode 0, OffsetBinary.encode 100, OffsetBinary.encode addrBegin,
    OffsetBinary.encode addrEnd, linkedObject⟩

def twoExecutables : ExperimentTables where
  addressSpaces := [mapped 1 4096 4112 1, mapped 2 4096 4112 2]
  functions := ⟨[⟨1, 2, "main"⟩], [rangeRow 1 0 16 [0xff, 0xff]]⟩
  loops := ⟨[], []⟩
  files := [⟨1, "/bin/mpirun"⟩, ⟨2, "/bin/a.out"⟩, ⟨3, "mpirun.c"⟩]
  statements := ⟨[⟨1, 1, ⟨3, 10, 0⟩⟩], [rangeRow 1 0 16 [0xff, 0xff]]⟩
  threads := [1, 2]
  linkedObjects := [⟨1, 1, true⟩, ⟨2, 2, true⟩]

def sampling (pcs : Entry → List UInt64) : Environment where
  demangle _ := none
  now := 50
  collectors := [pcs]

theorem twoExecutables_linked : Linked twoExecutables := by
  have ids : twoExecutables.linkedObjects.map (·.id) = [1, 2] := rfl
  intro row member
  rw [ids]
  rcases List.mem_cons.mp member with rfl | later
  · decide
  · obtain rfl := List.mem_singleton.mp later
    decide

theorem compressDB_eq_ok {environment : Environment} {database : DatabasePtr} {tables : ExperimentTables}
    (completed : (compressDB environment database tables).2.toOption = some ()) :
    compressDB environment database tables = ((compressDB environment database tables).1, .ok ()) :=
  Prod.ext rfl (toOption_eq_some.mp completed)

def sampledFirst : Environment := sampling fun thread => if thread.dmEntry = 1 then [4100] else []

theorem spacesAt_first {tables : SymbolTables} {rest : List AddressSpaceRow}
    (spaces : tables.addressSpaces = mapped 1 4096 4112 1 :: rest)
    (others : ∀ row ∈ rest, row.thread = 2) (time : Time) : Thread.spacesAt tables ⟨1, 1⟩ 4100 time =
      if between time (encode 0) (encode 100) then [mapped 1 4096 4112 1] else [] := by
  have none : rest.filter (fun row => row.thread.toInt = (1 : Int) &&
      between time row.timeBegin row.timeEnd && between 4100 row.addrBegin row.addrEnd) = [] := by
    refine List.filter_eq_nil_iff.mpr fun row member => ?_
    simp [others row member]
  have here : between 4100 (encode 4096) (encode 4112) = true := by decide
  rw [Thread.spacesAt, spaces, List.filter_cons, none]
  simp [mapped, here]

theorem compressDB_preserved_iff_sampledFirst : Resolved sampledFirst 1 twoExecutables := by
  have completed : (compressDB sampledFirst 1 twoExecutables).2.toOption = some () := by
    decide +kernel
  have left : (compressDB sampledFirst 1 twoExecutables).1.toSymbolTables =
      { twoExecutables.toSymbolTables with
        addressSpaces := [mapped 1 4096 4112 1]
        functions := ⟨[], twoExecutables.functions.ranges⟩
        files := [⟨1, "/bin/mpirun"⟩, ⟨3, "mpirun.c"⟩] } := by decide +kernel
  refine (compressDB_preserved_iff twoExecutables_linked (compressDB_eq_ok completed)).mp ?_
  rintro thread pc time ⟨own, collector, known, sampled⟩
  obtain rfl := List.mem_singleton.mp known
  have first : thread = ⟨1, 1⟩ ∧ pc = 4100 := by
    have threads : twoExecutables.getThreads 1 = [⟨1, 1⟩, ⟨1, 2⟩] := by decide +kernel
    rw [threads] at own
    rcases List.mem_cons.mp own with rfl | later
    · simpa using sampled
    · obtain rfl := List.mem_singleton.mp later
      simp at sampled
  obtain ⟨rfl, rfl⟩ := first
  have before := @spacesAt_first twoExecutables.toSymbolTables _ rfl (by decide) time
  have after := @spacesAt_first (compressDB sampledFirst 1 twoExecutables).1.toSymbolTables []
    (by rw [left]) (by simp) time
  simp only [Thread.getFunctionAt, Thread.getStatementsAt, ExperimentTables.databases, before, after]
  have nowhere : Thread.objectsAt { twoExecutables.functions with objects := [] }
      (mapped 1 4096 4112 1) 4100 =
        Thread.objectsAt twoExecutables.functions (mapped 1 4096 4112 1) 4100 := rfl
  simp only [left]
  by_cases within : between time (OffsetBinary.encode 0) (OffsetBinary.encode 100)
  · simp only [within, if_true, nowhere]
    exact ⟨fun _ ran => ran, fun _ ran => ran⟩
  · simp only [within, Bool.false_eq_true, if_false]
    exact ⟨fun _ ran => ran, fun _ ran => ran⟩

theorem secondExecutable_lost : ∃ environment database tables after, Linked tables ∧
    compressDB environment database tables = (after, .ok ()) ∧
    ¬ Preserved environment database tables after := by
  have completed : (compressDB (sampling fun _ => [4100]) 1 twoExecutables).2.toOption =
      some () := by decide +kernel
  refine ⟨sampling fun _ => [4100], 1, _, _, twoExecutables_linked, compressDB_eq_ok completed, ?_⟩
  intro preserved
  have sampled : Sampled (sampling fun _ => [4100]) 1 twoExecutables ⟨1, 2⟩ 4100 :=
    ⟨by decide +kernel, _, List.mem_singleton_self _, by decide⟩
  have before : (Thread.getFunctionAt twoExecutables.databases ⟨1, 2⟩ 4100
      50).toOption = some (some ⟨1, 1⟩) := by decide +kernel
  have after : (Thread.getFunctionAt
      (compressDB (sampling fun _ => [4100]) 1 twoExecutables).1.databases ⟨1, 2⟩ 4100
      50).toOption = some none := by decide +kernel
  have kept := (preserved _ _ 50 sampled).1 _ (toOption_eq_some.mp before)
  rw [kept] at after
  cases after

end CompressDatabase

end OpenSpeedShop
