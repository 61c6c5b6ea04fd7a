import OpenSpeedShop.Daemon.SymbolTables
import OpenSpeedShop.Daemon.ThreadTable

/-!
The callbacks of Dyninst that send symbols for new threads: for names all of which have to be names of
one thread. Messages other than those of `sendSymbolsForThread` are left out.
-/

namespace OpenSpeedShop.Daemon

open EntryMap (lookup lookup_eq_none mem_iff_lookup)
open List (foldlM_cons mem_map forall_mem_cons mem_map_of_mem)
open Option (bind_eq_some_iff)

structure LoadedMessage where
  threads : List ThreadName
  time : UInt64
  range : AddressRange
  linkedObject : String
  isExecutable : Bool
deriving DecidableEq

def loadedLinkedObject (threads : List ThreadName) (now : UInt64) (image : BPatchImage)
    (table : SymbolTable) : LoadedMessage where
  threads := threads
  time := now
  range := table.dmRange
  linkedObject := table.dmLinkedObject
  isExecutable := table.dmLinkedObject = image.getProgramFileName

namespace ThreadTable

def sameThread (table : ThreadTable) (thread : Option Nat) (name : ThreadName) : Option (Option Nat) := do
  let thisThread ← table.getPtr name
  if thread = none ∨ thread = some thisThread then some (some thisThread) else none

def dyninstThread (table : ThreadTable) (threads : List ThreadName) : Option Nat := do
  let thread ← threads.foldlM table.sameThread none
  thread

def sendTable (threads : List ThreadName) (now : UInt64) (image : BPatchImage)
    (state : SentSymbols × List LoadedMessage) (entry : AddressRange × SymbolTable × List Int) :
    Option (SentSymbols × List LoadedMessage) := do
  let sent ← state.1.send entry.2
  return (sent, state.2 ++ [loadedLinkedObject threads now image entry.2.1])

def sendSymbolsForThread (table : ThreadTable) (now : UInt64) (threads : List ThreadName)
    (image : BPatchImage) (sent : SentSymbols) : Option (SentSymbols × List LoadedMessage) := do
  let _ ← table.dyninstThread threads
  let tables ← image.modules.foldlM (addToTables sent (experimentGroup threads) image) []
  tables.foldlM (sendTable threads now image) (sent, [])

def getProcessNames (table : ThreadTable) (threads : List BPatchThread) : List ThreadName :=
  (threads.flatMap fun thread => table.getNames thread.ptr).dedup

end ThreadTable

/-- What Dyninst reports. A process that is gone has no threads any more. -/
inductive Callback
  | exec (isInMpiStartup : Bool) (threads : List BPatchThread)
  | postFork (isInMpiStartup : Bool) (parent child : BPatchProcess)
  | threadCreate (isInMpiStartup : Bool) (process : BPatchProcess) (thread : BPatchThread)

section

variable (network : Network) (now : UInt64) (image : BPatchImage) (table : ThreadTable) (sent : SentSymbols)

def sendForNew (targets : List (ThreadName × Nat)) : Option (SentSymbols × List LoadedMessage) := do
  let table ← addThreads targets table
  if targets = [] then some (sent, [])
  else table.sendSymbolsForThread now (targets.map Prod.fst) image sent

namespace Callback

def run : Callback → Option (SentSymbols × List LoadedMessage)
  | exec isInMpiStartup threads =>
    if isInMpiStartup then some (sent, [])
    else table.sendSymbolsForThread now (table.getProcessNames threads) image sent
  | postFork isInMpiStartup parent child =>
    if isInMpiStartup then some (sent, [])
    else sendForNew now image table sent
      (inExperiments network (table.getExperiments network parent) child child.threads)
  | threadCreate isInMpiStartup process thread =>
    if isInMpiStartup then some (sent, [])
    else if table.getNames thread.ptr ≠ [] then some (sent, [])
    else sendForNew now image table sent
      (inExperiments network (table.getExperiments network process) process [thread])

def group : Callback → List ThreadName
  | exec isInMpiStartup threads => if isInMpiStartup then [] else table.getProcessNames threads
  | postFork isInMpiStartup parent child =>
    if isInMpiStartup then []
    else (inExperiments network (table.getExperiments network parent) child child.threads).map Prod.fst
  | threadCreate isInMpiStartup process thread =>
    if isInMpiStartup ∨ table.getNames thread.ptr ≠ [] then []
    else (inExperiments network (table.getExperiments network process) process [thread]).map Prod.fst

end Callback

end

/-- Every name has the initial message of every module, and its experiment the symbols. -/
def Delivered (image : BPatchImage) (threads : List ThreadName)
    (outcome : SentSymbols × List LoadedMessage) : Prop :=
  ∀ name ∈ threads, ∀ module ∈ image.modules, ∃ message ∈ outcome.2, name ∈ message.threads ∧
    RangeGroups.Meets AddressRange.less message.range module.range ∧
    sentFor message.linkedObject name.experiment outcome.1.messages ≠ []

/-- No assertion fails, and what is sent is sent for all names of the group. -/
def Callback.Delivers (network : Network) (now : UInt64) (image : BPatchImage)
    (table : ThreadTable) (sent : SentSymbols) (callback : Callback) : Prop :=
  ∃ outcome, callback.run network now image table sent = some outcome ∧
    Delivered image (callback.group network table) outcome

/-- The file of modules that share a range: the first that is not the default module. -/
def fileOf (image : BPatchImage) (modules : List BPatchModule) : String :=
  ((modules.map image.linkedObject).find? fun file => file ≠ defaultModule).getD defaultModule

/-- All modules have ranges, and no unsent file has modules at two ranges. -/
def Placed (image : BPatchImage) (sent : SentSymbols) (experiments : List Int) : Prop :=
  (∀ module ∈ image.modules, module.range?.isSome) ∧ (groups image).Pairwise fun one other =>
      sent.getUnsent (fileOf image one.2.2) experiments ≠ [] → fileOf image one.2.2 ≠ fileOf image other.2.2

namespace ThreadTable

def OneNamed (table : ThreadTable) (threads : List BPatchThread) : Prop :=
  ∃ named ∈ threads, table.getNames named.ptr ≠ [] ∧
    ∀ thread ∈ threads, table.getNames thread.ptr ≠ [] → thread.ptr = named.ptr

/-- Nothing is known of the thread under this name or any other. -/
def Unknown (table : ThreadTable) (target : ThreadName × Nat) : Prop :=
  table.getPtr target.1 = none ∧ lookup target.2 table.dmPtrToState = none ∧
    (lookup target.2 table.dmPtrToPipes = none ∨ lookup target.2 table.dmPtrToPipes = some none)

end ThreadTable

/-- The new threads are one thread of one experiment, or of none. -/
def OneNew (image : BPatchImage) (table : ThreadTable) (sent : SentSymbols)
    (targets : List (ThreadName × Nat)) : Prop :=
  targets = [] ∨ ∃ target, targets = [target] ∧ table.Unknown target ∧ Placed image sent [target.1.experiment]

def Callback.Sound (network : Network) (image : BPatchImage) (table : ThreadTable)
    (sent : SentSymbols) : Callback → Prop
  | exec isInMpiStartup threads => isInMpiStartup = true ∨ table.OneNamed threads ∧
      Placed image sent (experimentGroup (table.getProcessNames threads))
  | postFork isInMpiStartup parent child => isInMpiStartup = true ∨ OneNew image table sent
      (inExperiments network (table.getExperiments network parent) child child.threads)
  | threadCreate isInMpiStartup process thread => isInMpiStartup = true ∨
      table.getNames thread.ptr ≠ [] ∨ OneNew image table sent
        (inExperiments network (table.getExperiments network process) process [thread])

section

variable {image : BPatchImage} {sent : SentSymbols} {experiments : List Int}

theorem valid_of_addToTables {modules : List BPatchModule} {tables next : SymbolTableMap}
    (built : modules.foldlM (addToTables sent experiments image) tables = some next) :
    ∀ module ∈ modules, module.range?.isSome := by
  induction modules generalizing tables with
  | nil => simp
  | cons module rest ih =>
    rw [foldlM_cons] at built
    obtain ⟨middle, added, others⟩ := bind_eq_some_iff.mp built
    obtain ⟨range, isRange, -⟩ := bind_eq_some_iff.mp added
    refine forall_mem_cons.mpr ⟨?_, ih others⟩
    rw [isRange]
    rfl

theorem name_useModules (modules : List BPatchModule) (table : SymbolTable × List Int) :
    (useModules sent experiments image modules table).1.dmLinkedObject =
      if table.1.dmLinkedObject = defaultModule then fileOf image modules else table.1.dmLinkedObject := by
  induction modules generalizing table with
  | nil =>
    split
    · assumption
    · rfl
  | cons module rest ih =>
    refine (ih _).trans ?_
    rw [useModule_fst]
    rcases rename_cases sent experiments (image.linkedObject module) table with
      ⟨unnamed, given, renamed⟩ | ⟨kept, renamed⟩
    · rw [renamed, if_pos unnamed]
      simp [SymbolTable.setLinkedObject, fileOf, given]
    · rw [renamed]
      by_cases unnamed : table.1.dmLinkedObject = defaultModule
      · have same : image.linkedObject module = defaultModule :=
          not_not.mp fun given => kept ⟨unnamed, given⟩
        simp [unnamed, fileOf, same]
      · rw [if_neg unnamed, if_neg unnamed]

theorem range_useModules (modules : List BPatchModule) (table : SymbolTable × List Int) :
    (useModules sent experiments image modules table).1.dmRange = table.1.dmRange := by
  induction modules generalizing table with
  | nil => rfl
  | cons module rest ih =>
    refine (ih _).trans ?_
    unfold useModule rename
    dsimp only
    split <;> split <;> rfl

variable {group : AddressRange × RangeGroups.Group BPatchModule}

variable (valid : ∀ module ∈ image.modules, module.range?.isSome)

include valid

theorem grouped_of_valid :
    RangeGroups.Grouped AddressRange.less BPatchModule.range image.modules (groups image) :=
  RangeGroups.grouped_groupsOf less_transitive fun module member =>
    BPatchModule.range?_isSome.mp (valid module member)

theorem name_build (present : group ∈ groups image) :
    (build sent experiments image group.2).1.dmLinkedObject = fileOf image group.2.2 := by
  obtain ⟨-, rest, all⟩ := (grouped_of_valid valid).first group present
  refine (name_useModules _ _).trans ?_
  change (if image.linkedObject group.2.1 = defaultModule then _ else _) = _
  split
  · rfl
  · rename_i given
    simp [newTable, SymbolTable.new, fileOf, all, given]

theorem range_build (present : group ∈ groups image) :
    (build sent experiments image group.2).1.dmRange = group.1 :=
  (range_useModules _ _).trans ((grouped_of_valid valid).first group present).1

end

theorem sendAll_fresh {tables : SymbolTableMap} {sent next : SentSymbols}
    (sends : tables.foldlM (fun sent entry => sent.send entry.2) sent = some next) :
    ∀ entry ∈ tables, ∀ experiment ∈ entry.2.2, (entry.2.1.dmLinkedObject, experiment) ∉ sent.sentFiles := by
  induction tables generalizing sent with
  | nil => simp
  | cons first rest ih =>
    rw [foldlM_cons] at sends
    obtain ⟨middle, sendsFirst, sendsRest⟩ := bind_eq_some_iff.mp sends
    unfold SentSymbols.send at sendsFirst
    split at sendsFirst
    · rename_i nothing
      cases sendsFirst
      intro entry member experiment asked
      rcases List.mem_cons.mp member with rfl | later
      · rw [nothing] at asked
        cases asked
      · exact ih sendsRest entry later experiment asked
    · obtain ⟨sentFiles, added, returned⟩ := bind_eq_some_iff.mp sendsFirst
      cases returned
      obtain ⟨fresh, rfl⟩ := SentSymbols.addSent_eq_some.mp added
      intro entry member experiment asked
      rcases List.mem_cons.mp member with rfl | later
      · exact fresh experiment asked
      · exact fun known => ih sendsRest entry later experiment asked (List.mem_append_left _ known)

theorem distinct_of_sendAll {tables : SymbolTableMap} {experiments : List Int}
    {first sent next : SentSymbols} (named : ∀ entry ∈ tables, Named first experiments entry.2)
    (sends : tables.foldlM (fun sent entry => sent.send entry.2) sent = some next) :
    tables.Pairwise fun one other => one.2.2 ≠ [] → one.2.1.dmLinkedObject ≠ other.2.1.dmLinkedObject := by
  induction tables generalizing sent with
  | nil => exact List.Pairwise.nil
  | cons entry rest ih =>
    rw [foldlM_cons] at sends
    obtain ⟨middle, sendsFirst, sendsRest⟩ := bind_eq_some_iff.mp sends
    refine List.pairwise_cons.mpr ⟨fun other member unsent same => ?_,
      ih (fun other member => named other (List.mem_cons_of_mem _ member)) sendsRest⟩
    have sameUnsent : other.2.2 = entry.2.2 := by
      rw [named other (List.mem_cons_of_mem _ member), named entry List.mem_cons_self, same]
    obtain ⟨experiment, asked⟩ := List.exists_mem_of_ne_nil _ unsent
    refine sendAll_fresh sendsRest other member experiment (sameUnsent ▸ asked) ?_
    unfold SentSymbols.send at sendsFirst
    rw [if_neg unsent] at sendsFirst
    obtain ⟨sentFiles, added, returned⟩ := bind_eq_some_iff.mp sendsFirst
    cases returned
    obtain ⟨-, rfl⟩ := SentSymbols.addSent_eq_some.mp added
    exact List.mem_append_right _ (mem_map.mpr ⟨experiment, asked, by rw [same]⟩)

namespace ThreadTable

variable {table : ThreadTable} {threads : List ThreadName}

theorem sameThread_foldlM {ptr : Nat} :
    ∀ {thread : Option Nat}, threads.foldlM table.sameThread thread = some (some ptr) ↔
      (∀ name ∈ threads, table.getPtr name = some ptr) ∧
        (thread = some ptr ∨ thread = none ∧ threads ≠ []) := by
  induction threads with
  | nil => intro thread; simp
  | cons name rest ih =>
    intro thread
    rw [foldlM_cons, Option.bind_eq_bind, bind_eq_some_iff]
    constructor
    · rintro ⟨next, checked, others⟩
      obtain ⟨all, same⟩ := ih.mp others
      obtain ⟨thisThread, known, agrees⟩ := bind_eq_some_iff.mp checked
      split at agrees
      · rename_i one
        cases agrees
        have same : thisThread = ptr := by simpa using same
        subst same
        refine ⟨forall_mem_cons.mpr ⟨known, all⟩, ?_⟩
        rcases one with unset | same
        · exact Or.inr ⟨unset, List.cons_ne_nil _ _⟩
        · exact Or.inl same
      · cases agrees
    · rintro ⟨all, same⟩
      obtain ⟨known, others⟩ := forall_mem_cons.mp all
      refine ⟨some ptr, ?_, ih.mpr ⟨others, Or.inl rfl⟩⟩
      have one : thread = none ∨ thread = some ptr := same.symm.imp_left And.left
      simp [sameThread, known, one]

theorem dyninstThread_eq_some {ptr : Nat} : table.dyninstThread threads = some ptr ↔
      threads ≠ [] ∧ ∀ name ∈ threads, table.getPtr name = some ptr := by
  unfold dyninstThread
  rw [Option.bind_eq_bind, bind_eq_some_iff]
  constructor
  · rintro ⟨thread, found, rfl⟩
    obtain ⟨all, here⟩ := sameThread_foldlM.mp found
    simp only [reduceCtorEq, true_and, false_or] at here
    exact ⟨here, all⟩
  · rintro ⟨nonempty, all⟩
    exact ⟨_, sameThread_foldlM.mpr ⟨all, Or.inr ⟨rfl, nonempty⟩⟩, rfl⟩

variable {now : UInt64} {image : BPatchImage}

theorem sendTable_foldlM (tables : SymbolTableMap) : ∀ (sent : SentSymbols) (loaded : List LoadedMessage),
      tables.foldlM (sendTable threads now image) (sent, loaded) =
        (tables.foldlM (fun (sent : SentSymbols) entry => sent.send entry.2) sent).map fun next =>
          (next, loaded ++ tables.map fun entry => loadedLinkedObject threads now image entry.2.1) := by
  induction tables with
  | nil => intro sent loaded; simp
  | cons entry rest ih =>
    intro sent loaded
    rw [foldlM_cons, foldlM_cons]
    cases sends : sent.send entry.2 with
    | none => simp [sendTable, sends]
    | some next => simp [sendTable, sends, ih]

variable {sent : SentSymbols}

/-- Symbols are sent when all names are of one thread and no file is at two ranges. -/
theorem sendSymbolsForThread_iff (consistent : sent.Consistent) :
    (∃ outcome, table.sendSymbolsForThread now threads image sent = some outcome ∧
        Delivered image threads outcome) ↔
      (threads ≠ [] ∧ ∃ ptr, ∀ name ∈ threads, table.getPtr name = some ptr) ∧
        Placed image sent (experimentGroup threads) := by
  have named : ∀ group : RangeGroups.Group BPatchModule, Named sent (experimentGroup threads)
      (build sent (experimentGroup threads) image group) :=
    fun group => named_useModules group.2 rfl
  constructor
  · rintro ⟨outcome, sends, -⟩
    obtain ⟨ptr, found, sends⟩ := bind_eq_some_iff.mp sends
    obtain ⟨tables, built, sends⟩ := bind_eq_some_iff.mp sends
    have valid := valid_of_addToTables built
    have all := addToTables_all valid ▸ built
    cases all
    rw [sendTable_foldlM, Option.map_eq_some_iff] at sends
    obtain ⟨next, sends, -⟩ := sends
    obtain ⟨nonempty, same⟩ := dyninstThread_eq_some.mp found
    refine ⟨⟨nonempty, ptr, same⟩, valid, ?_⟩
    have distinct := @distinct_of_sendAll _ _ sent _ _ (by
      simp only [mem_map]
      rintro _ ⟨group, -, rfl⟩
      exact named group.2) sends
    rw [List.pairwise_map] at distinct
    refine distinct.imp_of_mem fun {one other} first second apart unsent => ?_
    rw [named, name_build valid first, name_build valid second] at apart
    exact apart unsent
  · rintro ⟨⟨nonempty, ptr, same⟩, valid, distinct⟩
    have grouped := grouped_of_valid valid
    let tables := (groups image).map fun group =>
      (group.1, build sent (experimentGroup threads) image group.2)
    have fresh : ∀ entry ∈ tables, ∀ experiment ∈ entry.2.2,
        (entry.2.1.dmLinkedObject, experiment) ∉ sent.sentFiles := by
      simp only [tables, mem_map]
      rintro _ ⟨group, -, rfl⟩ experiment asked
      rw [named] at asked
      exact (SentSymbols.mem_getUnsent.mp asked).2
    obtain ⟨next, sends, -, kept, sentAll⟩ := SentSymbols.sendAll_of_distinct fresh (by
      rw [List.pairwise_map]
      refine distinct.imp_of_mem fun {one other} first second apart unsent _ => ?_
      rw [named, name_build valid first] at unsent
      rw [name_build valid first, name_build valid second]
      exact apart unsent)
    refine ⟨(next, tables.map fun entry => loadedLinkedObject threads now image entry.2.1), ?_, ?_⟩
    · unfold sendSymbolsForThread
      rw [dyninstThread_eq_some.mpr ⟨nonempty, same⟩, addToTables_all valid]
      exact (sendTable_foldlM tables sent []).trans (by rw [sends]; rfl)
    · intro name member module present
      obtain ⟨group, isGroup, inside⟩ := grouped.covers module present
      have inTables : (group.1, build sent (experimentGroup threads) image group.2) ∈ tables :=
        mem_map_of_mem isGroup
      refine ⟨_, mem_map_of_mem inTables, member, ?_, ?_⟩
      · change RangeGroups.Meets _ (build _ _ image group.2).1.dmRange _
        rw [range_build valid isGroup]
        exact grouped.meets group isGroup module inside
      · have experiment : name.experiment ∈ experimentGroup threads :=
          List.mem_dedup.mpr (mem_map_of_mem member)
        have known : ((build sent (experimentGroup threads) image group.2).1.dmLinkedObject,
            name.experiment) ∈ next.sentFiles := by
          by_cases old : ((build sent (experimentGroup threads) image group.2).1.dmLinkedObject,
              name.experiment) ∈ sent.sentFiles
          · exact kept _ old
          · refine sentAll _ inTables _ ?_
            change name.experiment ∈ (build sent (experimentGroup threads) image group.2).2
            rw [named]
            exact SentSymbols.mem_getUnsent.mpr ⟨experiment, old⟩
        refine List.ne_nil_of_length_pos ?_
        have once := consistent.sendAll sends
          (build sent (experimentGroup threads) image group.2).1.dmLinkedObject name.experiment
        rw [if_pos known] at once
        exact once.ge

theorem Good.mem_getNames (good : Good table) {name : ThreadName} {ptr : Nat} :
    name ∈ table.getNames ptr ↔ table.getPtr name = some ptr := by
  have listed := @mem_iff_lookup _ _ _ _ good.onceByName (name, ptr)
  rw [getPtr, ← listed, good.inverse]
  simp [getNames]

theorem mem_getProcessNames {process : List BPatchThread} {name : ThreadName} :
    name ∈ table.getProcessNames process ↔ ∃ thread ∈ process, name ∈ table.getNames thread.ptr := by
  simp [getProcessNames]

theorem Good.oneNamed_iff (good : Good table) {process : List BPatchThread} :
    table.OneNamed process ↔ table.getProcessNames process ≠ [] ∧
      ∃ ptr, ∀ name ∈ table.getProcessNames process, table.getPtr name = some ptr := by
  constructor
  · rintro ⟨named, present, known, only⟩
    obtain ⟨name, isName⟩ := List.exists_mem_of_ne_nil _ known
    refine ⟨List.ne_nil_of_mem (mem_getProcessNames.mpr ⟨named, present, isName⟩), named.ptr, ?_⟩
    intro other isOther
    obtain ⟨thread, here, ofThread⟩ := mem_getProcessNames.mp isOther
    rw [← only thread here (List.ne_nil_of_mem ofThread)]
    exact good.mem_getNames.mp ofThread
  · rintro ⟨nonempty, ptr, same⟩
    have isPtr : ∀ thread ∈ process, table.getNames thread.ptr ≠ [] → thread.ptr = ptr := by
      intro thread present known
      obtain ⟨name, isName⟩ := List.exists_mem_of_ne_nil _ known
      have found := same name (mem_getProcessNames.mpr ⟨thread, present, isName⟩)
      rw [good.mem_getNames.mp isName] at found
      exact Option.some.inj found
    obtain ⟨name, isName⟩ := List.exists_mem_of_ne_nil _ nonempty
    obtain ⟨named, present, ofNamed⟩ := mem_getProcessNames.mp isName
    have known := List.ne_nil_of_mem ofNamed
    refine ⟨named, present, known, fun thread here others => ?_⟩
    rw [isPtr thread here others, isPtr named present known]

variable {target : ThreadName × Nat} {next : ThreadTable}

theorem Good.addThread_isSome (good : Good table) :
    (table.addThread target.1 target.2 none).isSome ↔ table.Unknown target := by
  unfold addThread
  constructor
  · intro added
    split at added
    · rename_i free
      exact ⟨free.1, free.2.2.2, free.2.2.1⟩
    · cases added
  · rintro ⟨name, state, pipes⟩
    have unlisted : (target.2, target.1) ∉ table.dmPtrToNames := by
      rw [← good.inverse, mem_iff_lookup good.onceByName]
      exact fun known => Option.some_ne_none _ (known.symm.trans name)
    rw [if_pos ⟨name, unlisted, pipes, state⟩]
    rfl

theorem addThread_eq_some (added : table.addThread target.1 target.2 none = some next) :
    (∀ name ptr, table.getPtr name = some ptr → next.getPtr name = some ptr) ∧
      next.getPtr target.1 = some target.2 ∧ lookup target.2 table.dmPtrToState = none ∧
      ∀ ptr, lookup ptr next.dmPtrToState = none → ptr ≠ target.2 ∧ lookup ptr table.dmPtrToState = none := by
  unfold addThread at added
  split at added
  · rename_i free
    cases added
    refine ⟨fun name ptr known => ?_, ?_, free.2.2.2, fun ptr => ?_⟩
    · rw [getPtr] at known ⊢
      rw [EntryMap.lookup_append, known]
      rfl
    · rw [getPtr, EntryMap.lookup_append, free.1]
      simp [EntryMap.lookup_cons]
    · simp only [lookup_eq_none, List.map_append, List.mem_append, not_or, List.map_singleton,
        List.mem_singleton]
      exact fun both => ⟨both.2, both.1⟩
  · cases added

theorem addThreads_eq_some {targets : List (ThreadName × Nat)}
    (added : addThreads targets table = some next) :
    (∀ name ptr, table.getPtr name = some ptr → next.getPtr name = some ptr) ∧
      (∀ target ∈ targets, next.getPtr target.1 = some target.2) ∧
      (∀ target ∈ targets, lookup target.2 table.dmPtrToState = none) ∧ (targets.map Prod.snd).Nodup := by
  unfold addThreads at added
  induction targets generalizing table with
  | nil =>
    cases added
    simp
  | cons target rest ih =>
    rw [foldlM_cons] at added
    obtain ⟨middle, first, others⟩ := bind_eq_some_iff.mp added
    obtain ⟨kept, here, unused, states⟩ := addThread_eq_some first
    obtain ⟨keptRest, found, free, nodup⟩ := ih others
    refine ⟨fun name ptr known => keptRest name ptr (kept name ptr known),
      forall_mem_cons.mpr ⟨keptRest _ _ here, found⟩, forall_mem_cons.mpr
        ⟨unused, fun other member => (states _ (free other member)).2⟩, ?_⟩
    rw [List.map_cons, List.nodup_cons]
    refine ⟨fun again => ?_, nodup⟩
    obtain ⟨other, member, same⟩ := mem_map.mp again
    exact (states _ (free other member)).1 same

end ThreadTable

section

variable {network : Network} {now : UInt64} {image : BPatchImage} {table : ThreadTable}
  {sent : SentSymbols} (good : table.Good) (consistent : sent.Consistent)

include good consistent

theorem sendForNew_iff {targets : List (ThreadName × Nat)} :
    (∃ outcome, sendForNew now image table sent targets = some outcome ∧
        Delivered image (targets.map Prod.fst) outcome) ↔ OneNew image table sent targets := by
  have one : ∀ target : ThreadName × Nat, experimentGroup ([target].map Prod.fst) =
      [target.1.experiment] := fun target => rfl
  constructor
  · rintro ⟨outcome, sends, delivered⟩
    obtain ⟨next, added, sends⟩ := bind_eq_some_iff.mp sends
    by_cases nothing : targets = []
    · exact Or.inl nothing
    rw [if_neg nothing] at sends
    obtain ⟨⟨-, ptr, same⟩, placed⟩ := (ThreadTable.sendSymbolsForThread_iff consistent).mp
      ⟨outcome, sends, delivered⟩
    obtain ⟨-, found, -, nodup⟩ := ThreadTable.addThreads_eq_some added
    have isPtr : ∀ target ∈ targets, target.2 = ptr := fun target member => Option.some.inj
      ((found target member).symm.trans (same target.1 (mem_map_of_mem member)))
    obtain ⟨target, rest, rfl⟩ := List.exists_cons_of_ne_nil nothing
    -- A second target would have the pointer of the first one.
    have alone : rest = [] := by
      refine List.eq_nil_iff_forall_not_mem.mpr fun other member => ?_
      refine (List.nodup_cons.mp nodup).1 (mem_map.mpr ⟨other, member, ?_⟩)
      rw [isPtr other (List.mem_cons_of_mem _ member), isPtr target List.mem_cons_self]
    subst alone
    refine Or.inr ⟨target, rfl, ?_, one target ▸ placed⟩
    obtain ⟨_, first, -⟩ := bind_eq_some_iff.mp added
    exact good.addThread_isSome.mp (Option.isSome_iff_exists.mpr ⟨_, first⟩)
  · rintro (rfl | ⟨target, rfl, unknown, placed⟩)
    · exact ⟨(sent, []), rfl, by simp [Delivered]⟩
    · obtain ⟨next, added⟩ := Option.isSome_iff_exists.mp (good.addThread_isSome.mpr unknown)
      obtain ⟨-, found, -⟩ := ThreadTable.addThread_eq_some added
      have all : addThreads [target] table = some next := by simp [addThreads, added]
      obtain ⟨outcome, sends, delivered⟩ := (@ThreadTable.sendSymbolsForThread_iff next
        ([target].map Prod.fst) now _ _ consistent).mpr
        ⟨⟨by simp, target.2, by simp [found]⟩, one target ▸ placed⟩
      refine ⟨outcome, ?_, delivered⟩
      unfold sendForNew
      rw [all]
      exact sends

/-- Symbols are sent for the names of one thread only where no more than one has names: one
thread of a process that calls exec, or one new thread of one experiment. -/
theorem symbolsDelivered_iff (callback : Callback) :
    callback.Delivers network now image table sent ↔ callback.Sound network image table sent := by
  have nothing : ∃ outcome, some (sent, []) = some outcome ∧ Delivered image [] outcome :=
    ⟨_, rfl, by simp [Delivered]⟩
  cases callback with
  | exec isInMpiStartup threads =>
    cases isInMpiStartup with
    | true => exact ⟨fun _ => Or.inl rfl, fun _ => nothing⟩
    | false =>
      simp only [Callback.Sound, Bool.false_eq_true, false_or, good.oneNamed_iff]
      exact ThreadTable.sendSymbolsForThread_iff consistent
  | postFork isInMpiStartup parent child =>
    cases isInMpiStartup with
    | true => exact ⟨fun _ => Or.inl rfl, fun _ => nothing⟩
    | false =>
      simp only [Callback.Sound, Bool.false_eq_true, false_or]
      exact sendForNew_iff good consistent
  | threadCreate isInMpiStartup process thread =>
    cases isInMpiStartup with
    | true => exact ⟨fun _ => Or.inl rfl, fun _ => by
        simpa [Callback.Delivers, Callback.run, Callback.group] using nothing⟩
    | false =>
      simp only [Callback.Sound, Bool.false_eq_true, false_or]
      by_cases known : table.getNames thread.ptr = []
      · rw [← @sendForNew_iff now _ _ _ good consistent]
        simp [Callback.Delivers, Callback.run, Callback.group, known]
      · refine ⟨fun _ => Or.inl known, fun _ => ?_⟩
        simpa [Callback.Delivers, Callback.run, Callback.group, known] using nothing

end

def localNetwork : Network := ⟨"node1", id⟩

def twoAttached : ThreadTable :=
  ThreadTable.empty.extend [(⟨1, "node1", 4711, some 140001⟩, 1), (⟨1, "node1", 4711, some 140002⟩, 2)]

theorem good_twoAttached : twoAttached.Good :=
  ThreadTable.Single.good ⟨by decide, by decide, by decide, by decide, by decide⟩

theorem consistent_empty : SentSymbols.empty.Consistent := fun _ _ => rfl

theorem symbolsDelivered_iff_alone :
    (twoAttached.Good ∧ SentSymbols.empty.Consistent) ∧
      Callback.Delivers localNetwork 0 wellMapped twoAttached .empty (.exec false [⟨1, 140001⟩]) := by
  refine ⟨⟨good_twoAttached, consistent_empty⟩,
    (symbolsDelivered_iff good_twoAttached consistent_empty _).mpr (Or.inr ⟨?_, ?_⟩)⟩
  · exact ⟨⟨1, 140001⟩, by decide, by decide, by decide⟩
  · unfold Placed
    decide

theorem exec_twoThreads_aborts :
    (twoAttached.Good ∧ SentSymbols.empty.Consistent) ∧
      ¬ Callback.Delivers localNetwork 0 wellMapped twoAttached .empty
        (.exec false [⟨1, 140001⟩, ⟨2, 140002⟩]) := by
  refine ⟨⟨good_twoAttached, consistent_empty⟩, ?_⟩
  rintro ⟨outcome, sends, -⟩
  have aborts : Callback.run localNetwork 0 wellMapped twoAttached .empty
      (.exec false [⟨1, 140001⟩, ⟨2, 140002⟩]) = none := by
    decide
  rw [aborts] at sends
  cases sends

end OpenSpeedShop.Daemon
