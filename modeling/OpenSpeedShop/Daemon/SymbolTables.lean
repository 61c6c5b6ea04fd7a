import OpenSpeedShop.Daemon.SymbolTablesCore
import OpenSpeedShop.Library.RangeGroups

/-!
Symbol tables are put together by address range, but remembered by file name. A file
is sent once, with all of its symbols, as long as the two agree.
-/

namespace OpenSpeedShop.Daemon

open EntryMap (lookup assign lookup_assign_self lookup_assign_of_ne)
open AddressRange (less)
open List (mem_cons mem_map mem_cons_of_mem foldlM_cons mem_singleton mem_cons_self mem_append_left)
open Option (bind_eq_some_iff bind_some bind_eq_bind pure_def)

section

variable {Symbol : Type} [DecidableEq Symbol]

def HasSymbol (moduleRange : AddressRange) (symbols : List (Symbol × List AddressRange))
    (symbol : Symbol × List (Address × Address)) : Prop :=
  ∃ ranges, lookup symbol.1 symbols = some ranges ∧
    ∀ piece ∈ symbol.2, ∀ range, relativeRange moduleRange piece = some range → range ∈ ranges

theorem hasSymbol_addSymbol (moduleRange : AddressRange)
    (symbols : List (Symbol × List AddressRange)) (symbol : Symbol × List (Address × Address)) :
    HasSymbol moduleRange (addSymbol moduleRange symbols symbol) symbol := by
  refine ⟨_, lookup_assign_self _ _ _, fun piece member range accepted => ?_⟩
  exact List.mem_append_right _ (List.mem_filterMap.mpr ⟨piece, member, accepted⟩)

variable {symbol : Symbol × List (Address × Address)}

variable {moduleRange : AddressRange}

variable {symbols : List (Symbol × List AddressRange)}

theorem HasSymbol.addSymbol (has : HasSymbol moduleRange symbols symbol) (otherRange : AddressRange)
    (other : Symbol × List (Address × Address)) :
    HasSymbol moduleRange (Daemon.addSymbol otherRange symbols other) symbol := by
  obtain ⟨ranges, found, all⟩ := has
  by_cases same : symbol.1 = other.1
  · refine ⟨ranges ++ other.2.filterMap (relativeRange otherRange), ?_, ?_⟩
    · rw [Daemon.addSymbol, ← same, lookup_assign_self, found]
      rfl
    · exact fun piece member range accepted =>
        mem_append_left _ (all piece member range accepted)
  · refine ⟨ranges, ?_, all⟩
    rw [Daemon.addSymbol, lookup_assign_of_ne same, found]

theorem HasSymbol.foldl (otherRange : AddressRange) (others : List (Symbol × List (Address × Address)))
    (has : HasSymbol moduleRange symbols symbol) :
    HasSymbol moduleRange (others.foldl (Daemon.addSymbol otherRange) symbols) symbol := by
  induction others generalizing symbols with
  | nil => exact has
  | cons other rest ih => exact ih (has.addSymbol otherRange other)

theorem hasSymbol_foldl {added : List (Symbol × List (Address × Address))} (member : symbol ∈ added)
    (symbols : List (Symbol × List AddressRange)) :
    HasSymbol moduleRange (added.foldl (addSymbol moduleRange) symbols) symbol := by
  induction added generalizing symbols with
  | nil => cases member
  | cons first rest ih =>
    rw [List.foldl_cons]
    rcases mem_cons.mp member with rfl | later
    · exact (hasSymbol_addSymbol moduleRange symbols symbol).foldl moduleRange rest
    · exact ih later _

end

/-- The range that `BPatchModule.range?` gives, if any. -/
def BPatchModule.range (module : BPatchModule) : AddressRange :=
  ⟨module.getBaseAddr, module.getBaseAddr + module.getSize⟩

def SymbolTable.Contains (module : BPatchModule) (table : SymbolTable) : Prop :=
  (∀ symbol ∈ module.functionPieces, HasSymbol module.range table.dmFunctions symbol) ∧
    ∀ symbol ∈ module.statementPieces, HasSymbol module.range table.dmStatements symbol

theorem SymbolTable.contains_addModule (module : BPatchModule) (table : SymbolTable) :
    (table.addModule module module.range).Contains module :=
  ⟨fun _ member => hasSymbol_foldl member _, fun _ member => hasSymbol_foldl member _⟩

variable {module : BPatchModule}

theorem SymbolTable.Contains.addModule {table : SymbolTable}
    (contains : table.Contains module) (other : BPatchModule) (range : AddressRange) :
    (table.addModule other range).Contains module :=
  ⟨fun symbol member => (contains.1 symbol member).foldl range _,
    fun symbol member => (contains.2 symbol member).foldl range _⟩

theorem BPatchModule.range?_eq_some {range : AddressRange} : module.range? = some range ↔
      less module.range module.range = false ∧ range = module.range := by
  have valid : less module.range module.range = false ↔
      module.range.dmBegin < module.range.dmEnd := by
    unfold less
    rw [decide_eq_false_iff_not, not_le]
  rw [range?, Interval.make?_eq_some, valid]
  rfl

theorem BPatchModule.range?_isSome : module.range?.isSome ↔ less module.range module.range = false := by
  rw [Option.isSome_iff_exists]
  simp [BPatchModule.range?_eq_some]

theorem BPatchModule.range?_of_isSome (valid : module.range?.isSome) : module.range? = some module.range :=
  BPatchModule.range?_eq_some.mpr ⟨BPatchModule.range?_isSome.mp valid, rfl⟩

/-- The files that a module is part of. A module without a file of its own is part of those
that have its range. -/
def BPatchImage.filesOf (image : BPatchImage) (module : BPatchModule) : List String :=
  if image.linkedObject module ≠ defaultModule then [image.linkedObject module]
  else
    let named := (image.modules.filter fun other =>
      other.range = module.range && image.linkedObject other ≠ defaultModule).map image.linkedObject
    if named = [] then [defaultModule] else named

namespace SymbolCall

def experiments : SymbolCall → List Int
  | sendSymbolsForThread threads _ => experimentGroup threads
  | dynLibrary threads _ _ _ => experimentGroup threads

def image : SymbolCall → BPatchImage
  | sendSymbolsForThread _ image => image
  | dynLibrary _ image _ _ => image

def files : SymbolCall → List String
  | sendSymbolsForThread _ image => image.modules.flatMap image.filesOf
  | dynLibrary _ _ module isLoad =>
    if module.getFullName ≠ defaultModule ∧ isLoad then [module.getFullName] else []

end SymbolCall

/-- No assertion fails, nothing was sent twice, everything was sent once, and the new messages
contain the symbols of all the modules of their files. -/
def SymbolCall.Kept (sent : SentSymbols) (call : SymbolCall) : Prop :=
  ∃ next new, call.step sent = some next ∧ next.messages = sent.messages ++ new ∧
    (∀ file experiment, (sentFor file experiment next.messages).length ≤ 1) ∧
    (∀ file ∈ call.files, ∀ experiment ∈ call.experiments,
      (sentFor file experiment next.messages).length = 1) ∧
    ∀ message ∈ new, ∀ module ∈ call.image.modules,
      message.linkedObject ∈ call.image.filesOf module → message.symbolTable.Contains module

/-- The modules of an unsent file have ranges that overlap, and that overlap no others. If
the default module is sent, it is not the first one of such a file. -/
def SymbolCall.Safe (sent : SentSymbols) : SymbolCall → Prop
  | .sendSymbolsForThread threads image =>
    (∀ module ∈ image.modules, module.range?.isSome) ∧
    ∀ module ∈ image.modules, ∀ file ∈ image.filesOf module,
      sent.getUnsent file (experimentGroup threads) ≠ [] →
      (∀ other ∈ image.modules, file ∈ image.filesOf other ↔
        RangeGroups.Meets AddressRange.less module.range other.range) ∧
      ∀ first ∈ image.modules.find? fun other => (image.filesOf other).contains file,
        image.linkedObject first = file ∨ sent.getUnsent defaultModule (experimentGroup threads) ≠ []
  | .dynLibrary threads image module isLoad =>
    module.getFullName ≠ defaultModule → isLoad = true →
      module.range?.isSome ∧
      (sent.getUnsent module.getFullName (experimentGroup threads) ≠ [] →
        ∀ other ∈ image.modules, other.range?.isSome ∧
          (module.getFullName ∈ image.filesOf other → other.range = module.range))

namespace SentSymbols

theorem addSent_eq_some {file : String} {experiments : List Int} {sentFiles next : List (String × Int)} :
    addSent file experiments sentFiles = some next ↔
      (∀ experiment ∈ experiments, (file, experiment) ∉ sentFiles) ∧
        next = sentFiles ++ experiments.map fun experiment => (file, experiment) := by
  unfold addSent
  have same : (∀ entry ∈ sentFiles, entry.1 = file → entry.2 ∉ experiments) ↔
      ∀ experiment ∈ experiments, (file, experiment) ∉ sentFiles := by
    constructor
    · exact fun fresh experiment asked known => fresh _ known rfl asked
    · rintro fresh ⟨other, experiment⟩ known rfl asked
      exact fresh experiment asked known
  by_cases fresh : ∀ entry ∈ sentFiles, entry.1 = file → entry.2 ∉ experiments
  · rw [if_pos fresh, Option.some.injEq, eq_comm]
    exact ⟨fun equal => ⟨same.mp fresh, equal⟩, fun both => both.2⟩
  · rw [if_neg fresh]
    exact ⟨nofun, fun both => absurd (same.mpr both.1) fresh⟩

theorem send_of_fresh {sent : SentSymbols} {table : SymbolTable × List Int} (unsent : table.2 ≠ [])
    (fresh : ∀ experiment ∈ table.2, (table.1.dmLinkedObject, experiment) ∉ sent.sentFiles) :
    sent.send table = some
      ⟨sent.sentFiles ++ table.2.map fun experiment => (table.1.dmLinkedObject, experiment),
        sent.messages ++ [⟨table.2, table.1.dmLinkedObject, table.1⟩]⟩ := by
  rw [send, if_neg unsent, addSent_eq_some.mpr ⟨fresh, rfl⟩]
  rfl

theorem Consistent.send {sent next : SentSymbols} (consistent : Consistent sent)
    {table : SymbolTable × List Int} (sends : sent.send table = some next) : Consistent next := by
  unfold SentSymbols.send at sends
  split at sends
  · cases sends
    exact consistent
  · obtain ⟨sentFiles, added, returned⟩ := bind_eq_some_iff.mp sends
    cases returned
    obtain ⟨fresh, rfl⟩ := addSent_eq_some.mp added
    intro file experiment
    have before := consistent file experiment
    unfold sentFor at before ⊢
    rw [List.filter_append, List.length_append, before]
    by_cases here : file = table.1.dmLinkedObject ∧ experiment ∈ table.2
    · obtain ⟨rfl, asked⟩ := here
      simp [fresh experiment asked, asked]
    · have absent : (file, experiment) ∉
          table.2.map fun experiment => (table.1.dmLinkedObject, experiment) := by
        rw [mem_map]
        rintro ⟨other, asked, same⟩
        cases same
        exact here ⟨rfl, asked⟩
      have unmatched : ¬ (table.1.dmLinkedObject = file ∧ experiment ∈ table.2) :=
        fun both => here ⟨both.1.symm, both.2⟩
      have unequal : (decide (table.1.dmLinkedObject = file) && table.2.contains experiment) = false := by
        rw [Bool.eq_false_iff]
        simpa using unmatched
      simp only [List.mem_append, absent, or_false, List.filter_singleton, unequal, cond_false,
        List.length_nil, Nat.add_zero]

theorem Consistent.sendAll {tables : SymbolTableMap} : ∀ {sent next : SentSymbols}, Consistent sent →
      tables.foldlM (fun sent entry => sent.send entry.2) sent = some next → Consistent next := by
  induction tables with
  | nil =>
    intro sent next consistent sends
    cases sends
    exact consistent
  | cons entry rest ih =>
    intro sent next consistent sends
    rw [foldlM_cons] at sends
    obtain ⟨middle, first, others⟩ := bind_eq_some_iff.mp sends
    exact ih (consistent.send first) others

theorem sendAll_of_distinct {tables : SymbolTableMap} : ∀ {sent : SentSymbols},
      (∀ entry ∈ tables, ∀ experiment ∈ entry.2.2, (entry.2.1.dmLinkedObject, experiment) ∉ sent.sentFiles) →
      (tables.Pairwise fun one other => one.2.2 ≠ [] → other.2.2 ≠ [] →
        one.2.1.dmLinkedObject ≠ other.2.1.dmLinkedObject) →
      ∃ next, tables.foldlM (fun sent entry => sent.send entry.2) sent = some next ∧
        (∃ new, next.messages = sent.messages ++ new ∧ ∀ message ∈ new, ∃ entry ∈ tables,
          entry.2.2 ≠ [] ∧ message = ⟨entry.2.2, entry.2.1.dmLinkedObject, entry.2.1⟩) ∧
        (∀ pair ∈ sent.sentFiles, pair ∈ next.sentFiles) ∧ ∀ entry ∈ tables, ∀ experiment ∈ entry.2.2,
          (entry.2.1.dmLinkedObject, experiment) ∈ next.sentFiles := by
  induction tables with
  | nil => exact fun _ _ => ⟨_, rfl, ⟨[], by simp, by simp⟩, fun _ known => known, by simp⟩
  | cons entry rest ih =>
    intro sent fresh distinct
    obtain ⟨apart, distinctRest⟩ := List.pairwise_cons.mp distinct
    have freshRest := fun other member => fresh other (mem_cons_of_mem entry member)
    by_cases unsent : entry.2.2 = []
    · obtain ⟨next, sends, ⟨new, messages, fromTables⟩, kept, sentRest⟩ := ih freshRest distinctRest
      refine ⟨next, ?_, ⟨new, messages, fun message member => ?_⟩, kept, ?_⟩
      · rw [foldlM_cons, send, if_pos unsent]
        exact sends
      · obtain ⟨other, present, same⟩ := fromTables message member
        exact ⟨other, mem_cons_of_mem entry present, same⟩
      · intro other member experiment asked
        rcases mem_cons.mp member with rfl | later
        · rw [unsent] at asked
          cases asked
        · exact sentRest other later experiment asked
    · have sendsFirst := send_of_fresh unsent (fresh entry mem_cons_self)
      have stillFresh : ∀ other ∈ rest, ∀ experiment ∈ other.2.2,
          (other.2.1.dmLinkedObject, experiment) ∉ sent.sentFiles ++
            entry.2.2.map fun experiment => (entry.2.1.dmLinkedObject, experiment) := by
        intro other member experiment asked known
        rcases List.mem_append.mp known with old | now
        · exact freshRest other member experiment asked old
        · obtain ⟨_, _, equal⟩ := mem_map.mp now
          have unsentOther : other.2.2 ≠ [] := List.ne_nil_of_mem asked
          exact apart other member unsent unsentOther (congrArg Prod.fst equal)
      obtain ⟨next, sends, ⟨new, messages, fromTables⟩, kept, sentRest⟩ := @ih
        ⟨_, sent.messages ++ [⟨entry.2.2, entry.2.1.dmLinkedObject, entry.2.1⟩]⟩
        stillFresh distinctRest
      refine ⟨next, ?_, ⟨⟨entry.2.2, entry.2.1.dmLinkedObject, entry.2.1⟩ :: new, ?_,
        fun message member => ?_⟩, ?_, ?_⟩
      · rw [foldlM_cons, sendsFirst]
        exact sends
      · rw [messages]
        simp
      · rcases mem_cons.mp member with rfl | later
        · exact ⟨entry, mem_cons_self, unsent, rfl⟩
        · obtain ⟨other, present, same⟩ := fromTables message later
          exact ⟨other, mem_cons_of_mem entry present, same⟩
      · exact fun pair known => kept pair (mem_append_left _ known)
      · intro other member experiment asked
        rcases mem_cons.mp member with rfl | later
        · exact kept _ (List.mem_append_right _ (List.mem_map_of_mem asked))
        · exact sentRest other later experiment asked

theorem mem_getUnsent {sent : SentSymbols} {file : String} {experiments : List Int} {experiment : Int} :
    experiment ∈ sent.getUnsent file experiments ↔
      experiment ∈ experiments ∧ (file, experiment) ∉ sent.sentFiles := by
  simp [getUnsent]

end SentSymbols

theorem less_transitive : RangeGroups.Transitive less := by
  intro first second third valid below above
  unfold less at *
  rw [decide_eq_false_iff_not, not_le] at valid
  rw [decide_eq_true_eq] at *
  exact (below.trans valid.le).trans above

section

variable {sent : SentSymbols} {experiments : List Int} {image : BPatchImage}

def useModules (sent : SentSymbols) (experiments : List Int) (image : BPatchImage)
    (modules : List BPatchModule) (table : SymbolTable × List Int) : SymbolTable × List Int :=
  modules.foldl (fun table module =>
    useModule sent experiments (image.linkedObject module) module.range module table) table

def build (sent : SentSymbols) (experiments : List Int) (image : BPatchImage)
    (group : RangeGroups.Group BPatchModule) : SymbolTable × List Int :=
  useModules sent experiments image group.2
    (newTable sent experiments (image.linkedObject group.1) group.1.range)

variable {modules : List BPatchModule}

theorem addToTables_all (valid : ∀ module ∈ modules, module.range?.isSome) :
    modules.foldlM (addToTables sent experiments image) [] =
      some ((RangeGroups.groupsOf less BPatchModule.range modules).map
        fun group => (group.1, build sent experiments image group.2)) := by
  induction modules using List.reverseRecOn with
  | nil => rfl
  | append_singleton modules module ih =>
    have range := BPatchModule.range?_of_isSome (valid module (by simp))
    rw [List.foldlM_append, ih fun other member => valid other (mem_append_left _ member),
      RangeGroups.groupsOf_append]
    have built := @OrderedMap.upsert_map _ _ less _ (build sent experiments image)
      (module, []) (fun group => (group.1, group.2 ++ [module])) _
      (useModule sent experiments (image.linkedObject module) module.range module) rfl
      (fun group => by simp [build, useModules]) module.range
      (RangeGroups.groupsOf less BPatchModule.range modules)
    simp only [foldlM_cons, List.foldlM_nil, addToTables, range, bind_eq_bind,
      bind_some, pure_def, RangeGroups.add]
    rw [← built]
    rfl

def Named (sent : SentSymbols) (experiments : List Int) (table : SymbolTable × List Int) : Prop :=
  table.2 = sent.getUnsent table.1.dmLinkedObject experiments

theorem rename_cases (sent : SentSymbols) (experiments : List Int) (linkedObject : String)
    (table : SymbolTable × List Int) :
    (table.1.dmLinkedObject = defaultModule ∧ linkedObject ≠ defaultModule ∧
      rename sent experiments linkedObject table =
        (table.1.setLinkedObject linkedObject, sent.getUnsent linkedObject experiments)) ∨
    (¬ (table.1.dmLinkedObject = defaultModule ∧ linkedObject ≠ defaultModule) ∧
      rename sent experiments linkedObject table = table) := by
  unfold rename
  split
  · rename_i both
    exact Or.inl ⟨both.1, both.2, rfl⟩
  · rename_i neither
    exact Or.inr ⟨neither, rfl⟩

theorem useModule_fst (linkedObject : String) (range : AddressRange) (module : BPatchModule)
    (table : SymbolTable × List Int) :
    (useModule sent experiments linkedObject range module table).1.dmLinkedObject =
      (rename sent experiments linkedObject table).1.dmLinkedObject := by
  unfold useModule
  dsimp only
  split
  · rfl
  · rfl

theorem useModule_snd (linkedObject : String) (range : AddressRange) (module : BPatchModule)
    (table : SymbolTable × List Int) : (useModule sent experiments linkedObject range module table).2 =
      (rename sent experiments linkedObject table).2 := by
  unfold useModule
  dsimp only
  split
  · rfl
  · rfl

theorem Named.useModule {table : SymbolTable × List Int} (named : Named sent experiments table)
    (linkedObject : String) (range : AddressRange) (module : BPatchModule) :
    Named sent experiments (Daemon.useModule sent experiments linkedObject range module table) := by
  unfold Named
  rw [useModule_fst, useModule_snd]
  rcases rename_cases sent experiments linkedObject table with
    ⟨-, -, renamed⟩ | ⟨-, renamed⟩
  · rw [renamed]
    rfl
  · rw [renamed]
    exact named

theorem named_useModules (modules : List BPatchModule) {table : SymbolTable × List Int}
    (named : Named sent experiments table) :
    Named sent experiments (useModules sent experiments image modules table) := by
  induction modules generalizing table with
  | nil => exact named
  | cons module rest ih => exact ih (named.useModule _ _ _)

theorem linkedObject_useModules (modules : List BPatchModule) (table : SymbolTable × List Int) :
    let name := (useModules sent experiments image modules table).1.dmLinkedObject
    (name = table.1.dmLinkedObject ∨ ∃ module ∈ modules, image.linkedObject module = name) ∧
      (name = defaultModule → table.1.dmLinkedObject = defaultModule ∧
        ∀ module ∈ modules, image.linkedObject module = defaultModule) := by
  induction modules generalizing table with
  | nil => exact ⟨Or.inl rfl, fun name => ⟨name, by simp⟩⟩
  | cons module rest ih =>
    obtain ⟨origin, isDefault⟩ := ih
      (useModule sent experiments (image.linkedObject module) module.range module table)
    rw [useModule_fst] at origin isDefault
    change (_ ∨ _) ∧ _
    rcases rename_cases sent experiments (image.linkedObject module)
      table with ⟨unnamed, given, renamed⟩ | ⟨not, renamed⟩
    · rw [renamed] at origin isDefault
      constructor
      · rcases origin with same | ⟨other, member, same⟩
        · exact Or.inr ⟨module, mem_cons_self, same.symm⟩
        · exact Or.inr ⟨other, mem_cons_of_mem module member, same⟩
      · exact fun name => absurd (isDefault name).1 given
    · rw [renamed] at origin isDefault
      constructor
      · rcases origin with same | ⟨other, member, same⟩
        · exact Or.inl same
        · exact Or.inr ⟨other, mem_cons_of_mem module member, same⟩
      · intro name
        obtain ⟨before, others⟩ := isDefault name
        refine ⟨before, fun other member => ?_⟩
        rcases mem_cons.mp member with rfl | later
        · by_contra given
          exact not ⟨before, given⟩
        · exact others other later

theorem contains_useModules {file : String} (unsentFile : sent.getUnsent file experiments ≠ [])
    (ofFile : ∀ module ∈ modules,
      image.linkedObject module = file ∨ image.linkedObject module = defaultModule) :
    ∀ {table : SymbolTable × List Int}, table.2 ≠ [] → (∀ module, table.1.Contains module →
        (useModules sent experiments image modules table).1.Contains module) ∧
      ∀ module ∈ modules, (useModules sent experiments image modules table).1.Contains module := by
  induction modules with
  | nil => exact fun _ => ⟨fun _ contains => contains, by simp⟩
  | cons module rest ih =>
    intro table unsent
    have renamedUnsent : (rename sent experiments (image.linkedObject module) table).2 ≠ [] := by
      rcases rename_cases sent experiments (image.linkedObject module)
        table with ⟨-, given, renamed⟩ | ⟨-, renamed⟩
      · rw [renamed, (ofFile module mem_cons_self).resolve_right given]
        exact unsentFile
      · rw [renamed]
        exact unsent
    have renamedContains : ∀ other, table.1.Contains other →
        (rename sent experiments (image.linkedObject module) table).1.Contains other := by
      intro other contains
      rcases rename_cases sent experiments (image.linkedObject module)
        table with ⟨-, -, renamed⟩ | ⟨-, renamed⟩
      · rw [renamed]
        exact contains
      · rw [renamed]
        exact contains
    have used : useModule sent experiments (image.linkedObject module) module.range module table =
        ((rename sent experiments (image.linkedObject module) table).1.addModule module module.range,
          (rename sent experiments (image.linkedObject module) table).2) := by
      unfold useModule
      exact if_pos renamedUnsent
    obtain ⟨kept, rest⟩ := @ih
      (fun other member => ofFile other (mem_cons_of_mem _ member))
      (useModule sent experiments (image.linkedObject module) module.range module table)
      (by rw [used]; exact renamedUnsent)
    constructor
    · intro other contains
      refine kept other ?_
      rw [used]
      exact (renamedContains other contains).addModule _ _
    · intro other member
      rcases mem_cons.mp member with rfl | later
      · refine kept other ?_
        rw [used]
        exact SymbolTable.contains_addModule _ _
      · exact rest other later

end

namespace BPatchImage

variable {image : BPatchImage} {module : BPatchModule} {file : String}

theorem linkedObject_of_mem_filesOf (member : file ∈ image.filesOf module) :
    image.linkedObject module = file ∨ image.linkedObject module = defaultModule := by
  unfold filesOf at member
  split at member
  · exact Or.inl (mem_singleton.mp member).symm
  · rename_i unnamed
    exact Or.inr (not_not.mp unnamed)

theorem mem_filesOf_of_named (named : file ≠ defaultModule)
    (same : image.linkedObject module = file) : file ∈ image.filesOf module := by
  unfold filesOf
  rw [if_pos (same ▸ named), same]
  exact List.mem_singleton_self file

theorem exists_named_of_mem_filesOf (member : file ∈ image.filesOf module)
    (named : file ≠ defaultModule) (present : module ∈ image.modules) :
    ∃ other ∈ image.modules, other.range = module.range ∧ image.linkedObject other = file := by
  rcases linkedObject_of_mem_filesOf member with same | unnamed
  · exact ⟨module, present, rfl, same⟩
  · unfold filesOf at member
    rw [if_neg (not_not.mpr unnamed)] at member
    dsimp only at member
    split at member
    · exact absurd (mem_singleton.mp member) named
    · obtain ⟨other, found, same⟩ := mem_map.mp member
      simp only [List.mem_filter, Bool.and_eq_true, decide_eq_true_eq] at found
      exact ⟨other, found.1, found.2.1, same⟩

theorem default_mem_filesOf
    (unnamed : ∀ other ∈ image.modules, other.range = module.range → image.linkedObject other = defaultModule)
    (present : module ∈ image.modules) : defaultModule ∈ image.filesOf module := by
  unfold filesOf
  rw [if_neg (not_not.mpr (unnamed module present rfl))]
  have nobody : (image.modules.filter fun other =>
      other.range = module.range && image.linkedObject other ≠ defaultModule) = [] := by
    rw [List.filter_eq_nil_iff]
    intro other member both
    simp only [Bool.and_eq_true, decide_eq_true_eq] at both
    exact both.2 (unnamed other member both.1)
  rw [nobody]
  exact List.mem_singleton_self _

theorem eq_of_mem_filesOf (member : file ∈ image.filesOf module)
    (named : image.linkedObject module ≠ defaultModule) : file = image.linkedObject module := by
  unfold filesOf at member
  rw [if_pos named] at member
  exact mem_singleton.mp member

end BPatchImage

section

variable {sent : SentSymbols} {threads : List ThreadName} {image : BPatchImage}

def groups (image : BPatchImage) : List (AddressRange × RangeGroups.Group BPatchModule) :=
  RangeGroups.groupsOf AddressRange.less BPatchModule.range image.modules

theorem grouped_groups (safe : (SymbolCall.sendSymbolsForThread threads image).Safe sent) :
    RangeGroups.Grouped less BPatchModule.range image.modules (groups image) :=
  RangeGroups.grouped_groupsOf less_transitive fun module member =>
    BPatchModule.range?_isSome.mp (safe.1 module member)

variable {group : AddressRange × RangeGroups.Group BPatchModule}

variable {file : String}

variable {module : BPatchModule}

section

variable (safe : (SymbolCall.sendSymbolsForThread threads image).Safe sent)
include safe

theorem group_unique
    (unsent : sent.getUnsent file (experimentGroup threads) ≠ []) (present : group ∈ groups image)
    (inside : module ∈ group.2.2) (ofFile : file ∈ image.filesOf module) :
    (∀ other ∈ group.2.2, file ∈ image.filesOf other) ∧
      ∀ another ∈ groups image, ∀ other ∈ another.2.2, file ∈ image.filesOf other → another = group := by
  have grouped := grouped_groups safe
  have firstOf : ∀ another ∈ groups image, ∀ other ∈ another.2.2, file ∈ image.filesOf other →
      file ∈ image.filesOf another.2.1 := by
    intro another member other here ofFileOther
    have meets := grouped.meets another member other here
    rw [← (grouped.first another member).1] at meets
    have known := grouped.members another member
    exact ((safe.2 other (known other here) file ofFileOther unsent).1 another.2.1
      (known _ (grouped.first_mem member))).mpr ⟨meets.2, meets.1⟩
  have begins := firstOf group present module inside ofFile
  have firstPresent := grouped.members group present _ (grouped.first_mem present)
  have overlaps := (safe.2 group.2.1 firstPresent file begins unsent).1
  constructor
  · intro other here
    have meets := grouped.meets group present other here
    rw [← (grouped.first group present).1] at meets
    exact (overlaps other (grouped.members group present other here)).mpr meets
  · intro another member other here ofFileOther
    have beginsAnother := firstOf another member other here ofFileOther
    have anotherPresent := grouped.members another member _ (grouped.first_mem member)
    have meets := (overlaps another.2.1 anotherPresent).mp beginsAnother
    rw [(grouped.first group present).1, (grouped.first another member).1] at meets
    exact (grouped.eq_of_meets present member meets).symm

theorem name_cases (present : group ∈ groups image) :
    let name := (build sent (experimentGroup threads) image group.2).1.dmLinkedObject
    (name = defaultModule ∧ ∀ module ∈ group.2.2, image.linkedObject module = defaultModule) ∨
      (name ≠ defaultModule ∧ ∃ module ∈ group.2.2, image.linkedObject module = name) := by
  have grouped := grouped_groups safe
  obtain ⟨origin, isDefault⟩ := @linkedObject_useModules sent (experimentGroup threads) image
    group.2.2 (newTable sent (experimentGroup threads) (image.linkedObject group.2.1) group.2.1.range)
  by_cases named : (build sent (experimentGroup threads) image group.2).1.dmLinkedObject = defaultModule
  · exact Or.inl ⟨named, (isDefault named).2⟩
  · refine Or.inr ⟨named, ?_⟩
    rcases origin with same | found
    · exact ⟨group.2.1, grouped.first_mem present, same.symm⟩
    · exact found

theorem exists_module_of_name (present : group ∈ groups image) : ∃ module ∈ group.2.2,
      (build sent (experimentGroup threads) image group.2).1.dmLinkedObject ∈ image.filesOf module := by
  have grouped := grouped_groups safe
  rcases name_cases safe present with ⟨name, unnamed⟩ | ⟨named, module, inside, same⟩
  · refine ⟨group.2.1, grouped.first_mem present, ?_⟩
    rw [name]
    have firstPresent := grouped.members group present _ (grouped.first_mem present)
    refine BPatchImage.default_mem_filesOf (fun other member same => ?_) firstPresent
    obtain ⟨another, there, inside⟩ := grouped.covers other member
    have meets := grouped.meets another there other inside
    rw [same, (grouped.first group present).1] at meets
    rw [grouped.eq_of_meets there present meets] at inside
    exact unnamed other inside
  · exact ⟨module, inside, BPatchImage.mem_filesOf_of_named named same⟩

end

theorem named_build (group : RangeGroups.Group BPatchModule) :
    Named sent (experimentGroup threads) (build sent (experimentGroup threads) image group) :=
  named_useModules group.2 rfl

section

variable (safe : (SymbolCall.sendSymbolsForThread threads image).Safe sent)
  (unsent : sent.getUnsent file (experimentGroup threads) ≠ []) (present : group ∈ groups image)
  (inside : module ∈ group.2.2) (ofFile : file ∈ image.filesOf module)
include safe unsent present inside ofFile

theorem linkedObject_build : (build sent (experimentGroup threads) image group.2).1.dmLinkedObject = file := by
  have grouped := grouped_groups safe
  obtain ⟨all, only⟩ := group_unique safe unsent present inside ofFile
  rcases name_cases safe present with ⟨name, unnamed⟩ | ⟨named, other, here, same⟩
  · rw [name]
    by_contra different
    obtain ⟨other, member, -, isFile⟩ := BPatchImage.exists_named_of_mem_filesOf ofFile
      (Ne.symm different) (grouped.members group present module inside)
    obtain ⟨another, there, insideThere⟩ := grouped.covers other member
    rw [only another there other insideThere
      (BPatchImage.mem_filesOf_of_named (Ne.symm different) isFile)] at insideThere
    exact different ((unnamed other insideThere).symm.trans isFile)
  · rw [← same] at named ⊢
    exact (BPatchImage.eq_of_mem_filesOf (all other here) named).symm

theorem contains_build : (build sent (experimentGroup threads) image group.2).1.Contains module := by
  have grouped := grouped_groups safe
  obtain ⟨all, only⟩ := group_unique safe unsent present inside ofFile
  have isFirst : image.modules.find? (fun other => (image.filesOf other).contains file) = some group.2.1 := by
    obtain ⟨before, after, split, others⟩ := grouped.begins group present
    rw [List.find?_eq_some_iff_append]
    refine ⟨by simpa using all _ (grouped.first_mem present), before, after, split, ?_⟩
    intro other earlier
    obtain ⟨another, there, insideThere, apart⟩ := others other earlier
    rw [Bool.not_eq_true']
    by_contra ofFileOther
    have same := only another there other insideThere (by simpa using ofFileOther)
    rw [same] at apart
    have meets := grouped.meets group present _ (grouped.first_mem present)
    rw [(grouped.first group present).1] at meets
    exact apart meets
  have begins := (safe.2 module (grouped.members group present module inside) file ofFile unsent).2
    group.2.1 isFirst
  refine (contains_useModules unsent (fun other here =>
    BPatchImage.linkedObject_of_mem_filesOf (all other here)) ?_).2 module inside
  change sent.getUnsent (image.linkedObject group.2.1) (experimentGroup threads) ≠ []
  rcases BPatchImage.linkedObject_of_mem_filesOf (all _ (grouped.first_mem present)) with
    same | unnamed
  · rw [same]
    exact unsent
  · rcases begins with same | defaultUnsent
    · rw [same]
      exact unsent
    · rw [unnamed]
      exact defaultUnsent

end

end

section

variable {sent next : SentSymbols} (consistent : sent.Consistent) {call : SymbolCall}
  (stepped : call.step sent = some next)
include consistent stepped

theorem consistent_step : next.Consistent := by
  cases call with
  | sendSymbolsForThread threads image =>
    obtain ⟨tables, -, sends⟩ := bind_eq_some_iff.mp stepped
    exact consistent.sendAll sends
  | dynLibrary threads image module isLoad =>
    simp only [SymbolCall.step, dynLibrary] at stepped
    split at stepped
    · cases stepped
      exact consistent
    · split at stepped
      · obtain ⟨range, -, unsentOrNot⟩ := bind_eq_some_iff.mp stepped
        split at unsentOrNot
        · cases unsentOrNot
          exact consistent
        · obtain ⟨table, -, sends⟩ := bind_eq_some_iff.mp unsentOrNot
          exact consistent.send sends
      · cases stepped
        exact consistent

theorem kept_of_recorded {new : List SymbolTableMessage} (messages : next.messages = sent.messages ++ new)
    (recorded : ∀ file ∈ call.files, ∀ experiment ∈ call.experiments, (file, experiment) ∈ next.sentFiles)
    (contains : ∀ message ∈ new, ∀ module ∈ call.image.modules,
      message.linkedObject ∈ call.image.filesOf module → message.symbolTable.Contains module) :
    call.Kept sent := by
  have once := consistent_step consistent stepped
  refine ⟨next, new, stepped, messages, fun file experiment => ?_,
    fun file isFile experiment asked => ?_, contains⟩
  · rw [once file experiment]
    split <;> simp
  · rw [once file experiment, if_pos (recorded file isFile experiment asked)]

end

variable {threads : List ThreadName}

theorem SymbolCall.Safe.keptForThread {sent : SentSymbols} (consistent : sent.Consistent)
    {image : BPatchImage} (safe : (SymbolCall.sendSymbolsForThread threads image).Safe sent) :
    (SymbolCall.sendSymbolsForThread threads image).Kept sent := by
  have grouped := grouped_groups safe
  let tables : SymbolTableMap := (groups image).map fun group =>
    (group.1, build sent (experimentGroup threads) image group.2)
  have fresh : ∀ entry ∈ tables, ∀ experiment ∈ entry.2.2,
      (entry.2.1.dmLinkedObject, experiment) ∉ sent.sentFiles := by
    intro entry member experiment asked
    obtain ⟨group, -, rfl⟩ := mem_map.mp member
    have named : Named sent (experimentGroup threads) _ := @named_build _ _ image group.2
    dsimp only at asked
    rw [named] at asked
    exact (SentSymbols.mem_getUnsent.mp asked).2
  have distinct : tables.Pairwise fun one other => one.2.2 ≠ [] → other.2.2 ≠ [] →
      one.2.1.dmLinkedObject ≠ other.2.1.dmLinkedObject := by
    rw [List.pairwise_map]
    refine grouped.sorted.imp_of_mem fun {one other} first second below unsent _ same => ?_
    have named : Named sent (experimentGroup threads) _ := @named_build _ _ image one.2
    rw [named] at unsent
    obtain ⟨module, inside, ofFile⟩ := exists_module_of_name safe first
    obtain ⟨module', inside', ofFile'⟩ := exists_module_of_name safe second
    rw [← same] at ofFile'
    have equal := (group_unique safe unsent first inside ofFile).2 other second module' inside' ofFile'
    have meets := grouped.meets one first _ (grouped.first_mem first)
    rw [(grouped.first one first).1] at meets
    rw [equal, meets.1] at below
    cases below
  obtain ⟨next, sends, ⟨new, messages, fromTables⟩, kept, sentAll⟩ :=
    SentSymbols.sendAll_of_distinct fresh distinct
  have stepped : (SymbolCall.sendSymbolsForThread threads image).step sent = some next := by
    rw [SymbolCall.step, Daemon.sendSymbolsForThread, addToTables_all safe.1]
    exact sends
  refine kept_of_recorded consistent stepped messages ?_ ?_
  · intro file isFile experiment asked
    by_cases known : (file, experiment) ∈ sent.sentFiles
    · exact kept _ known
    · obtain ⟨module, member, ofFile⟩ := List.mem_flatMap.mp isFile
      have unsentHere := SentSymbols.mem_getUnsent.mpr ⟨asked, known⟩
      have unsent := List.ne_nil_of_mem unsentHere
      obtain ⟨group, present, inside⟩ := grouped.covers module member
      have name := linkedObject_build safe unsent present inside ofFile
      have named : Named sent (experimentGroup threads) _ := @named_build _ _ image group.2
      have sentTable := sentAll _ (List.mem_map_of_mem present) experiment
      rw [named, name] at sentTable
      exact sentTable unsentHere
  · intro message member module present ofFile
    obtain ⟨entry, inTables, unsent, rfl⟩ := fromTables message member
    obtain ⟨group, isGroup, rfl⟩ := mem_map.mp inTables
    have named : Named sent (experimentGroup threads) _ := @named_build _ _ image group.2
    dsimp only at unsent ofFile ⊢
    rw [named] at unsent
    obtain ⟨other, here, ofOther⟩ := exists_module_of_name safe isGroup
    obtain ⟨another, there, inside⟩ := grouped.covers module present
    have same := (group_unique safe unsent isGroup here ofOther).2 another there module inside ofFile
    rw [same] at inside
    exact contains_build safe unsent isGroup inside ofFile

theorem addWithRange_all {modules : List BPatchModule}
    (valid : ∀ module ∈ modules, module.range?.isSome) (table : SymbolTable) :
    ∃ final, modules.foldlM addWithRange table = some final ∧ final.dmLinkedObject = table.dmLinkedObject ∧
      (∀ module, table.Contains module → final.Contains module) ∧
      ∀ module ∈ modules, module.range = table.dmRange → final.Contains module := by
  induction modules generalizing table with
  | nil => exact ⟨table, rfl, rfl, fun _ contains => contains, by simp⟩
  | cons module rest ih =>
    have range := BPatchModule.range?_of_isSome (valid module mem_cons_self)
    have validRest := fun other member => valid other (mem_cons_of_mem module member)
    rw [foldlM_cons]
    simp only [addWithRange, range, bind_eq_bind, bind_some, pure_def]
    by_cases same : module.range = table.dmRange
    · obtain ⟨final, folded, name, kept, added⟩ := ih validRest (table.addModule module module.range)
      refine ⟨final, by rw [if_pos same]; exact folded, name, fun other contains =>
        kept other (contains.addModule _ _), fun other member sameOther => ?_⟩
      rcases mem_cons.mp member with rfl | later
      · exact kept other (SymbolTable.contains_addModule _ _)
      · exact added other later sameOther
    · obtain ⟨final, folded, name, kept, added⟩ := ih validRest table
      refine ⟨final, by rw [if_neg same]; exact folded, name, kept, fun other member sameOther => ?_⟩
      rcases mem_cons.mp member with rfl | later
      · exact absurd sameOther same
      · exact added other later sameOther

theorem SymbolCall.Safe.keptForLibrary {sent : SentSymbols} (consistent : sent.Consistent)
    {image : BPatchImage} {isLoad : Bool}
    (safe : (SymbolCall.dynLibrary threads image module isLoad).Safe sent) :
    (SymbolCall.dynLibrary threads image module isLoad).Kept sent := by
  by_cases ignored : module.getFullName = defaultModule ∨ isLoad = false
  · have stepped : (SymbolCall.dynLibrary threads image module isLoad).step sent = some sent := by
      rcases ignored with unnamed | unload
      · simp [SymbolCall.step, Daemon.dynLibrary, unnamed]
      · simp [SymbolCall.step, Daemon.dynLibrary, unload]
    refine kept_of_recorded consistent stepped (List.append_nil _).symm ?_ (by simp)
    intro file isFile
    have nothing : ¬ (module.getFullName ≠ defaultModule ∧ isLoad = true) := by
      rintro ⟨named, load⟩
      rcases ignored with unnamed | unload
      · exact named unnamed
      · rw [load] at unload
        cases unload
    rw [SymbolCall.files, if_neg nothing] at isFile
    cases isFile
  · obtain ⟨named, loaded⟩ := not_or.mp ignored
    rw [Bool.not_eq_false] at loaded
    obtain ⟨valid, others⟩ := safe named loaded
    have range := BPatchModule.range?_of_isSome valid
    have isFile : ∀ file ∈ (SymbolCall.dynLibrary threads image module isLoad).files,
        file = module.getFullName := by
      intro file member
      rw [SymbolCall.files, if_pos ⟨named, loaded⟩] at member
      exact mem_singleton.mp member
    by_cases unsent : sent.getUnsent module.getFullName (experimentGroup threads) = []
    · have stepped : (SymbolCall.dynLibrary threads image module isLoad).step sent = some sent := by
        simp [SymbolCall.step, Daemon.dynLibrary, named, loaded, range, unsent]
      refine kept_of_recorded consistent stepped (List.append_nil _).symm ?_ (by simp)
      intro file member experiment asked
      rw [isFile file member]
      by_contra unknown
      have here := SentSymbols.mem_getUnsent.mpr ⟨asked, unknown⟩
      change experiment ∈ sent.getUnsent module.getFullName (experimentGroup threads) at here
      rw [unsent] at here
      cases here
    · have ranges := others unsent
      obtain ⟨table, folded, name, -, added⟩ := addWithRange_all
        (fun other member => (ranges other member).1) (SymbolTable.new module.getFullName module.range)
      have sends := @SentSymbols.send_of_fresh sent
        (table, sent.getUnsent module.getFullName (experimentGroup threads)) unsent (by
          intro experiment asked
          rw [name]
          exact (SentSymbols.mem_getUnsent.mp asked).2)
      have stepped : (SymbolCall.dynLibrary threads image module isLoad).step sent =
          sent.send (table, sent.getUnsent module.getFullName (experimentGroup threads)) := by
        simp only [SymbolCall.step, Daemon.dynLibrary, if_neg named, if_pos loaded, range,
          bind_eq_bind, bind_some, if_neg unsent, folded]
      rw [sends] at stepped
      refine kept_of_recorded consistent stepped rfl ?_ ?_
      · intro file member experiment asked
        rw [isFile file member]
        by_cases known : (module.getFullName, experiment) ∈ sent.sentFiles
        · exact mem_append_left _ known
        · have here := SentSymbols.mem_getUnsent.mpr ⟨asked, known⟩
          refine List.mem_append_right _ (mem_map.mpr ⟨experiment, here, ?_⟩)
          exact congrArg (fun file => (file, experiment)) name
      · intro message member other present ofFile
        obtain rfl := mem_singleton.mp member
        dsimp only at ofFile ⊢
        rw [name] at ofFile
        exact added other present ((ranges other present).2 ofFile)

/-- When the files and ranges of the modules agree in every call of a run, then every call
sends what was not sent before, once and in full. -/
theorem symbolTables_sentOnce {calls : List SymbolCall}
    (safe : Runs.Along (fun sent call => call.Safe sent) SymbolCall.step SentSymbols.empty calls) :
    Runs.Along (fun sent call => call.Kept sent) SymbolCall.step SentSymbols.empty calls := by
  have initial : SentSymbols.empty.Consistent := fun _ _ => rfl
  refine Runs.along_of_along SentSymbols.Consistent (fun sent call consistent safe => ?_)
    (fun sent call next consistent _ stepped => consistent_step consistent stepped) initial safe
  cases call with
  | sendSymbolsForThread threads image => exact safe.keptForThread consistent
  | dynLibrary threads image module isLoad => exact safe.keptForLibrary consistent

def codeModule (path : String) (isSharedLib : Bool) (address : Address) : BPatchModule :=
  ⟨path, isSharedLib, address, 4096, [⟨"work", [(address, address + 16)]⟩], []⟩

def mainThread : ThreadName := ⟨1, "node1", 4711, none⟩

def wellMapped : BPatchImage :=
  ⟨"/bin/program", [codeModule "main.c" false 4194304, codeModule "DEFAULT_MODULE" true 65536,
    codeModule "/lib/libm.so" true 65536]⟩

theorem symbolTables_sentOnce_wellMapped :
    Runs.Along (fun sent call => call.Safe sent) SymbolCall.step SentSymbols.empty
        [.sendSymbolsForThread [mainThread] wellMapped] ∧
      Runs.Along (fun sent call => call.Kept sent) SymbolCall.step SentSymbols.empty
        [.sendSymbolsForThread [mainThread] wellMapped] := by
  have safe : Runs.Along (fun sent call => SymbolCall.Safe sent call) SymbolCall.step
      SentSymbols.empty [.sendSymbolsForThread [mainThread] wellMapped] := by
    refine ⟨?_, fun _ _ => trivial⟩
    change SymbolCall.Safe SentSymbols.empty _
    unfold SymbolCall.Safe
    decide
  exact ⟨safe, symbolTables_sentOnce safe⟩

def twoSegments : BPatchImage :=
  ⟨"/bin/program", [codeModule "main.c" false 4194304, codeModule "start.c" false 6291456]⟩

theorem two_ranges_abort :
    ¬ Runs.Along (fun sent call => SymbolCall.Kept sent call) SymbolCall.step SentSymbols.empty
      [.sendSymbolsForThread [mainThread] twoSegments] := by
  rintro ⟨⟨next, new, stepped, -⟩, -⟩
  have aborts : SymbolCall.step SentSymbols.empty (.sendSymbolsForThread [mainThread] twoSegments) = none := by
    decide
  rw [aborts] at stepped
  cases stepped

end OpenSpeedShop.Daemon
