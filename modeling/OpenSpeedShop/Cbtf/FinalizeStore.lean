import OpenSpeedShop.Cbtf.FinalizeTables
import OpenSpeedShop.Framework.StoredTables

/-!
Storing the symbol tables: functions that overlap one of an earlier experiment are left out. The
tables of one experiment take nothing from one another.
-/

namespace OpenSpeedShop

open Fallible
open AddressRange (less)

namespace Cbtf

structure FunctionMap where
  entries : Functions
  formed : RangeMap.Formed entries

def IsNew (allfuncs : Functions) (range : AddressRange) : Prop :=
  OrderedMap.find? AddressRange.less range allfuncs = none

instance (allfuncs : Functions) (range : AddressRange) : Decidable (IsNew allfuncs range) :=
  inferInstanceAs (Decidable (_ = none))

def onlyNew (allfuncs : Functions) (symbolTable : SymbolTable) : SymbolTable :=
  { symbolTable with
    dmFunctions := symbolTable.dmFunctions.filter fun function => IsNew allfuncs function.1 }

structure LookedUp (allfuncs functions : Functions) (seen : Seen) : Prop where
  formed : RangeMap.Formed seen.allfuncs
  recorded : ∀ entry, entry ∈ seen.allfuncs ↔ entry ∈ allfuncs ∨ (entry ∈ functions ∧ IsNew allfuncs entry.1)
  existing : RangeMap.Formed seen.existingfunctions
  known : ∀ entry, entry ∈ seen.existingfunctions ↔ entry ∈ functions ∧ ¬ IsNew allfuncs entry.1

section

variable {allfuncs earlier : Functions} {seen : Seen} {function : AddressRange × String}
  (looked : LookedUp allfuncs earlier seen)

include looked

theorem LookedUp.missing_iff (formed : RangeMap.Formed allfuncs)
    (apart : ∀ entry ∈ earlier, ¬ entry.1.Meets function.1) :
    OrderedMap.find? less function.1 seen.allfuncs = none ↔ IsNew allfuncs function.1 := by
  rw [looked.formed.find?_eq_none_iff, IsNew, formed.find?_eq_none_iff]
  constructor
  · exact fun free entry member => free entry ((looked.recorded entry).mpr (.inl member))
  · intro free entry member
    rcases (looked.recorded entry).mp member with old | ⟨inEarlier, -⟩
    · exact free entry old
    · exact apart entry inEarlier

theorem LookedUp.record (nonempty : function.1.dmBegin < function.1.dmEnd)
    (missing : OrderedMap.find? less function.1 seen.allfuncs = none) (isNew : IsNew allfuncs function.1) :
    LookedUp allfuncs (earlier ++ [function]) ⟨seen.existingfunctions,
      OrderedMap.insert less function.1 function.2 seen.allfuncs⟩ := by
  obtain ⟨formedNext, members⟩ := looked.formed.insert nonempty missing function.2
  refine ⟨formedNext, fun entry => ?_, looked.existing, fun entry => ?_⟩
  · rw [members, looked.recorded, List.mem_append, List.mem_singleton, Prod.mk.eta]
    constructor
    · rintro (rfl | old | ⟨inEarlier, new⟩)
      · exact .inr ⟨.inr rfl, isNew⟩
      · exact .inl old
      · exact .inr ⟨.inl inEarlier, new⟩
    · rintro (old | ⟨inEarlier | rfl, new⟩)
      · exact .inr (.inl old)
      · exact .inr (.inr ⟨inEarlier, new⟩)
      · exact .inl rfl
  · rw [looked.known, List.mem_append, List.mem_singleton, or_and_right]
    refine (or_iff_left ?_).symm
    rintro ⟨rfl, old⟩
    exact old isNew

theorem LookedUp.keep (nonempty : function.1.dmBegin < function.1.dmEnd)
    (apart : ∀ entry ∈ earlier, ¬ entry.1.Meets function.1) (isOld : ¬ IsNew allfuncs function.1) :
    LookedUp allfuncs (earlier ++ [function])
      ⟨OrderedMap.insert less function.1 function.2 seen.existingfunctions, seen.allfuncs⟩ := by
  have missing : OrderedMap.find? less function.1 seen.existingfunctions = none := by
    rw [looked.existing.find?_eq_none_iff]
    exact fun entry member => apart entry ((looked.known entry).mp member).1
  obtain ⟨formedNext, members⟩ := looked.existing.insert nonempty missing function.2
  refine ⟨looked.formed, fun entry => ?_, formedNext, fun entry => ?_⟩
  · rw [looked.recorded, List.mem_append, List.mem_singleton, or_and_right]
    refine or_congr_right (or_iff_left ?_).symm
    rintro ⟨rfl, new⟩
    exact isOld new
  · rw [members, looked.known, List.mem_append, List.mem_singleton, Prod.mk.eta]
    constructor
    · rintro (rfl | ⟨inEarlier, isKnown⟩)
      · exact ⟨.inr rfl, isOld⟩
      · exact ⟨.inl inEarlier, isKnown⟩
    · rintro ⟨inEarlier | rfl, isKnown⟩
      · exact .inr ⟨inEarlier, isKnown⟩
      · exact .inl rfl

theorem LookedUp.lookUp (formed : RangeMap.Formed allfuncs) (nonempty : function.1.dmBegin < function.1.dmEnd)
    (apart : ∀ entry ∈ earlier, ¬ entry.1.Meets function.1) :
    LookedUp allfuncs (earlier ++ [function]) (lookUp seen function) := by
  have found := looked.missing_iff formed apart
  unfold Cbtf.lookUp
  split
  next missing => exact looked.record nonempty missing (found.mp missing)
  next old here =>
    refine looked.keep nonempty apart fun isNew => ?_
    rw [found.mpr isNew] at here
    cases here

end

theorem lookedUp {allfuncs functions : Functions} (formed : RangeMap.Formed allfuncs)
    (ordered : RangeMap.Formed functions) :
    LookedUp allfuncs functions (functions.foldl lookUp ⟨[], allfuncs⟩) := by
  induction functions using List.reverseRecOn with
  | nil => exact ⟨formed, by simp, RangeMap.formed_nil, by simp⟩
  | append_singleton earlier function ih =>
    have looked := ih (ordered.sublist (List.sublist_append_left _ _))
    rw [List.foldl_append, List.foldl_cons, List.foldl_nil]
    refine looked.lookUp formed (ordered.nonempty function (by simp)) fun entry member meets => ?_
    -- Functions of one table that overlap are the same, and none is there twice.
    obtain rfl := ordered.disjoint (List.mem_append_left _ member) (by simp) meets
    have nodup := List.nodup_append.mp ordered.nodup
    exact nodup.2.2 entry member entry (by simp) rfl

theorem removeFunctions_eq {other : Functions} : ∀ {symbolTable : SymbolTable},
    RangeMap.Formed symbolTable.dmFunctions → other.Nodup →
    (∀ entry ∈ other, entry ∈ symbolTable.dmFunctions) →
    removeFunctions symbolTable other = { symbolTable with
      dmFunctions := symbolTable.dmFunctions.filter fun function => function ∉ other } := by
  induction other with
  | nil =>
    intro symbolTable _ _ _
    simp [removeFunctions]
  | cons entry rest ih =>
    intro symbolTable formed nodup inside
    obtain ⟨notLater, nodupRest⟩ := List.nodup_cons.mp nodup
    obtain ⟨here, later⟩ := List.forall_mem_cons.mp inside
    have erased := formed.nodup.erase_eq_filter entry
    have others : (symbolTable.dmFunctions.erase entry).filter (fun function => function ∉ rest) =
        symbolTable.dmFunctions.filter fun function => function ∉ entry :: rest := by
      rw [erased, List.filter_filter]
      refine List.filter_congr fun function _ => ?_
      by_cases same : function = entry <;> simp [same, notLater]
    have first : removeFunctions symbolTable (entry :: rest) =
        removeFunctions { symbolTable with
          dmFunctions := symbolTable.dmFunctions.erase entry } rest := by
      simp only [removeFunctions, List.foldl_cons, formed.find?_self here]
    rw [first, ih (formed.sublist List.erase_sublist) nodupRest fun other member => ?_]
    · simp only [others]
    · refine (List.mem_erase_of_ne ?_).mpr (later other member)
      rintro rfl
      exact notLater member

section

variable {allfuncs : Functions} {entry : AddressRange × SymbolTable × Int32}

def recordAll (allfuncs : Functions) (symbolTable : SymbolTable) : Functions :=
  (symbolTable.dmFunctions.foldl lookUp ⟨[], allfuncs⟩).allfuncs

theorem storeTable_eq (formed : RangeMap.Formed allfuncs)
    (ordered : RangeMap.Formed entry.2.1.dmFunctions) (tables : ExperimentTables) :
    storeTable (allfuncs, tables) entry =
      ((tables.processAndStore (onlyNew allfuncs entry.2.1) entry.2.2).toOption).map
        fun stored => (recordAll allfuncs entry.2.1, stored) := by
  have looked := lookedUp formed ordered
  have removed : removeFunctions entry.2.1
      (entry.2.1.dmFunctions.foldl lookUp ⟨[], allfuncs⟩).existingfunctions = onlyNew allfuncs entry.2.1 := by
    rw [removeFunctions_eq ordered looked.existing.nodup
      fun function member => ((looked.known function).mp member).1, onlyNew]
    congr 1
    refine List.filter_congr fun function member => decide_eq_decide.mpr ?_
    rw [looked.known, and_iff_right member, not_not]
  simp only [storeTable, removed, recordAll]
  cases (tables.processAndStore (onlyNew allfuncs entry.2.1) entry.2.2).toOption <;> rfl

end

structure Filled (readers : Readers) (filled : SymbolTableMap) : Prop where
  formed : RangeMap.Formed filled
  keeps : ∀ entry ∈ filled, SymbolTable.KeepsFirst entry.1 (readers entry.2.2 entry.1) entry.2.1
  holds : ∀ entry ∈ filled, SymbolTable.Holds entry.1 (readers entry.2.2 entry.1) entry.2.1

theorem Filled.tail {readers : Readers} {entry : AddressRange × SymbolTable × Int32}
    {rest : SymbolTableMap} (filled : Filled readers (entry :: rest)) : Filled readers rest :=
  ⟨filled.formed.tail, fun other member => filled.keeps other (List.mem_cons_of_mem _ member),
    fun other member => filled.holds other (List.mem_cons_of_mem _ member)⟩

theorem recordAll_isNew {readers : Readers} {allfuncs : Functions}
    {entry other : AddressRange × SymbolTable × Int32} {rest : SymbolTableMap}
    (formed : RangeMap.Formed allfuncs) (filled : Filled readers (entry :: rest))
    (member : other ∈ rest) {function : AddressRange × String} (inTable : function ∈ other.2.1.dmFunctions) :
    IsNew (recordAll allfuncs entry.2.1) function.1 ↔ IsNew allfuncs function.1 := by
  have keeps := filled.keeps entry (by simp)
  have keepsOther := filled.keeps other (List.mem_cons_of_mem _ member)
  have looked := lookedUp formed keeps.formed
  rw [IsNew, IsNew, recordAll, looked.formed.find?_eq_none_iff, formed.find?_eq_none_iff]
  constructor
  · exact fun free old present => free old ((looked.recorded old).mpr (.inl present))
  · intro free one present meets
    rcases (looked.recorded one).mp present with old | ⟨own, -⟩
    · exact free one old meets
    · have inside := (keeps.accepted one own).2.2
      have outside := (keepsOther.accepted function inTable).2.1
      have apart := filled.formed.before member
      exact absurd meets.2 (not_lt.mpr (inside.trans (apart.trans outside)))

theorem recordAll_formed {allfuncs : Functions} {symbolTable : SymbolTable}
    (formed : RangeMap.Formed allfuncs) (ordered : RangeMap.Formed symbolTable.dmFunctions) :
    RangeMap.Formed (recordAll allfuncs symbolTable) :=
  (lookedUp formed ordered).formed

def storeNew (allfuncs : Functions) (tables : ExperimentTables)
    (entry : AddressRange × SymbolTable × Int32) : Result ExperimentTables :=
  tables.processAndStore (onlyNew allfuncs entry.2.1) entry.2.2

theorem storeTables_eq {readers : Readers} {initial : Functions} {filled : SymbolTableMap} :
    ∀ {allfuncs : Functions} {tables : ExperimentTables}, RangeMap.Formed allfuncs →
    Filled readers filled → (∀ entry ∈ filled, ∀ function ∈ entry.2.1.dmFunctions,
      (IsNew allfuncs function.1 ↔ IsNew initial function.1)) →
    ∃ final, RangeMap.Formed final ∧ filled.foldlM storeTable (allfuncs, tables) =
      ((filled.foldlM (storeNew initial) tables).toOption).map fun stored => (final, stored) := by
  induction filled with
  | nil => exact fun {allfuncs _} formed _ _ => ⟨allfuncs, formed, rfl⟩
  | cons entry rest ih =>
    -- The map has grown by functions of earlier tables, which later tables do not find.
    intro allfuncs tables formed filled same
    obtain ⟨here, later⟩ := List.forall_mem_cons.mp same
    have ordered := (filled.keeps entry (by simp)).formed
    have kept : onlyNew allfuncs entry.2.1 = onlyNew initial entry.2.1 := by
      unfold onlyNew
      congr 1
      exact List.filter_congr fun function member => decide_eq_decide.mpr (here function member)
    have sameLater : ∀ other ∈ rest, ∀ function ∈ other.2.1.dmFunctions,
        (IsNew (recordAll allfuncs entry.2.1) function.1 ↔ IsNew initial function.1) :=
      fun other member function inTable =>
        (recordAll_isNew formed filled member inTable).trans (later other member function inTable)
    rw [List.foldlM_cons, List.foldlM_cons, storeTable_eq formed ordered, kept]
    cases stored : tables.processAndStore (onlyNew initial entry.2.1) entry.2.2 with
    | error failure =>
      exact ⟨_, recordAll_formed formed ordered, by simp [storeNew, stored, Except.toOption]⟩
    | ok middle =>
      obtain ⟨final, formedFinal, ran⟩ :=
        @ih _ middle (recordAll_formed formed ordered) filled.tail sameLater
      exact ⟨final, formedFinal, by simpa [storeNew, stored, Except.toOption] using ran⟩

section

variable {readers : Readers} {initial : Functions} {filled : SymbolTableMap}
  {entry : AddressRange × SymbolTable × Int32}

section

variable (whole : Filled readers filled) (member : entry ∈ filled)
include whole member

theorem Filled.onlyNew_holds :
    SymbolTable.Holds entry.1 (readers entry.2.2 entry.1) (onlyNew initial entry.2.1) := by
  have holds := whole.holds entry member
  have functions : ∀ function ∈ (onlyNew initial entry.2.1).dmFunctions,
      SymbolTable.Accepted entry.1 function.1 :=
    fun function inTable => holds.functions function (List.mem_filter.mp inTable).1
  exact ⟨holds.range, functions, holds.loops, holds.loopCount, holds.statements, holds.statementCount⟩

theorem Filled.mem_onlyNew
    {function : AddressRange × String} : function ∈ (onlyNew initial entry.2.1).dmFunctions ↔
      function ∈ SymbolTable.firstCome entry.1 (readers entry.2.2 entry.1) ∧ IsNew initial function.1 := by
  rw [onlyNew, List.mem_filter, (whole.keeps entry member).exact, decide_eq_true_eq]

theorem Filled.length_onlyNew :
    (onlyNew initial entry.2.1).dmFunctions.length ≤ (readers entry.2.2 entry.1).length := by
  have keeps := whole.keeps entry member
  have nodup := keeps.formed.nodup
  have fewer : entry.2.1.dmFunctions.length ≤
      (SymbolTable.firstCome entry.1 (readers entry.2.2 entry.1)).length :=
    (nodup.subperm fun function inTable => (keeps.exact function).mp inTable).length_le
  exact (List.length_filter_le _ _).trans (fewer.trans (SymbolTable.length_firstCome_le _ _))

end

structure Storable (initial : Functions) (range : AddressRange) (calls : List SymbolTable.Call) : Prop where
  returns : ∀ call ∈ calls, call.Returns range
  functions : ∀ function ∈ SymbolTable.firstCome range calls, IsNew initial function.1 →
    SymbolTable.FunctionFits range function.1
  entries : SymbolTable.EntriesStorable range calls

theorem Filled.storeNew_returns_iff (whole : Filled readers filled)
    (returns : ∀ entry ∈ filled, ∀ call ∈ readers entry.2.2 entry.1, call.Returns entry.1)
    (tables : ExperimentTables) : (∃ stored, filled.foldlM (storeNew initial) tables = .ok stored) ↔
      ∀ entry ∈ filled, Storable initial entry.1 (readers entry.2.2 entry.1) := by
  refine foldlM_returns_iff (fun entry member tables => ?_) tables
  have exact := @SymbolTable.processAndStore_returns_iff_fits entry.1 (readers entry.2.2 entry.1)
    (onlyNew initial entry.2.1) entry.2.2 tables.toSymbolTables
    (whole.onlyNew_holds member) (returns entry member)
  have stores : (∃ next, storeNew initial tables entry = .ok next) ↔
      ∃ after, (onlyNew initial entry.2.1).processAndStore entry.2.2 tables.toSymbolTables = .ok after := by
    simp only [storeNew, ExperimentTables.processAndStore, bind_eq_ok]
    constructor
    · rintro ⟨_, after, stored, -⟩
      exact ⟨after, stored⟩
    · rintro ⟨after, stored⟩
      exact ⟨_, after, stored, rfl⟩
  rw [stores, exact]
  constructor
  · rintro ⟨fit, entries⟩
    exact ⟨returns entry member, fun function first new =>
      fit function ((whole.mem_onlyNew member).mpr ⟨first, new⟩), entries⟩
  · intro storable
    refine ⟨fun function inTable => ?_, storable.entries⟩
    obtain ⟨first, new⟩ := (whole.mem_onlyNew member).mp inTable
    exact storable.functions function first new

def storedTables (initial : Functions) (filled : SymbolTableMap) : SymbolTableMap :=
  filled.map fun entry => (entry.1, onlyNew initial entry.2.1, entry.2.2)

theorem storeNew_stores {initial : Functions} {filled : SymbolTableMap} :
    ∀ {before after : ExperimentTables}, Filled readers filled →
    SymbolTable.Ready before.toSymbolTables (filled.map fun entry => (readers entry.2.2 entry.1).length).sum →
    filled.foldlM (storeNew initial) before = .ok after →
    SymbolTable.StoresEach (storedTables initial filled) before.toSymbolTables after.toSymbolTables ∧
      after.threads = before.threads ∧ after.linkedObjects = before.linkedObjects := by
  induction filled with
  | nil =>
    intro before after _ _ ran
    obtain rfl := Except.ok.inj ran
    exact ⟨.nil _, rfl, rfl⟩
  | cons entry rest ih =>
    intro before after whole ready ran
    rw [List.foldlM_cons] at ran
    obtain ⟨middle, stepped, others⟩ := bind_eq_ok.mp ran
    obtain ⟨symbols, processed, returned⟩ := bind_eq_ok.mp stepped
    cases returned
    have member : entry ∈ entry :: rest := List.mem_cons_self
    rw [List.map_cons, List.sum_cons] at ready
    obtain ⟨first, readyRest⟩ := @SymbolTable.processAndStore_stores
      (entry.1, onlyNew initial entry.2.1, entry.2.2) _ _ _ _
      (whole.onlyNew_holds member) (whole.length_onlyNew member) ready processed
    obtain ⟨later, threads, objects⟩ := ih whole.tail readyRest others
    exact ⟨.cons first later, threads, objects⟩

end

end Cbtf

end OpenSpeedShop
