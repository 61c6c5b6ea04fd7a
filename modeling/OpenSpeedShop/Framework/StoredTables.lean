import OpenSpeedShop.Framework.StoredSymbols

/-!
What storing one symbol table, or several, does to the tables of an experiment, when the functions
stored are some of those that were added.
-/

namespace OpenSpeedShop

open Fallible

namespace ObjectTables

variable {Columns Symbol : Type} {linkedObject : Int32} {columns : Symbol → Columns → Prop}
  {addresses : Symbol → Address → Prop} {before after : ObjectTables Columns} {symbols : List Symbol}

def Has (tables : ObjectTables Columns) (linkedObject : Int32) (columns : Columns)
    (covered : Address → Prop) : Prop :=
  ∃ row ∈ tables.objects, row.linkedObject = linkedObject ∧ row.columns = columns ∧
    ∀ address, tables.Marks row.id linkedObject address ↔ covered address

def HasAny (tables : ObjectTables Columns) (linkedObject : Int32) : Prop :=
  ∃ row ∈ tables.objects, row.linkedObject = linkedObject

variable {tables : ObjectTables Columns}

theorem Fits.less {few many : Nat} (fits : tables.Fits many)
    (fewer : few ≤ many) : tables.Fits few := fun i inside => fits i (by omega)

section

variable (adds : AddsSymbols linkedObject columns addresses before after symbols)
include adds

theorem AddsSymbols.fits {count : Nat} (fits : before.Fits (symbols.length + count)) : after.Fits count := by
  intro i inside
  have later := fits (symbols.length + i) (by omega)
  have same : after.nextObject + (i : Int) = before.nextObject + ((symbols.length + i : Nat) : Int) := by
    rw [adds.nextObject]
    push_cast
    omega
  rw [same]
  exact later

theorem AddsSymbols.mem_objects
    {row : ObjectRow Columns} (member : row ∈ after.objects) : row ∈ before.objects ∨
      (row.linkedObject = linkedObject ∧ ∃ symbol ∈ symbols, columns symbol row.columns) := by
  obtain ⟨rows, same, -, each⟩ := adds.objects
  rw [same] at member
  rcases List.mem_append.mp member with old | new
  · exact .inl old
  · obtain ⟨i, here⟩ := List.getElem?_of_mem new
    obtain ⟨symbol, present, linked, named⟩ := exists_of_forall₂ each.flip here
    exact .inr ⟨linked, symbol, List.mem_of_getElem? present, named⟩

theorem AddsSymbols.hasAny_iff {other : Int32} :
    after.HasAny other ↔ before.HasAny other ∨ (other = linkedObject ∧ symbols ≠ []) := by
  constructor
  · rintro ⟨row, member, rfl⟩
    rcases adds.mem_objects member with old | ⟨linked, symbol, present, -⟩
    · exact .inl ⟨row, old, rfl⟩
    · exact .inr ⟨linked, List.ne_nil_of_mem present⟩
  · obtain ⟨rows, same, -, each⟩ := adds.objects
    rintro (⟨row, member, linked⟩ | ⟨rfl, some_⟩)
    · exact ⟨row, by rw [same]; exact List.mem_append_left _ member, linked⟩
    · cases each with
      | nil => exact absurd rfl some_
      | cons first _ =>
        exact ⟨_, by rw [same]; exact List.mem_append_right _ List.mem_cons_self, first.1⟩

end

theorem not_marks_next (i : Nat) (other : Int32)
    (address : Address) : ¬ tables.Marks (tables.nextObject + i) other address := by
  rintro ⟨range, -, row, member, -, number, -⟩
  have below := lt_nextObject (List.mem_map.mpr ⟨row, member, rfl⟩)
  omega

theorem AddsSymbols.has_iff {own : Symbol → Columns}
    (adds : AddsSymbols linkedObject (fun symbol columns => columns = own symbol) addresses before
      after symbols) {other : Int32} {columns : Columns} {covered : Address → Prop} :
    after.Has other columns covered ↔ before.Has other columns covered ∨
      (other = linkedObject ∧ ∃ symbol ∈ symbols, own symbol = columns ∧
        ∀ address, addresses symbol address ↔ covered address) := by
  obtain ⟨rows, same, numbers, each⟩ := adds.objects
  have old : ∀ row ∈ before.objects, ∀ address,
      after.Marks row.id other address ↔ before.Marks row.id other address := by
    intro row member address
    rw [adds.marks, or_iff_left]
    rintro ⟨-, i, symbol, -, number, -⟩
    have below := lt_nextObject (List.mem_map.mpr ⟨row, member, rfl⟩)
    omega
  have new : ∀ (i : Nat) (row : ObjectRow Columns) (symbol : Symbol), rows[i]? = some row →
      symbols[i]? = some symbol → ∀ address,
      after.Marks row.id linkedObject address ↔ addresses symbol address := by
    intro i row symbol rowHere here address
    have number : row.id = before.nextObject + i := by
      have both := congrArg (·[i]?) numbers
      have inside := (List.getElem?_eq_some_iff.mp here).1
      simpa [rowHere, inside] using both
    rw [adds.marks, number, or_iff_right (not_marks_next i linkedObject address)]
    constructor
    · rintro ⟨-, j, found, there, sameNumber, covers⟩
      obtain rfl : i = j := by omega
      obtain rfl : symbol = found := Option.some.inj (here.symm.trans there)
      exact covers
    · exact fun covers => ⟨rfl, i, symbol, here, rfl, covers⟩
  constructor
  · rintro ⟨row, member, linked, named, marks⟩
    rw [same] at member
    rcases List.mem_append.mp member with inBefore | inRows
    · exact .inl ⟨row, inBefore, linked, named, fun address => (old row inBefore address).symm.trans
        (marks address)⟩
    · obtain ⟨i, rowHere⟩ := List.getElem?_of_mem inRows
      obtain ⟨symbol, here, ownObject, ownColumns⟩ := exists_of_forall₂ each.flip rowHere
      obtain rfl : other = linkedObject := linked.symm.trans ownObject
      exact .inr ⟨rfl, symbol, List.mem_of_getElem? here, ownColumns.symm.trans named,
        fun address => (new i row symbol rowHere here address).symm.trans (marks address)⟩
  · rintro (⟨row, member, linked, named, marks⟩ | ⟨rfl, symbol, member, named, covers⟩)
    · exact ⟨row, by rw [same]; exact List.mem_append_left _ member, linked, named,
        fun address => (old row member address).trans (marks address)⟩
    · obtain ⟨i, here⟩ := List.getElem?_of_mem member
      obtain ⟨row, rowHere, ownObject, ownColumns⟩ := exists_of_forall₂ each here
      exact ⟨row, by rw [same]; exact List.mem_append_right _ (List.mem_of_getElem? rowHere),
        ownObject, ownColumns.trans named,
        fun address => (new i row symbol rowHere here address).trans (covers address)⟩

end ObjectTables

namespace SymbolTable

theorem FilesFit.less {files : List FileRow} {few many : Nat} (fits : FilesFit files many)
    (fewer : few ≤ many) : FilesFit files few :=
  ⟨fits.stored, fun i inside => fits.next i (by omega)⟩

structure Ready (tables : SymbolTables) (count : Nat) : Prop extends HasRoom tables count where
  functionsReferenced : tables.functions.Referenced
  functions : tables.functions.Fits count

theorem Ready.less {tables : SymbolTables} {few many : Nat} (ready : Ready tables many)
    (fewer : few ≤ many) : Ready tables few where
  loopsReferenced := ready.loopsReferenced
  statementsReferenced := ready.statementsReferenced
  loops := ready.loops.less fewer
  statements := ready.statements.less fewer
  files := ready.files.less fewer
  functionsReferenced := ready.functionsReferenced
  functions := ready.functions.less fewer

theorem storeStatements_files {dmRange : AddressRange} {linkedObject : Int32}
    {entries : List (StatementEntry × List AddressRange)} {count : Nat} :
    ∀ {before after : List FileRow × ObjectTables StatementColumns},
    (∀ entry ∈ entries, Above dmRange entry.2) → FilesFit before.1 (entries.length + count) →
    entries.foldlM (storeStatement dmRange linkedObject) before = .ok after →
    before.1 ⊆ after.1 ∧ FilesFit after.1 count := by
  induction entries with
  | nil =>
    intro before after _ fits ran
    obtain rfl := Except.ok.inj ran
    exact ⟨fun _ member => member, fits.less (by simp)⟩
  | cons entry rest ih =>
    intro before after above fits ran
    obtain ⟨here, later⟩ := List.forall_mem_cons.mp above
    rw [List.foldlM_cons] at ran
    obtain ⟨middle, stepped, others⟩ := bind_eq_ok.mp ran
    have enough : FilesFit before.1 (rest.length + count + 1) :=
      fits.less (by simp only [List.length_cons]; omega)
    obtain ⟨kept, fitsMiddle, -⟩ := storeStatement_ok here enough stepped
    obtain ⟨keptRest, fitsAfter⟩ := ih later fitsMiddle others
    exact ⟨fun _ member => keptRest (kept member), fitsAfter⟩

structure Stores (entry : AddressRange × SymbolTable × Int32) (before after : SymbolTables) : Prop where
  addressSpaces : after.addressSpaces = before.addressSpaces
  files : before.files ⊆ after.files
  functions : ObjectTables.AddsSymbols entry.2.2 (fun function name => name = function.2)
    (fun function => Offsets entry.1 [function.1]) before.functions after.functions
    entry.2.1.dmFunctions
  loops : ObjectTables.AddsSymbols entry.2.2
    (fun loop own => own = OffsetBinary.encode (loop.1 - entry.1.dmBegin))
    (fun loop => Offsets entry.1 loop.2) before.loops after.loops entry.2.1.dmLoops
  statements : ObjectTables.AddsSymbols entry.2.2
    (fun statement => StatementIn after.files statement.1)
    (fun statement => Offsets entry.1 statement.2) before.statements after.statements
    entry.2.1.dmStatements

theorem processAndStore_stores {entry : AddressRange × SymbolTable × Int32} {calls : List Call}
    {before after : SymbolTables} {count : Nat} (holds : Holds entry.1 calls entry.2.1)
    (few : entry.2.1.dmFunctions.length ≤ calls.length) (ready : Ready before (calls.length + count))
    (stored : entry.2.1.processAndStore entry.2.2 before = .ok after) :
    Stores entry before after ∧ Ready after count := by
  have own := ready.less (Nat.le_add_right _ count)
  obtain ⟨spaces, functions, -, statements⟩ := processAndStore_eq_ok.mp stored
  rw [holds.range] at functions statements
  have above : ∀ function ∈ entry.2.1.dmFunctions, Above entry.1 [function.1] := by
    intro function member range present
    rw [List.mem_singleton.mp present]
    exact ⟨(holds.functions function member).1, (holds.functions function member).2.1⟩
  have addsFunctions := storeFunctions_ok above ready.functionsReferenced (own.functions.less few) functions
  have addsLoops := holds.addsLoops own.toHasRoom stored
  have addsStatements := holds.addsStatements own.toHasRoom stored
  have loopCount := holds.loopCount
  have statementCount := holds.statementCount
  obtain ⟨kept, files⟩ := @storeStatements_files entry.1 entry.2.2 entry.2.1.dmStatements count
    (before.files, before.statements) (after.files, after.statements)
    (fun statement member => above_of_accepted (holds.statementsAbove statement member))
    (ready.files.less (by omega)) statements
  exact ⟨⟨spaces, kept, addsFunctions, addsLoops, addsStatements⟩, {
    loopsReferenced := addsLoops.referenced
    statementsReferenced := addsStatements.referenced
    loops := addsLoops.fits (ready.loops.less (by omega))
    statements := addsStatements.fits (ready.statements.less (by omega))
    files := files
    functionsReferenced := addsFunctions.referenced
    functions := addsFunctions.fits (ready.functions.less (by omega)) }⟩

inductive StoresEach : List (AddressRange × SymbolTable × Int32) → SymbolTables → SymbolTables → Prop
  | nil (tables : SymbolTables) : StoresEach [] tables tables
  | cons {entry : AddressRange × SymbolTable × Int32}
      {rest : List (AddressRange × SymbolTable × Int32)} {before middle after : SymbolTables}
      (first : Stores entry before middle) (others : StoresEach rest middle after) :
      StoresEach (entry :: rest) before after

section

variable {entries : List (AddressRange × SymbolTable × Int32)} {before after : SymbolTables}
  (stores : StoresEach entries before after)

include stores

theorem StoresEach.addressSpaces : after.addressSpaces = before.addressSpaces := by
  induction stores with
  | nil tables => rfl
  | cons first others ih => exact ih.trans first.addressSpaces

theorem StoresEach.files : before.files ⊆ after.files := by
  induction stores with
  | nil tables => exact fun _ member => member
  | cons first others ih => exact fun _ member => ih (first.files member)

variable {linkedObject : Int32}

theorem StoresEach.function_iff {name : String} {covered : Address → Prop} :
    after.functions.Has linkedObject name covered ↔ before.functions.Has linkedObject name covered ∨
      ∃ entry ∈ entries, entry.2.2 = linkedObject ∧ ∃ function ∈ entry.2.1.dmFunctions,
        function.2 = name ∧ ∀ address, Offsets entry.1 [function.1] address ↔ covered address := by
  induction stores with
  | nil tables => simp
  | cons first others ih =>
    rw [ih, first.functions.has_iff, List.exists_mem_cons_iff, or_assoc, eq_comm]

theorem StoresEach.hasFunction_iff :
    after.functions.HasAny linkedObject ↔ before.functions.HasAny linkedObject ∨
      ∃ entry ∈ entries, entry.2.2 = linkedObject ∧ entry.2.1.dmFunctions ≠ [] := by
  induction stores with
  | nil tables => simp
  | cons first others ih =>
    rw [ih, first.functions.hasAny_iff, List.exists_mem_cons_iff, or_assoc, eq_comm]

theorem StoresEach.hasLoop_iff : after.loops.HasAny linkedObject ↔ before.loops.HasAny linkedObject ∨
      ∃ entry ∈ entries, entry.2.2 = linkedObject ∧ entry.2.1.dmLoops ≠ [] := by
  induction stores with
  | nil tables => simp
  | cons first others ih =>
    rw [ih, first.loops.hasAny_iff, List.exists_mem_cons_iff, or_assoc, eq_comm]

theorem StoresEach.hasStatement_iff :
    after.statements.HasAny linkedObject ↔ before.statements.HasAny linkedObject ∨
      ∃ entry ∈ entries, entry.2.2 = linkedObject ∧ entry.2.1.dmStatements ≠ [] := by
  induction stores with
  | nil tables => simp
  | cons first others ih =>
    rw [ih, first.statements.hasAny_iff, List.exists_mem_cons_iff, or_assoc, eq_comm]

theorem StoresEach.statementFile
    (named : ∀ row ∈ before.statements.objects, row.columns.file.toInt ∈ before.files.map FileRow.id) :
    ∀ row ∈ after.statements.objects, row.columns.file.toInt ∈ after.files.map FileRow.id := by
  induction stores with
  | nil tables => exact named
  | cons first others ih =>
    refine ih fun row member => ?_
    rcases first.statements.mem_objects member with old | ⟨-, statement, -, ⟨file, present, number, -⟩, -⟩
    · exact List.map_subset _ first.files (named row old)
    · exact List.mem_map.mpr ⟨file, present, number.symm⟩

theorem StoresEach.referenced (functions : before.functions.Referenced)
    (loops : before.loops.Referenced) (statements : before.statements.Referenced) :
    after.functions.Referenced ∧ after.loops.Referenced ∧ after.statements.Referenced := by
  induction stores with
  | nil tables => exact ⟨functions, loops, statements⟩
  | cons first others ih =>
    exact ih first.functions.referenced first.loops.referenced first.statements.referenced

end

end SymbolTable

end OpenSpeedShop
