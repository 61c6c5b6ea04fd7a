import OpenSpeedShop.Framework.ThreadLookupCore
import OpenSpeedShop.Library.SelectText

/-!
Finding the loops of a source file. The last of the nested queries is not well
formed, so no thread with a loop gets an answer.
-/

namespace OpenSpeedShop

open Fallible

def prepareStatement (statement : List String) : Result Unit :=
  check (SelectText.isWellFormed statement) .assertion

namespace Thread

def linkedObjectsStatement : List String :=
  ["SELECT linked_object FROM AddressSpaces WHERE thread = ?;"]

def loopsStatement : List String :=
  ["SELECT id, addr_head FROM Loops WHERE linked_object = ?;"]

def containingStatement : List String :=
  ["SELECT StatementRanges.addr_begin, ",
    "       StatementRanges.addr_end, ",
    "       StatementRanges.valid_bitmap ",
    "FROM StatementRanges ",
    "  JOIN Statements ",
    "  JOIN Files ",
    "ON StatementRanges.statement = Statements.id ",
    "  AND Statements.file = Files.id",
    "WHERE Statements.linked_object = ? ",
    "  AND Files.path = ? ",
    "  AND ? >= StatementRanges.addr_begin ",
    "  AND ? < StatementRanges.addr_end;"]

def containingRanges (tables : SymbolTables) (linkedObject : Int32) (file : String)
    (addrHead : Address) : List RangeRow :=
  tables.statements.ranges.flatMap fun range =>
    (tables.statements.objects.filter fun statement =>
      range.object.toInt = statement.id && statement.linkedObject = linkedObject &&
        between addrHead range.addrBegin range.addrEnd).flatMap fun statement =>
          (tables.files.filter fun row =>
            statement.columns.file.toInt = row.id && row.path = file).map fun _ => range

def loopInFile (tables : SymbolTables) (linkedObject : Int32) (file : String)
    (loop : ObjectRow Int64) : Result (List Int) := do
  let addrHead := OffsetBinary.decode loop.columns
  prepareStatement containingStatement
  collect (fun row => do
    let bitmap ← row.bitmap
    let value ← bitmap.getValue addrHead
    return if value then [loop.id] else [])
    (containingRanges tables linkedObject file addrHead)

def loopsOfObject (tables : SymbolTables) (file : String) (linkedObject : Int32) : Result (List Int) := do
  prepareStatement loopsStatement
  collect (loopInFile tables linkedObject file)
    (tables.loops.objects.filter fun row => row.linkedObject = linkedObject)

def getLoopsBySourceFile (databases : DatabasePtr → SymbolTables) (thread : Entry)
    (file : String) : Result (Finset Entry) := do
  let tables := databases thread.dmDatabase
  prepareStatement linkedObjectsStatement
  let loops ← collect (fun space => loopsOfObject tables file space.linkedObject)
    (tables.addressSpaces.filter fun row => row.thread.toInt = thread.dmEntry)
  return (loops.map fun id => (⟨thread.dmDatabase, id⟩ : Entry)).toFinset

def Uses (tables : SymbolTables) (thread : Entry) (loop : ObjectRow Int64) : Prop :=
  loop ∈ tables.loops.objects ∧ ∃ space ∈ tables.addressSpaces,
    space.thread.toInt = thread.dmEntry ∧ loop.linkedObject = space.linkedObject

def InFile (tables : SymbolTables) (file : String) (loop : ObjectRow Int64) : Prop :=
  ∃ statement ∈ tables.statements.objects, statement.linkedObject = loop.linkedObject ∧
    (∃ row ∈ tables.files, row.id = statement.columns.file.toInt ∧ row.path = file) ∧
    ∃ range ∈ tables.statements.ranges, range.object.toInt = statement.id ∧
      ∃ bitmap, range.bitmap = .ok bitmap ∧ bitmap.getValue (OffsetBinary.decode loop.columns) = .ok true

def Exact (databases : DatabasePtr → SymbolTables) (thread : Entry) (file : String) : Prop :=
  ∃ loops, getLoopsBySourceFile databases thread file = .ok loops ∧
    ∀ entry, entry ∈ loops ↔ entry.dmDatabase = thread.dmDatabase ∧
      ∃ loop, Uses (databases thread.dmDatabase) thread loop ∧ loop.id = entry.dmEntry ∧
        InFile (databases thread.dmDatabase) file loop

theorem linkedObjectsStatement_isWellFormed :
    SelectText.isWellFormed linkedObjectsStatement = true := by decide +kernel

theorem loopsStatement_isWellFormed : SelectText.isWellFormed loopsStatement = true := by
  decide +kernel

theorem containingStatement_isNotWellFormed :
    SelectText.isWellFormed containingStatement = false := by decide +kernel

example : SelectText.isWellFormed
    (containingStatement.set 7 "  AND Statements.file = Files.id ") = true := by decide +kernel

theorem loopInFile_fails (tables : SymbolTables) (linkedObject : Int32) (file : String)
    (loop : ObjectRow Int64) : loopInFile tables linkedObject file loop = .error .assertion := by
  rw [loopInFile, prepareStatement, containingStatement_isNotWellFormed]
  rfl

theorem loopsOfObject_eq_ok {tables : SymbolTables} {file : String} {linkedObject : Int32}
    {found : List Int} : loopsOfObject tables file linkedObject = .ok found ↔
      found = [] ∧ ∀ loop ∈ tables.loops.objects, loop.linkedObject ≠ linkedObject := by
  rw [loopsOfObject, prepareStatement, loopsStatement_isWellFormed, check_true, ok_bind, collect_eq_ok]
  constructor
  · rintro ⟨each, gathered⟩
    have unused : ∀ loop ∈ tables.loops.objects, loop.linkedObject ≠ linkedObject := by
      intro loop member same
      obtain ⟨more, returned⟩ := each loop (List.mem_filter.mpr ⟨member, decide_eq_true same⟩)
      rw [loopInFile_fails] at returned
      cases returned
    have empty : (tables.loops.objects.filter fun row => row.linkedObject = linkedObject) = [] :=
      List.filter_eq_nil_iff.mpr fun loop member => by simpa using unused loop member
    rw [empty] at gathered
    exact ⟨gathered, unused⟩
  · rintro ⟨rfl, unused⟩
    have empty : (tables.loops.objects.filter fun row => row.linkedObject = linkedObject) = [] :=
      List.filter_eq_nil_iff.mpr fun loop member => by simpa using unused loop member
    rw [empty]
    exact ⟨nofun, rfl⟩

theorem getLoopsBySourceFile_eq_ok {databases : DatabasePtr → SymbolTables} {thread : Entry}
    {file : String} {loops : Finset Entry} : getLoopsBySourceFile databases thread file = .ok loops ↔
      loops = ∅ ∧ ∀ loop, ¬ Uses (databases thread.dmDatabase) thread loop := by
  rw [getLoopsBySourceFile, prepareStatement, linkedObjectsStatement_isWellFormed, check_true,
    ok_bind, bind_eq_ok]
  constructor
  · rintro ⟨ids, collected, returned⟩
    obtain ⟨each, gathered⟩ := collect_eq_ok.mp collected
    have none : ids = [] := by
      rw [gathered, List.flatMap_eq_nil_iff]
      intro space member
      obtain ⟨found, round⟩ := each space member
      rw [given_of_ok round]
      exact (loopsOfObject_eq_ok.mp round).1
    subst none
    refine ⟨(Except.ok.inj returned).symm, ?_⟩
    rintro loop ⟨member, space, there, isThread, same⟩
    obtain ⟨found, round⟩ := each space (List.mem_filter.mpr ⟨there, decide_eq_true isThread⟩)
    exact (loopsOfObject_eq_ok.mp round).2 loop member same
  · rintro ⟨rfl, unused⟩
    have each : ∀ space ∈ (databases thread.dmDatabase).addressSpaces.filter
        (fun row => row.thread.toInt = thread.dmEntry),
        loopsOfObject (databases thread.dmDatabase) file space.linkedObject = .ok [] := by
      intro space member
      obtain ⟨there, isThread⟩ := List.mem_filter.mp member
      exact loopsOfObject_eq_ok.mpr ⟨rfl, fun loop isLoop same =>
        unused loop ⟨isLoop, space, there, of_decide_eq_true isThread, same⟩⟩
    refine ⟨[], collect_eq_ok.mpr ⟨fun space member => ⟨[], each space member⟩, ?_⟩, rfl⟩
    symm
    rw [List.flatMap_eq_nil_iff]
    exact fun space member => given_of_ok (each space member)

/-- The loops of a source file are found exactly when the thread has no loop at all. -/
theorem getLoopsBySourceFile_exact_iff (databases : DatabasePtr → SymbolTables) (thread : Entry)
    (file : String) : Exact databases thread file ↔
      ∀ loop, ¬ Uses (databases thread.dmDatabase) thread loop := by
  constructor
  · rintro ⟨loops, returned, -⟩
    exact (getLoopsBySourceFile_eq_ok.mp returned).2
  · intro unused
    refine ⟨∅, getLoopsBySourceFile_eq_ok.mpr ⟨rfl, unused⟩, fun entry => ⟨nofun, ?_⟩⟩
    rintro ⟨-, loop, uses, -⟩
    exact absurd uses (unused loop)

def oneLoop : SymbolTables where
  addressSpaces := [⟨1, 0, 10, 0, 10, 2⟩]
  functions := ⟨[], []⟩
  loops := ⟨[⟨3, 2, 0⟩], []⟩
  files := []
  statements := ⟨[], []⟩

theorem oneLoop_notExact : ¬ ∀ (databases : DatabasePtr → SymbolTables) (thread : Entry)
    (file : String), Exact databases thread file := by
  intro exact
  obtain ⟨loops, returned, -⟩ := exact (fun _ => oneLoop) ⟨0, 1⟩ "main.c"
  have uses : Uses oneLoop ⟨0, 1⟩ ⟨3, 2, 0⟩ :=
    ⟨List.mem_singleton_self _, _, List.mem_singleton_self _, rfl, rfl⟩
  exact (getLoopsBySourceFile_eq_ok.mp returned).2 _ uses

end Thread

end OpenSpeedShop
