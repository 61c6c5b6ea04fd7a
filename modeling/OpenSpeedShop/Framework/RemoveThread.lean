import OpenSpeedShop.Framework.RemoveThreadCore
import OpenSpeedShop.Library.Fallible

/-! Removing a thread leaves exactly what the other threads lead to. -/

namespace OpenSpeedShop

open Sql Schema Schema.ExperimentDatabase
open List (mem_map mem_filter mem_map_of_mem)

namespace RemoveThread

section

variable {plugins : Plugins} {thread : Int} {database after : ExperimentDatabase}

variable {collector : Int}

theorem isPair_iff {row : CollectingRow} :
    isPair collector thread row = some true ↔ row.collector = some collector ∧ row.thread = some thread := by
  simp only [isPair, both_eq_true, equal_eq_true]
  constructor
  · rintro ⟨first, second⟩
    exact ⟨first.2, second.2⟩
  · rintro ⟨first, second⟩
    exact ⟨⟨by simp [first], first⟩, by simp [second], second⟩

theorem stopCollecting_ok (stopped : stopCollecting plugins thread database collector = .ok after) :
    after = { database with
      collecting := deleteWhere (isPair collector thread) database.collecting } := by
  cases instantiates : plugins.instantiates (uniqueIdOf database collector) with
  | false => simp [stopCollecting, instantiates] at stopped
  | true =>
    simp only [stopCollecting, instantiates, Bool.not_true, Bool.false_eq_true, ↓reduceIte] at stopped
    split at stopped
    next none =>
      have unpaired := List.getLast?_eq_none_iff.mp none
      have stays : deleteWhere (isPair collector thread) database.collecting = database.collecting := by
        refine deleteWhere_eq_self fun row member => ?_
        simpa using List.filter_eq_nil_iff.mp unpaired row member
      rw [stays]
      exact (Except.ok.inj stopped).symm
    next =>
      split at stopped
      · simp at stopped
      · exact (Except.ok.inj stopped).symm

theorem stopCollecting_error {error : Exception}
    (failed : stopCollecting plugins thread database collector = .error error) :
    ¬ plugins.Serve (uniqueIdOf database collector) := by
  unfold stopCollecting at failed
  rintro ⟨instantiates, stops⟩
  simp only [instantiates, stops, Bool.not_true, Bool.false_eq_true, ↓reduceIte, Bool.and_false] at failed
  split at failed <;> simp at failed

theorem stopAll_ok {collectors : List Int}
    (stopped : collectors.foldlM (stopCollecting plugins thread) database = .ok after) :
    after = { database with
      collecting := database.collecting.filter fun row =>
        ∀ collector ∈ collectors, isPair collector thread row ≠ some true } := by
  induction collectors generalizing database with
  | nil =>
    rw [List.foldlM_nil] at stopped
    obtain rfl := Except.ok.inj stopped
    simp
  | cons collector rest ih =>
    rw [List.foldlM_cons] at stopped
    obtain ⟨middle, first, others⟩ := Fallible.bind_eq_ok.mp stopped
    rw [ih others, stopCollecting_ok first]
    simp only [deleteWhere, List.filter_filter]
    congr 1
    refine List.filter_congr fun row member => ?_
    simp [Bool.and_comm]

theorem stopAll_error {collectors : List Int} {error : Exception}
    (failed : collectors.foldlM (stopCollecting plugins thread) database = .error error) :
    ∃ collector ∈ collectors, ¬ plugins.Serve (uniqueIdOf database collector) := by
  induction collectors generalizing database with
  | nil => simp [pure, Except.pure] at failed
  | cons collector rest ih =>
    rw [List.foldlM_cons] at failed
    cases first : stopCollecting plugins thread database collector with
    | error error => exact ⟨collector, by simp, stopCollecting_error first⟩
    | ok middle =>
      rw [first] at failed
      obtain ⟨other, member, unserved⟩ := ih failed
      refine ⟨other, List.mem_cons_of_mem _ member, ?_⟩
      rw [stopCollecting_ok first] at unserved
      exact unserved

theorem mem_collectorsOf {isPostponed : Bool} : collector ∈ collectorsOf database thread isPostponed ↔
      ∃ row ∈ database.collecting, row.thread = some thread ∧ row.isPostponed = isPostponed ∧
        row.collector.getD 0 = collector := by
  simp only [collectorsOf, List.mem_insertionSort, List.mem_dedup, mem_map, mem_filter,
    decide_eq_true_eq, both_eq_true, equal_eq_true, Option.some.injEq]
  constructor
  · rintro ⟨row, ⟨member, ⟨_, same⟩, postponed⟩, named⟩
    exact ⟨row, member, same, postponed, named⟩
  · rintro ⟨row, member, same, postponed, named⟩
    exact ⟨row, ⟨member, ⟨by simp [same], same⟩, postponed⟩, named⟩

end

section

variable {database : ExperimentDatabase} {remaining : Int → Prop}

theorem Reachable.has {row : Row} (reached : database.Reachable remaining row) : database.Has row := by
  cases reached with
  | thread member remains => exact member
  | step reached leads has => exact has

theorem reachable_iff {row : Row} (has : database.Has row) (other : ∀ thread, row ≠ .thread thread) :
    database.Reachable remaining row ↔ ∃ first, database.Reachable remaining first ∧ LeadsTo first row := by
  constructor
  · intro reached
    cases reached with
    | thread member remains => exact absurd rfl (other _)
    | step reached leads has => exact ⟨_, reached, leads⟩
  · exact fun ⟨first, reached, leads⟩ => .step reached leads has

theorem reachable_thread {row : ThreadRow} :
    database.Reachable remaining (.thread row) ↔ row ∈ database.threads ∧ remaining row.id := by
  constructor
  · intro reached
    cases reached with
    | thread member remains => exact ⟨member, remains⟩
    | step reached leads has => cases leads
  · exact fun ⟨member, remains⟩ => .thread member remains

theorem reachable_addressSpace {row : AddressSpaceRow} (has : database.Has (.addressSpace row)) :
    database.Reachable remaining (.addressSpace row) ↔
      ∃ id ∈ database.threadIds, remaining id ∧ row.thread = some id := by
  rw [reachable_iff has (by simp)]
  constructor
  · rintro ⟨_, reached, leads⟩
    cases leads with
    | addressSpace key =>
      obtain ⟨member, remains⟩ := reachable_thread.mp reached
      exact ⟨_, mem_map_of_mem member, remains, key⟩
  · rintro ⟨id, known, remains, key⟩
    obtain ⟨thread, member, rfl⟩ := mem_map.mp known
    exact ⟨_, .thread member remains, .addressSpace key⟩

theorem reachable_collecting {row : CollectingRow} (has : database.Has (.collecting row)) :
    database.Reachable remaining (.collecting row) ↔
      ∃ id ∈ database.threadIds, remaining id ∧ row.thread = some id := by
  rw [reachable_iff has (by simp)]
  constructor
  · rintro ⟨_, reached, leads⟩
    cases leads with
    | collecting key =>
      obtain ⟨member, remains⟩ := reachable_thread.mp reached
      exact ⟨_, mem_map_of_mem member, remains, key⟩
  · rintro ⟨id, known, remains, key⟩
    obtain ⟨thread, member, rfl⟩ := mem_map.mp known
    exact ⟨_, .thread member remains, .collecting key⟩

theorem reachable_data {row : DataRow} (has : database.Has (.data row)) :
    database.Reachable remaining (.data row) ↔
      ∃ id ∈ database.threadIds, remaining id ∧ row.thread = some id := by
  rw [reachable_iff has (by simp)]
  constructor
  · rintro ⟨_, reached, leads⟩
    cases leads with
    | data key =>
      obtain ⟨member, remains⟩ := reachable_thread.mp reached
      exact ⟨_, mem_map_of_mem member, remains, key⟩
  · rintro ⟨id, known, remains, key⟩
    obtain ⟨thread, member, rfl⟩ := mem_map.mp known
    exact ⟨_, .thread member remains, .data key⟩

theorem reachable_linkedObject {row : LinkedObjectRow} (has : database.Has (.linkedObject row)) :
    database.Reachable remaining (.linkedObject row) ↔
      ∃ space, database.Reachable remaining (.addressSpace space) ∧ space.linkedObject = some row.id := by
  rw [reachable_iff has (by simp)]
  constructor
  · rintro ⟨_, reached, leads⟩
    cases leads with
    | linkedObject key => exact ⟨_, reached, key⟩
  · rintro ⟨space, reached, key⟩
    exact ⟨_, reached, .linkedObject key⟩

theorem reachable_function {row : FunctionRow} (has : database.Has (.function row)) :
    database.Reachable remaining (.function row) ↔
      ∃ object, database.Reachable remaining (.linkedObject object) ∧ row.linkedObject = some object.id := by
  rw [reachable_iff has (by simp)]
  constructor
  · rintro ⟨_, reached, leads⟩
    cases leads with
    | function key => exact ⟨_, reached, key⟩
  · rintro ⟨object, reached, key⟩
    exact ⟨_, reached, .function key⟩

variable {row : SymbolRangeRow}

theorem reachable_functionRange (has : database.Has (.functionRange row)) :
    database.Reachable remaining (.functionRange row) ↔
      ∃ function, database.Reachable remaining (.function function) ∧ row.symbol = some function.id := by
  rw [reachable_iff has (by simp)]
  constructor
  · rintro ⟨_, reached, leads⟩
    cases leads with
    | functionRange key => exact ⟨_, reached, key⟩
  · rintro ⟨function, reached, key⟩
    exact ⟨_, reached, .functionRange key⟩

theorem reachable_loop {row : LoopRow} (has : database.Has (.loop row)) :
    database.Reachable remaining (.loop row) ↔
      ∃ object, database.Reachable remaining (.linkedObject object) ∧ row.linkedObject = some object.id := by
  rw [reachable_iff has (by simp)]
  constructor
  · rintro ⟨_, reached, leads⟩
    cases leads with
    | loop key => exact ⟨_, reached, key⟩
  · rintro ⟨object, reached, key⟩
    exact ⟨_, reached, .loop key⟩

theorem reachable_loopRange (has : database.Has (.loopRange row)) :
    database.Reachable remaining (.loopRange row) ↔
      ∃ loop, database.Reachable remaining (.loop loop) ∧ row.symbol = some loop.id := by
  rw [reachable_iff has (by simp)]
  constructor
  · rintro ⟨_, reached, leads⟩
    cases leads with
    | loopRange key => exact ⟨_, reached, key⟩
  · rintro ⟨loop, reached, key⟩
    exact ⟨_, reached, .loopRange key⟩

theorem reachable_statement {row : StatementRow} (has : database.Has (.statement row)) :
    database.Reachable remaining (.statement row) ↔
      ∃ object, database.Reachable remaining (.linkedObject object) ∧ row.linkedObject = some object.id := by
  rw [reachable_iff has (by simp)]
  constructor
  · rintro ⟨_, reached, leads⟩
    cases leads with
    | statement key => exact ⟨_, reached, key⟩
  · rintro ⟨object, reached, key⟩
    exact ⟨_, reached, .statement key⟩

theorem reachable_statementRange (has : database.Has (.statementRange row)) :
    database.Reachable remaining (.statementRange row) ↔
      ∃ statement, database.Reachable remaining (.statement statement) ∧ row.symbol = some statement.id := by
  rw [reachable_iff has (by simp)]
  constructor
  · rintro ⟨_, reached, leads⟩
    cases leads with
    | statementRange key => exact ⟨_, reached, key⟩
  · rintro ⟨statement, reached, key⟩
    exact ⟨_, reached, .statementRange key⟩

theorem reachable_file {row : FileRow} (has : database.Has (.file row)) :
    database.Reachable remaining (.file row) ↔
      (∃ object, database.Reachable remaining (.linkedObject object) ∧ object.file = some row.id) ∨
        ∃ statement, database.Reachable remaining (.statement statement) ∧ statement.file = some row.id := by
  rw [reachable_iff has (by simp)]
  constructor
  · rintro ⟨first, reached, leads⟩
    cases leads with
    | objectFile key => exact .inl ⟨_, reached, key⟩
    | statementFile key => exact .inr ⟨_, reached, key⟩
  · rintro (⟨object, reached, key⟩ | ⟨statement, reached, key⟩)
    · exact ⟨_, reached, .objectFile key⟩
    · exact ⟨_, reached, .statementFile key⟩

end

section

variable {database : ExperimentDatabase} {thread : Int}

theorem remains_iff {row : Row} (notCollector : ∀ collector, row ≠ .collector collector)
    (notView : ∀ view, row ≠ .view view) :
    Remains database thread row ↔ database.Reachable (· ≠ thread) row := by
  constructor
  · intro remains
    cases remains with
    | reachable reached => exact reached
    | collector row => exact absurd rfl (notCollector row)
    | view row => exact absurd rfl (notView row)
  · exact .reachable

theorem of_otherThread {key : Key} (named : Names key database.threadIds) :
    equal key (some thread) = some true ↔ ¬ ∃ id ∈ database.threadIds, id ≠ thread ∧ key = some id := by
  obtain ⟨id, known, rfl⟩ := named
  simp only [equal_eq_true, Option.isSome_some, true_and, Option.some.injEq]
  constructor
  · rintro rfl ⟨other, -, different, same⟩
    exact different same.symm
  · intro none
    by_contra different
    exact none ⟨id, known, different, rfl⟩

def used (database : ExperimentDatabase) (thread : Int) : List Key :=
  (deleteWhere (fun row => equal row.thread (some thread)) database.addressSpaces).map (·.linkedObject)

section

variable (intact : database.Intact)
include intact

theorem reachable_space_iff {row : AddressSpaceRow} (has : row ∈ database.addressSpaces) :
    database.Reachable (· ≠ thread) (.addressSpace row) ↔ row.thread ≠ some thread := by
  rw [reachable_addressSpace has]
  obtain ⟨id, known, key⟩ := intact.spaceThread row has
  simp only [key, ne_eq, Option.some.injEq]
  constructor
  · rintro ⟨other, -, different, rfl⟩
    exact different
  · exact fun different => ⟨id, known, different, rfl⟩

theorem mem_used {key : Key} : key ∈ used database thread ↔
      ∃ space, database.Reachable (· ≠ thread) (.addressSpace space) ∧ space.linkedObject = key := by
  simp only [used, mem_map, mem_deleteWhere, ne_eq, equal_eq_true]
  constructor
  · rintro ⟨space, ⟨member, other⟩, named⟩
    refine ⟨space, (reachable_space_iff intact member).mpr fun same => other ?_, named⟩
    exact ⟨by simp [same], same⟩
  · rintro ⟨space, reached, named⟩
    have member : space ∈ database.addressSpaces := Reachable.has reached
    exact ⟨space, ⟨member, fun same =>
      (reachable_space_iff intact member).mp reached same.2⟩, named⟩

theorem none_not_used : none ∉ used database thread := by
  rw [mem_used intact]
  rintro ⟨space, reached, unnamed⟩
  have member : space ∈ database.addressSpaces := Reachable.has reached
  obtain ⟨id, known, key⟩ := intact.spaceObject space member
  simp [key] at unnamed

theorem reachable_object_iff {row : LinkedObjectRow} (has : row ∈ database.linkedObjects) :
    database.Reachable (· ≠ thread) (.linkedObject row) ↔ some row.id ∈ used database thread := by
  rw [reachable_linkedObject has, mem_used intact]

theorem object_used_iff {key : Key} (named : Names key database.linkedObjectIds) :
    key ∈ used database thread ↔
      ∃ object, database.Reachable (· ≠ thread) (.linkedObject object) ∧ key = some object.id := by
  obtain ⟨id, known, rfl⟩ := named
  obtain ⟨object, member, rfl⟩ := mem_map.mp known
  constructor
  · exact fun mem => ⟨object, (reachable_object_iff intact member).mpr mem, rfl⟩
  · rintro ⟨other, reached, same⟩
    rw [same]
    exact (reachable_object_iff intact (Reachable.has reached)).mp reached

end

section

open Classical

variable (thread)

theorem linkedObjects_kept (intact : database.Intact) :
    deleteWhere (fun row => notIn (some row.id) (used database thread)) database.linkedObjects =
      database.linkedObjects.filter fun row => Remains database thread (.linkedObject row) := by
  refine deleteWhere_notIn (none_not_used intact) fun row member => ⟨row.id, rfl, ?_⟩
  rw [remains_iff (by simp) (by simp), reachable_object_iff intact member]

theorem functions_kept (intact : database.Intact) :
    deleteWhere (fun row => notIn row.linkedObject (used database thread)) database.functions =
      database.functions.filter fun row => Remains database thread (.function row) := by
  refine deleteWhere_notIn (none_not_used intact) fun row member => ?_
  obtain ⟨id, known, key⟩ := intact.functionObject row member
  refine ⟨id, key, ?_⟩
  rw [remains_iff (by simp) (by simp), reachable_function member, key, object_used_iff intact ⟨id, known, rfl⟩]

theorem loops_kept (intact : database.Intact) :
    deleteWhere (fun row => notIn row.linkedObject (used database thread)) database.loops =
      database.loops.filter fun row => Remains database thread (.loop row) := by
  refine deleteWhere_notIn (none_not_used intact) fun row member => ?_
  obtain ⟨id, known, key⟩ := intact.loopObject row member
  refine ⟨id, key, ?_⟩
  rw [remains_iff (by simp) (by simp), reachable_loop member, key, object_used_iff intact ⟨id, known, rfl⟩]

theorem statements_kept (intact : database.Intact) :
    deleteWhere (fun row => notIn row.linkedObject (used database thread)) database.statements =
      database.statements.filter fun row => Remains database thread (.statement row) := by
  refine deleteWhere_notIn (none_not_used intact) fun row member => ?_
  obtain ⟨id, known, key⟩ := intact.statementObject row member
  refine ⟨id, key, ?_⟩
  rw [remains_iff (by simp) (by simp), reachable_statement member, key,
    object_used_iff intact ⟨id, known, rfl⟩]

theorem ranges_kept {Symbol : Type} {symbols : List Symbol} {id : Symbol → Int}
    {ranges : List SymbolRangeRow} {symbolRow : Symbol → Row} {rangeRow : SymbolRangeRow → Row}
    (named : ∀ row ∈ ranges, Names row.symbol (symbols.map id))
    (reaches : ∀ row ∈ ranges, Remains database thread (rangeRow row) ↔
      ∃ symbol ∈ symbols, Remains database thread (symbolRow symbol) ∧ row.symbol = some (id symbol)) :
    deleteWhere (fun row => notIn row.symbol
        ((symbols.filter fun symbol => Remains database thread (symbolRow symbol)).map
          fun symbol => some (id symbol))) ranges =
      ranges.filter fun row => Remains database thread (rangeRow row) := by
  refine deleteWhere_notIn (by simp) fun row member => ?_
  obtain ⟨value, -, key⟩ := named row member
  refine ⟨value, key, ?_⟩
  rw [reaches row member, key]
  simp only [mem_map, mem_filter, decide_eq_true_eq, Option.some.injEq]
  constructor
  · rintro ⟨symbol, ⟨within, remains⟩, rfl⟩
    exact ⟨symbol, within, remains, rfl⟩
  · rintro ⟨symbol, within, remains, rfl⟩
    exact ⟨symbol, ⟨within, remains⟩, rfl⟩

theorem functionRanges_kept (intact : database.Intact) : deleteWhere (fun row => notIn row.symbol
        ((database.functions.filter fun function => Remains database thread (.function function)).map
          fun function => some function.id)) database.functionRanges =
      database.functionRanges.filter fun row => Remains database thread (.functionRange row) := by
  refine ranges_kept thread intact.functionRange fun row member => ?_
  rw [remains_iff (by simp) (by simp), reachable_functionRange member]
  constructor
  · exact fun ⟨function, reached, key⟩ => ⟨function, Reachable.has reached, .reachable reached, key⟩
  · exact fun ⟨function, _, remains, key⟩ =>
      ⟨function, (remains_iff (by simp) (by simp)).mp remains, key⟩

theorem loopRanges_kept (intact : database.Intact) : deleteWhere (fun row => notIn row.symbol
        ((database.loops.filter fun loop => Remains database thread (.loop loop)).map
          fun loop => some loop.id)) database.loopRanges =
      database.loopRanges.filter fun row => Remains database thread (.loopRange row) := by
  refine ranges_kept thread intact.loopRange fun row member => ?_
  rw [remains_iff (by simp) (by simp), reachable_loopRange member]
  constructor
  · exact fun ⟨loop, reached, key⟩ => ⟨loop, Reachable.has reached, .reachable reached, key⟩
  · exact fun ⟨loop, _, remains, key⟩ =>
      ⟨loop, (remains_iff (by simp) (by simp)).mp remains, key⟩

theorem statementRanges_kept (intact : database.Intact) : deleteWhere (fun row => notIn row.symbol
        ((database.statements.filter fun statement => Remains database thread (.statement statement)).map
          fun statement => some statement.id)) database.statementRanges =
      database.statementRanges.filter fun row => Remains database thread (.statementRange row) := by
  refine ranges_kept thread intact.statementRange fun row member => ?_
  rw [remains_iff (by simp) (by simp), reachable_statementRange member]
  constructor
  · exact fun ⟨statement, reached, key⟩ => ⟨statement, Reachable.has reached, .reachable reached, key⟩
  · exact fun ⟨statement, _, remains, key⟩ =>
      ⟨statement, (remains_iff (by simp) (by simp)).mp remains, key⟩

theorem files_kept (intact : database.Intact) :
    deleteWhere (fun row => both (notIn (some row.id) ((database.linkedObjects.filter fun object =>
          Remains database thread (.linkedObject object)).map (·.file)))
        (notIn (some row.id) ((database.statements.filter fun statement =>
          Remains database thread (.statement statement)).map (·.file)))) database.files =
      database.files.filter fun row => Remains database thread (.file row) := by
  have objectKeys : none ∉ (database.linkedObjects.filter fun object =>
      Remains database thread (.linkedObject object)).map (·.file) := by
    intro unnamed
    obtain ⟨object, member, missing⟩ := mem_map.mp unnamed
    obtain ⟨id, known, key⟩ := intact.objectFile object (mem_filter.mp member).1
    simp [key] at missing
  have statementKeys : none ∉ (database.statements.filter fun statement =>
      Remains database thread (.statement statement)).map (·.file) := by
    intro unnamed
    obtain ⟨statement, member, missing⟩ := mem_map.mp unnamed
    obtain ⟨id, known, key⟩ := intact.statementFile statement (mem_filter.mp member).1
    simp [key] at missing
  refine deleteWhere_eq_filter fun row member => ?_
  rw [both_eq_true, notIn_eq_true, notIn_eq_true, remains_iff (by simp) (by simp),
    reachable_file member, not_or]
  refine and_congr ?_ ?_
  · rw [and_iff_left objectKeys, not_iff_not, mem_map]
    constructor
    · rintro ⟨object, within, named⟩
      have kept := (mem_filter.mp within).2
      exact ⟨object, (remains_iff (by simp) (by simp)).mp (of_decide_eq_true kept), named⟩
    · rintro ⟨object, reached, named⟩
      have within : object ∈ database.linkedObjects := Reachable.has reached
      exact ⟨object, mem_filter.mpr ⟨within, decide_eq_true (.reachable reached)⟩, named⟩
  · rw [and_iff_left statementKeys, not_iff_not, mem_map]
    constructor
    · rintro ⟨statement, within, named⟩
      have kept := (mem_filter.mp within).2
      exact ⟨statement, (remains_iff (by simp) (by simp)).mp (of_decide_eq_true kept), named⟩
    · rintro ⟨statement, reached, named⟩
      have within : statement ∈ database.statements := Reachable.has reached
      exact ⟨statement, mem_filter.mpr ⟨within, decide_eq_true (.reachable reached)⟩, named⟩

theorem threads_kept : deleteWhere (fun row => equal (some row.id) (some thread)) database.threads =
      database.threads.filter fun row => Remains database thread (.thread row) := by
  refine deleteWhere_eq_filter fun row member => ?_
  rw [remains_iff (by simp) (by simp), reachable_thread]
  simp [member]

theorem addressSpaces_kept (intact : database.Intact) :
    deleteWhere (fun row => equal row.thread (some thread)) database.addressSpaces =
      database.addressSpaces.filter fun row => Remains database thread (.addressSpace row) := by
  refine deleteWhere_eq_filter fun row member => ?_
  rw [remains_iff (by simp) (by simp), reachable_addressSpace member]
  exact of_otherThread (intact.spaceThread row member)

theorem data_kept (intact : database.Intact) :
    deleteWhere (fun row => equal row.thread (some thread)) database.data =
      database.data.filter fun row => Remains database thread (.data row) := by
  refine deleteWhere_eq_filter fun row member => ?_
  rw [remains_iff (by simp) (by simp), reachable_data member]
  exact of_otherThread (intact.dataThread row member)

theorem collecting_kept (intact : database.Intact) :
    (database.collecting.filter fun row => row.thread ≠ some thread) =
      database.collecting.filter fun row => Remains database thread (.collecting row) := by
  refine List.filter_congr fun row member => ?_
  rw [decide_eq_decide, remains_iff (by simp) (by simp), reachable_collecting member]
  obtain ⟨id, known, key⟩ := intact.collectingThread row member
  simp only [key, ne_eq, Option.some.injEq]
  constructor
  · exact fun different => ⟨id, known, different, rfl⟩
  · rintro ⟨other, -, different, rfl⟩
    exact different

theorem deleteThread_eq_restrict (intact : database.Intact) : deleteThread thread { database with
      collecting := database.collecting.filter fun row => row.thread ≠ some thread } =
        database.restrict (Remains database thread) := by
  have collectors : (database.collectors.filter fun row =>
      Remains database thread (.collector row)) = database.collectors :=
    List.filter_eq_self.mpr fun row _ => decide_eq_true (.collector row)
  have views : (database.views.filter fun row => Remains database thread (.view row)) =
      database.views := List.filter_eq_self.mpr fun row _ => decide_eq_true (.view row)
  have objects := linkedObjects_kept thread intact
  have functions := functions_kept thread intact
  have loops := loops_kept thread intact
  have statements := statements_kept thread intact
  rw [used] at objects functions loops statements
  simp only [deleteThread, objects, functions, loops, statements, functionRanges_kept thread intact,
    loopRanges_kept thread intact, statementRanges_kept thread intact, files_kept thread intact]
  simp only [restrict, collectors, views, threads_kept, addressSpaces_kept thread intact,
    data_kept thread intact, collecting_kept thread intact]

end

end

section

open Classical

variable {database : ExperimentDatabase} {thread : Int}

theorem has_restrict {keep : Row → Prop} (row : Row) :
    (database.restrict keep).Has row ↔ database.Has row ∧ keep row := by
  cases row <;> simp [Has, restrict]

theorem Reachable.kept {row : Row} (reached : database.Reachable (· ≠ thread) row) :
    (database.restrict (Remains database thread)).Reachable (fun _ => True) row := by
  induction reached with
  | thread member remains =>
    refine .thread ?_ trivial
    exact mem_filter.mpr ⟨member, decide_eq_true (.reachable (.thread member remains))⟩
  | step reached leads has ih =>
    exact .step ih leads ((has_restrict _).mpr ⟨has, .reachable (.step reached leads has)⟩)

theorem names_kept {Target : Type} {targets : List Target} {id : Target → Int}
    {keep : Target → Prop} {key : Key} {target : Target} (member : target ∈ targets)
    (kept : keep target) (named : key = some (id target)) :
    Names key ((targets.filter fun target => keep target).map id) :=
  ⟨id target, mem_map_of_mem (mem_filter.mpr ⟨member, decide_eq_true kept⟩), named⟩

theorem intact_kept (intact : database.Intact) : (database.restrict (Remains database thread)).Intact := by
  have reach (row : Row) (kept : (database.restrict (Remains database thread)).Has row)
      (notCollector : ∀ collector, row ≠ .collector collector)
      (notView : ∀ view, row ≠ .view view) :
      database.Has row ∧ database.Reachable (· ≠ thread) row :=
    ⟨((has_restrict row).mp kept).1, (remains_iff notCollector notView).mp ((has_restrict row).mp kept).2⟩
  constructor
  · intro row kept
    obtain ⟨has, reached⟩ := reach (.addressSpace row) kept (by simp) (by simp)
    obtain ⟨id, known, different, key⟩ := (reachable_addressSpace has).mp reached
    obtain ⟨owner, member, rfl⟩ := mem_map.mp known
    exact names_kept member (.reachable (.thread member different)) key
  · intro row kept
    obtain ⟨has, reached⟩ := reach (.addressSpace row) kept (by simp) (by simp)
    obtain ⟨id, known, key⟩ := intact.spaceObject row has
    obtain ⟨object, member, rfl⟩ := mem_map.mp known
    exact names_kept member (.reachable (.step reached (.linkedObject key) member)) key
  · intro row kept
    obtain ⟨has, reached⟩ := reach (.linkedObject row) kept (by simp) (by simp)
    obtain ⟨id, known, key⟩ := intact.objectFile row has
    obtain ⟨file, member, rfl⟩ := mem_map.mp known
    exact names_kept member (.reachable (.step reached (.objectFile key) member)) key
  · intro row kept
    obtain ⟨has, reached⟩ := reach (.function row) kept (by simp) (by simp)
    obtain ⟨object, owner, key⟩ := (reachable_function has).mp reached
    exact names_kept (Reachable.has owner) (.reachable owner) key
  · intro row kept
    obtain ⟨has, reached⟩ := reach (.functionRange row) kept (by simp) (by simp)
    obtain ⟨function, owner, key⟩ := (reachable_functionRange has).mp reached
    exact names_kept (Reachable.has owner) (.reachable owner) key
  · intro row kept
    obtain ⟨has, reached⟩ := reach (.loop row) kept (by simp) (by simp)
    obtain ⟨object, owner, key⟩ := (reachable_loop has).mp reached
    exact names_kept (Reachable.has owner) (.reachable owner) key
  · intro row kept
    obtain ⟨has, reached⟩ := reach (.loopRange row) kept (by simp) (by simp)
    obtain ⟨loop, owner, key⟩ := (reachable_loopRange has).mp reached
    exact names_kept (Reachable.has owner) (.reachable owner) key
  · intro row kept
    obtain ⟨has, reached⟩ := reach (.statement row) kept (by simp) (by simp)
    obtain ⟨object, owner, key⟩ := (reachable_statement has).mp reached
    exact names_kept (Reachable.has owner) (.reachable owner) key
  · intro row kept
    obtain ⟨has, reached⟩ := reach (.statement row) kept (by simp) (by simp)
    obtain ⟨id, known, key⟩ := intact.statementFile row has
    obtain ⟨file, member, rfl⟩ := mem_map.mp known
    exact names_kept member (.reachable (.step reached (.statementFile key) member)) key
  · intro row kept
    obtain ⟨has, reached⟩ := reach (.statementRange row) kept (by simp) (by simp)
    obtain ⟨statement, owner, key⟩ := (reachable_statementRange has).mp reached
    exact names_kept (Reachable.has owner) (.reachable owner) key
  · intro row kept
    obtain ⟨id, known, key⟩ := intact.collectingCollector row ((has_restrict (.collecting row)).mp kept).1
    obtain ⟨collector, member, rfl⟩ := mem_map.mp known
    exact names_kept member (.collector collector) key
  · intro row kept
    obtain ⟨has, reached⟩ := reach (.collecting row) kept (by simp) (by simp)
    obtain ⟨id, known, different, key⟩ := (reachable_collecting has).mp reached
    obtain ⟨owner, member, rfl⟩ := mem_map.mp known
    exact names_kept member (.reachable (.thread member different)) key
  · intro row kept
    obtain ⟨id, known, key⟩ := intact.dataCollector row ((has_restrict (.data row)).mp kept).1
    obtain ⟨collector, member, rfl⟩ := mem_map.mp known
    exact names_kept member (.collector collector) key
  · intro row kept
    obtain ⟨has, reached⟩ := reach (.data row) kept (by simp) (by simp)
    obtain ⟨id, known, different, key⟩ := (reachable_data has).mp reached
    obtain ⟨owner, member, rfl⟩ := mem_map.mp known
    exact names_kept member (.reachable (.thread member different)) key

theorem noneOf_kept : NoneOf (database.restrict (Remains database thread)) thread where
  threads row kept := by
    have remains := ((has_restrict (.thread row)).mp kept).2
    exact (reachable_thread.mp ((remains_iff (by simp) (by simp)).mp remains)).2
  addressSpaces row kept := by
    obtain ⟨has, remains⟩ := (has_restrict (.addressSpace row)).mp kept
    have reached := (remains_iff (by simp) (by simp)).mp remains
    obtain ⟨id, -, different, key⟩ := (reachable_addressSpace has).mp reached
    simpa [key] using different
  collecting row kept := by
    obtain ⟨has, remains⟩ := (has_restrict (.collecting row)).mp kept
    have reached := (remains_iff (by simp) (by simp)).mp remains
    obtain ⟨id, -, different, key⟩ := (reachable_collecting has).mp reached
    simpa [key] using different
  data row kept := by
    obtain ⟨has, remains⟩ := (has_restrict (.data row)).mp kept
    have reached := (remains_iff (by simp) (by simp)).mp remains
    obtain ⟨id, -, different, key⟩ := (reachable_data has).mp reached
    simpa [key] using different

theorem removed_restrict (intact : database.Intact) :
    Removed database (database.restrict (Remains database thread)) thread where
  intact := intact_kept intact
  noneOf := noneOf_kept
  needed row kept symbol := by
    have remains := ((has_restrict row).mp kept).2
    cases remains with
    | reachable reached => exact Reachable.kept reached
    | collector row => exact symbol.elim
    | view row => exact symbol.elim
  unchanged := rfl

end

section

variable {plugins : Plugins} {database : ExperimentDatabase} {thread : Int}

theorem stopped_collecting (intact : database.Intact) {middle after : ExperimentDatabase}
    (first : (getCollectors database thread).foldlM (stopCollecting plugins thread) database = .ok middle)
    (second : (getPostponedCollectors middle thread).foldlM (stopCollecting plugins thread)
      middle = .ok after) : after = { database with
      collecting := database.collecting.filter fun row => row.thread ≠ some thread } := by
  have middleEq := stopAll_ok first
  have afterEq := stopAll_ok second
  rw [afterEq, middleEq]
  simp only [List.filter_filter]
  congr 1
  refine List.filter_congr fun row member => ?_
  rw [← Bool.decide_and, decide_eq_decide]
  obtain ⟨collector, -, named⟩ := intact.collectingCollector row member
  constructor
  · rintro ⟨unpostponed, uncollected⟩ ofThread
    have pair : isPair collector thread row = some true := isPair_iff.mpr ⟨named, ofThread⟩
    cases postponed : row.isPostponed with
    | false =>
      refine uncollected collector (mem_collectorsOf.mpr ⟨row, member, ofThread, postponed, ?_⟩) pair
      rw [named, Option.getD_some]
    | true =>
      refine unpostponed collector (mem_collectorsOf.mpr ⟨row,
        mem_filter.mpr ⟨member, decide_eq_true uncollected⟩, ofThread, postponed, ?_⟩) pair
      rw [named, Option.getD_some]
  · intro other
    exact ⟨fun _ _ pair => other (isPair_iff.mp pair).2, fun _ _ pair => other (isPair_iff.mp pair).2⟩

end

section

open Classical

variable {plugins : Plugins} {database after : ExperimentDatabase} {thread : Int} {threads : List Int}
  {remaining others : Int → Prop} {row : Row}

/-- What is left once only some threads remain. -/
def Keeps (database : ExperimentDatabase) (remaining : Int → Prop) (row : Row) : Prop :=
  database.Reachable remaining row ∨ (∃ collector, row = .collector collector) ∨ ∃ view, row = .view view

theorem Reachable.left (reached : database.Reachable (fun id => remaining id ∧ others id) row) :
    database.Reachable remaining row := by
  induction reached with
  | thread member remains => exact .thread member remains.1
  | step reached leads has ih => exact .step ih leads has

theorem reachable_restrict : (database.restrict (Keeps database remaining)).Reachable others row ↔
    database.Reachable (fun id => remaining id ∧ others id) row := by
  constructor
  · intro reached
    induction reached with
    | @thread row member remains =>
      obtain ⟨has, kept⟩ := (has_restrict (.thread row)).mp member
      have reached : database.Reachable remaining (.thread row) := by simpa [Keeps] using kept
      exact .thread has ⟨(reachable_thread.mp reached).2, remains⟩
    | step reached leads has ih => exact .step ih leads ((has_restrict _).mp has).1
  · intro reached
    induction reached with
    | @thread row member remains =>
      exact .thread ((has_restrict (.thread row)).mpr ⟨member, .inl (.thread member remains.1)⟩) remains.2
    | step reached leads has ih =>
      exact .step ih leads ((has_restrict _).mpr ⟨has, .inl (Reachable.left (.step reached leads has))⟩)

theorem restrict_keeps : (database.restrict (Keeps database remaining)).restrict
        (Keeps (database.restrict (Keeps database remaining)) others) =
      database.restrict (Keeps database fun id => remaining id ∧ others id) := by
  have both (row : Row) : Keeps database (fun id => remaining id ∧ others id) row ↔
      Keeps (database.restrict (Keeps database remaining)) others row ∧ Keeps database remaining row := by
    rw [Keeps, Keeps, Keeps, reachable_restrict]
    exact ⟨fun kept => ⟨kept, kept.imp_left Reachable.left⟩, And.left⟩
  generalize Keeps (database.restrict (Keeps database remaining)) others = keep at both ⊢
  simp only [restrict, List.filter_filter, both, Bool.decide_and]

theorem removeThread_keeps (intact : database.Intact) (ran : removeThread plugins thread database = .ok after) :
    after.Intact ∧ after = database.restrict (Keeps database (· ≠ thread)) := by
  obtain ⟨middle, first, rest⟩ := Fallible.bind_eq_ok.mp ran
  obtain ⟨stopped, second, last⟩ := Fallible.bind_eq_ok.mp rest
  obtain rfl := Except.ok.inj last
  rw [stopped_collecting intact first second, deleteThread_eq_restrict thread intact]
  refine ⟨intact_kept intact, ?_⟩
  have same (row : Row) : Remains database thread row ↔ Keeps database (· ≠ thread) row := by
    constructor
    · rintro (reached | row | row)
      exacts [.inl reached, .inr (.inl ⟨row, rfl⟩), .inr (.inr ⟨row, rfl⟩)]
    · rintro (reached | ⟨row, rfl⟩ | ⟨row, rfl⟩)
      exacts [.reachable reached, .collector row, .view row]
  simp only [restrict, same]

/-- Removing threads one after another leaves what the threads not named lead to, in any order. -/
theorem removeThreads_kept (intact : database.Intact)
    (ran : (thread :: threads).foldlM (fun database thread => removeThread plugins thread database) database =
      .ok after) : after.Intact ∧ after = database.restrict (Keeps database (· ∉ thread :: threads)) := by
  induction threads generalizing thread database with
  | nil =>
    rw [List.foldlM_cons] at ran
    obtain ⟨last, first, returned⟩ := Fallible.bind_eq_ok.mp ran
    obtain rfl := Except.ok.inj returned
    simpa only [List.mem_singleton] using removeThread_keeps intact first
  | cons next rest ih =>
    rw [List.foldlM_cons] at ran
    obtain ⟨middle, first, others⟩ := Fallible.bind_eq_ok.mp ran
    obtain ⟨kept, rfl⟩ := removeThread_keeps intact first
    obtain ⟨whole, rfl⟩ := ih kept others
    refine ⟨whole, restrict_keeps.trans ?_⟩
    simp only [List.mem_cons, not_or]

end

def sharing : ExperimentDatabase where
  threads := [⟨1, none, none, none, none, none, none, none⟩, ⟨2, none, none, none, none, none, none, none⟩]
  addressSpaces := [⟨1, some 1, none, none, none, none, some 1⟩,
    ⟨2, some 2, none, none, none, none, some 1⟩, ⟨3, some 1, none, none, none, none, some 2⟩]
  linkedObjects := [⟨1, none, none, some 1, none⟩, ⟨2, none, none, some 2, none⟩]
  functions := [⟨1, some 2, some "main"⟩]
  functionRanges := [⟨some 1, none, none, none⟩]
  loops := []
  loopRanges := []
  statements := []
  statementRanges := []
  files := [⟨1, none, none, none⟩, ⟨2, none, none, none⟩]
  collectors := [⟨1, some "pcsamp", none⟩]
  collecting := [⟨some 1, some 1, false⟩, ⟨some 1, some 2, true⟩]
  data := []
  views := []

theorem sharing_intact : sharing.Intact := by
  constructor <;>
    simp [sharing, Names, threadIds, linkedObjectIds, functionIds, fileIds, collectorIds]

open Classical in
theorem removeThreads_kept_sharing : ∃ after, [2, 1].foldlM (fun database thread =>
    removeThread ⟨fun _ => true, fun _ => true⟩ thread database) sharing = .ok after ∧
      after.Intact ∧ after = sharing.restrict (Keeps sharing (· ∉ [2, 1])) :=
  ⟨_, rfl, @removeThreads_kept ⟨fun _ => true, fun _ => true⟩ sharing _ 2 [1] sharing_intact rfl⟩

end RemoveThread

end OpenSpeedShop
