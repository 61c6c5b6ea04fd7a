import OpenSpeedShop.Cli.PivotItemsCore
import OpenSpeedShop.Cli.StackMerge

/-!
The balance of a butterfly view: what the callers, the function and the functions it calls
come to, when no temp is null in some of the rows only.
-/

namespace OpenSpeedShop.PivotItems

open CallStacks (CallRow)
open MetricExpressions (ViewInstruction)
open StackMerge
open GreedyGroups
open List (mem_cons_self mem_filter mem_cons_of_mem mem_map map_map filter_append append_nil
  foldlM_cons foldlM)

variable {Function LinkedObject Value : Type} [DecidableEq Function]

structure ViewRows (Function LinkedObject Value : Type) where
  rows : List (StackRow Function LinkedObject Value)
  width : Nat
  uniform : ∀ row ∈ rows, row.second.length = width

def callPlace (func : Function) (row : StackRow Function LinkedObject Value) : Option Nat :=
  row.stack.findIdx? (isCall func)

def callsFunc (func : Function) (row : StackRow Function LinkedObject Value) : Bool :=
  (callPlace func row).isSome

def callsFirst (func : Function) (row : StackRow Function LinkedObject Value) : Bool :=
  callPlace func row = some 0

def callsLast (func : Function) (row : StackRow Function LinkedObject Value) : Bool :=
  (callPlace func row).any fun place => decide (place + 1 = row.stack.length)

def pivotRow (traceBackOrder : Bool) (func : Function)
    (row : StackRow Function LinkedObject Value) : StackRow Function LinkedObject Value :=
  ⟨⟨copyCallStackEntry ((callPlace func row).getD 0) 0 row.stack, traceBackOrder⟩, row.second⟩

def callerRow (traceBackOrder : Bool) (func : Function)
    (row : StackRow Function LinkedObject Value) : StackRow Function LinkedObject Value :=
  ⟨⟨copyCallStackEntry ((callPlace func row).getD 0) (-1) row.stack, !traceBackOrder⟩, row.second⟩

def calleeRow (traceBackOrder : Bool) (func : Function)
    (row : StackRow Function LinkedObject Value) : StackRow Function LinkedObject Value :=
  ⟨⟨copyCallStackEntry ((callPlace func row).getD 0) 1 row.stack, traceBackOrder⟩, row.second⟩

def callers (traceBackOrder : Bool) (func : Function)
    (rows : List (StackRow Function LinkedObject Value)) : List (StackRow Function LinkedObject Value) :=
  ((rows.filter (callsFunc func)).filter (!callsFirst func ·)).map (callerRow traceBackOrder func)

def callees (traceBackOrder : Bool) (func : Function)
    (rows : List (StackRow Function LinkedObject Value)) : List (StackRow Function LinkedObject Value) :=
  ((rows.filter (callsFunc func)).filter (!callsLast func ·)).map (calleeRow traceBackOrder func)

section

variable {traceBackOrder : Bool} {func : Function}

variable {row : StackRow Function LinkedObject Value}

theorem callPlace_some {place : Nat} (found : callPlace func row = some place) :
    ∃ inside : place < row.stack.length, isCall func row.stack[place] = true := by
  obtain ⟨inside, calls, _⟩ := List.findIdx?_eq_some_iff_getElem.mp found
  exact ⟨inside, calls⟩

theorem pivotRow_stack (calls : callsFunc func row = true) : ∃ entry,
      (pivotRow traceBackOrder func row).stack = [entry] ∧ isCall func entry = true := by
  obtain ⟨place, found⟩ := Option.isSome_iff_exists.mp calls
  obtain ⟨inside, call⟩ := callPlace_some found
  refine ⟨row.stack[place], ?_, call⟩
  simp [pivotRow, CallRow.stack, found, copyCallStackEntry]

variable {rows : List (StackRow Function LinkedObject Value)}

variable {copy : StackRow Function LinkedObject Value}

theorem callers_stack (traceBackOrder : Bool) (inside : copy ∈ callers traceBackOrder func rows) :
    (∃ row ∈ rows.filter (callsFunc func), copy.second = row.second) ∧
      ∃ caller, copy.stack = [.string "", caller] := by
  obtain ⟨row, stands, rfl⟩ := mem_map.mp inside
  obtain ⟨kept, notFirst⟩ := mem_filter.mp stands
  obtain ⟨place, found⟩ := Option.isSome_iff_exists.mp (mem_filter.mp kept).2
  obtain ⟨below, _⟩ := callPlace_some found
  have before : place - 1 < row.stack.length := by omega
  refine ⟨⟨row, kept, rfl⟩, row.stack[place - 1], ?_⟩
  change copyCallStackEntry ((callPlace func row).getD 0) (-1) row.stack = _
  simp [copyCallStackEntry, found, before]

theorem callees_stack (traceBackOrder : Bool) (inside : copy ∈ callees traceBackOrder func rows) :
    (∃ row ∈ rows.filter (callsFunc func), copy.second = row.second) ∧
      ∃ callee, copy.stack = [.string "", callee] := by
  obtain ⟨row, stands, rfl⟩ := mem_map.mp inside
  obtain ⟨kept, notLast⟩ := mem_filter.mp stands
  obtain ⟨place, found⟩ := Option.isSome_iff_exists.mp (mem_filter.mp kept).2
  obtain ⟨below, _⟩ := callPlace_some found
  have behind : place + 1 < row.stack.length := by
    simp [callsLast, found] at notLast
    omega
  refine ⟨⟨row, kept, rfl⟩, row.stack[place + 1], ?_⟩
  change copyCallStackEntry ((callPlace func row).getD 0) 1 row.stack = _
  simp [copyCallStackEntry, found, behind]

theorem ViewRows.sizes (func : Function) (table : ViewRows Function LinkedObject Value) :
    ∀ row ∈ table.rows.filter (callsFunc func), ∀ other ∈ table.rows.filter (callsFunc func),
      row.second.length = other.second.length := by
  intro row inside other present
  rw [table.uniform row (mem_filter.mp inside).1, table.uniform other (mem_filter.mp present).1]

end

theorem split_unique {Item : Type} {property : Item → Prop} {before before' after after' : List Item}
    {item item' : Item} (all : ∀ other ∈ before, property other)
    (all' : ∀ other ∈ before', property other) (first : ¬property item) (first' : ¬property item')
    (same : before ++ item :: after = before' ++ item' :: after') :
    before = before' ∧ item = item' ∧ after = after' := by
  induction before generalizing before' with
  | nil =>
    cases before' with
    | nil => exact ⟨rfl, List.cons.inj same⟩
    | cons head before' =>
      exact absurd ((List.cons.inj same).1 ▸ all' head mem_cons_self) first
  | cons head before ih =>
    cases before' with
    | nil => exact absurd ((List.cons.inj same).1 ▸ all head mem_cons_self) first'
    | cons head' before' =>
      obtain ⟨own, others⟩ := List.cons.inj same
      obtain ⟨rest, both⟩ := ih (fun other inside => all other (mem_cons_of_mem _ inside))
        (fun other inside => all' other (mem_cons_of_mem _ inside)) others
      exact ⟨by rw [own, rest], both⟩

section

variable {traceBackOrder : Bool} {func : Function}

variable {row : StackRow Function LinkedObject Value}

theorem callers_single {place : Nat} (found : callPlace func row = some place) :
    callers traceBackOrder func [row] = if place ≠ 0 then
      [⟨⟨copyCallStackEntry place (-1) row.stack, !traceBackOrder⟩, row.second⟩] else [] := by
  by_cases first : place = 0
  · simp [callers, callsFunc, callsFirst, found, first]
  · simp [callers, callsFunc, callsFirst, callerRow, found, first]

theorem callees_single {place : Nat}
    (found : callPlace func row = some place) (inside : place < row.stack.length) :
    callees traceBackOrder func [row] = if place + 1 < row.stack.length then
      [⟨⟨copyCallStackEntry place 1 row.stack, traceBackOrder⟩, row.second⟩] else [] := by
  by_cases last : place + 1 = row.stack.length
  · simp [callees, callsFunc, callsLast, found, last]
  · have further : place + 1 < row.stack.length := by omega
    simp [callees, callsFunc, callsLast, calleeRow, found, last, further]

theorem callers_cons (row : StackRow Function LinkedObject Value)
    (rows : List (StackRow Function LinkedObject Value)) : callers traceBackOrder func (row :: rows) =
      callers traceBackOrder func [row] ++ callers traceBackOrder func rows := by
  rw [callers, callers, callers, ← List.map_append, ← filter_append, ← filter_append]
  rfl

theorem callees_cons (row : StackRow Function LinkedObject Value)
    (rows : List (StackRow Function LinkedObject Value)) : callees traceBackOrder func (row :: rows) =
      callees traceBackOrder func [row] ++ callees traceBackOrder func rows := by
  rw [callees, callees, callees, ← List.map_append, ← filter_append, ← filter_append]
  rfl

variable (traceBackOrder) in
theorem parts_of_other (other : callsFunc func row = false) :
    callers traceBackOrder func [row] = [] ∧ callees traceBackOrder func [row] = [] := by
  simp [callers, callees, other]

variable [Add Value] [Min Value] [Max Value] {iv : List (Option (ViewInstruction Value))}

variable {state : PivotState Function LinkedObject Value}

theorem pivotStep_other (other : callsFunc func row = false) :
    pivotStep iv traceBackOrder func state row = some state := by
  have none : row.stack.findIdx? (isCall func) = none := by
    simpa [callsFunc, callPlace] using other
  rw [pivotStep, none]

theorem pivotStep_call (calls : callsFunc func row = true) : pivotStep iv traceBackOrder func state row =
      (match state.pivot with
        | none => some (pivotRow traceBackOrder func row)
        | some pivot => mergeRow iv pivot row).map fun pivot =>
          ⟨some pivot, state.pred ++ callers traceBackOrder func [row],
            state.succ ++ callees traceBackOrder func [row]⟩ := by
  obtain ⟨place, found⟩ := Option.isSome_iff_exists.mp calls
  have here : row.stack.findIdx? (isCall func) = some place := found
  have inside : place < row.stack.length := (List.findIdx?_eq_some_iff_findIdx_eq.mp here).1
  have pred : (if place ≠ 0 then state.pred ++
        [⟨⟨copyCallStackEntry place (-1) row.stack, !traceBackOrder⟩, row.second⟩]
      else state.pred) = state.pred ++ callers traceBackOrder func [row] := by
    rw [callers_single found]
    split
    · rfl
    · exact (append_nil _).symm
  have succ : (if place + 1 < row.stack.length then state.succ ++
        [⟨⟨copyCallStackEntry place 1 row.stack, traceBackOrder⟩, row.second⟩]
      else state.succ) = state.succ ++ callees traceBackOrder func [row] := by
    rw [callees_single found inside]
    split
    · rfl
    · exact (append_nil _).symm
  rw [pivotStep, here]
  simp only [pred, succ]
  cases state.pivot with
  | none => simp only [pivotRow, found]; rfl
  | some pivot =>
    change Option.bind (mergeRow iv pivot row) _ = Option.map _ (mergeRow iv pivot row)
    cases mergeRow iv pivot row <;> rfl

theorem pass_from (rows : List (StackRow Function LinkedObject Value)) :
    ∀ (pivot : StackRow Function LinkedObject Value) (pred succ),
      rows.foldlM (pivotStep iv traceBackOrder func) ⟨some pivot, pred, succ⟩ =
        ((rows.filter (callsFunc func)).foldlM (mergeRow iv) pivot).map fun pivot =>
          ⟨some pivot, pred ++ callers traceBackOrder func rows,
            succ ++ callees traceBackOrder func rows⟩ := by
  induction rows with
  | nil =>
    intro pivot pred succ
    simp only [List.foldlM_nil, List.filter_nil, callers, callees, List.map_nil, append_nil]
    rfl
  | cons row rows ih =>
    intro pivot pred succ
    rw [foldlM_cons, callers_cons, callees_cons]
    cases calls : callsFunc func row with
    | false =>
      obtain ⟨noCaller, noCallee⟩ := parts_of_other traceBackOrder calls
      rw [pivotStep_other calls, noCaller, noCallee, List.filter_cons_of_neg (by simp [calls])]
      exact ih pivot pred succ
    | true =>
      rw [pivotStep_call calls, List.filter_cons_of_pos calls, foldlM_cons]
      dsimp only
      cases mergeRow iv pivot row with
      | none => rfl
      | some after =>
        rw [Option.map_some]
        change foldlM _ _ rows = Option.map _ (foldlM (mergeRow iv) after _)
        rw [ih, List.append_assoc, List.append_assoc]

theorem pass_eq (rows : List (StackRow Function LinkedObject Value)) :
    rows.foldlM (pivotStep iv traceBackOrder func) ⟨none, [], []⟩ = match rows.filter (callsFunc func) with
      | [] => some ⟨none, [], []⟩
      | first :: others => (others.foldlM (mergeRow iv) (pivotRow traceBackOrder func first)).map
          fun pivot => ⟨some pivot, callers traceBackOrder func rows, callees traceBackOrder func rows⟩ := by
  induction rows with
  | nil => rfl
  | cons row rows ih =>
    rw [foldlM_cons, callers_cons, callees_cons]
    cases calls : callsFunc func row with
    | false =>
      obtain ⟨noCaller, noCallee⟩ := parts_of_other traceBackOrder calls
      rw [pivotStep_other calls, noCaller, noCallee, List.filter_cons_of_neg (by simp [calls])]
      exact ih
    | true =>
      rw [pivotStep_call calls, List.filter_cons_of_pos calls]
      exact pass_from rows _ _ _

end

section

variable {traceBackOrder : Bool} {func : Function} [AddCommMonoid Value]

def amount (temp : Nat) (row : StackRow Function LinkedObject Value) : Value :=
  (value temp row).getD 0

def total (temp : Nat) (rows : List (StackRow Function LinkedObject Value)) : Value :=
  (rows.map (amount temp)).sum

omit [DecidableEq Function] in
theorem total_cons (temp : Nat) (row : StackRow Function LinkedObject Value)
    (rows : List (StackRow Function LinkedObject Value)) :
    total temp (row :: rows) = amount temp row + total temp rows := by
  rw [total, List.map_cons, List.sum_cons, total]

omit [DecidableEq Function] in
theorem total_filter (temp : Nat) (passes : StackRow Function LinkedObject Value → Bool)
    (rows : List (StackRow Function LinkedObject Value)) :
    total temp (rows.filter (!passes ·)) + total temp (rows.filter passes) = total temp rows := by
  induction rows with
  | nil => exact add_zero 0
  | cons row rows ih =>
    by_cases passed : passes row = true
    · rw [List.filter_cons_of_neg (by simp [passed]), List.filter_cons_of_pos passed,
        total_cons, total_cons, ← ih, add_left_comm]
    · rw [List.filter_cons_of_pos (by simp [passed]), List.filter_cons_of_neg passed,
        total_cons, total_cons, ← ih, add_assoc]

theorem filter_calls {passes : StackRow Function LinkedObject Value → Bool}
    (calls : ∀ row, passes row = true → callsFunc func row = true)
    (rows : List (StackRow Function LinkedObject Value)) :
    (rows.filter (callsFunc func)).filter passes = rows.filter passes := by
  rw [List.filter_filter]
  refine List.filter_congr fun row _ => ?_
  by_cases passed : passes row = true
  · simp [passed, calls row passed]
  · simp [passed]

variable {row : StackRow Function LinkedObject Value}

theorem callsFunc_of_first (first : callsFirst func row = true) : callsFunc func row = true := by
  rw [callsFunc, of_decide_eq_true first]
  rfl

theorem callsFunc_of_last (last : callsLast func row = true) : callsFunc func row = true := by
  rw [callsFunc]
  cases found : callPlace func row with
  | none => simp [callsLast, found] at last
  | some place => rfl

theorem total_callers (temp : Nat) (rows : List (StackRow Function LinkedObject Value)) :
    total temp (callers traceBackOrder func rows) + total temp (rows.filter (callsFirst func)) =
      total temp (rows.filter (callsFunc func)) := by
  have same : total temp (callers traceBackOrder func rows) =
      total temp ((rows.filter (callsFunc func)).filter (!callsFirst func ·)) := by
    rw [callers, total, map_map]
    rfl
  rw [same, ← total_filter temp (callsFirst func) (rows.filter (callsFunc func)),
    filter_calls fun _ => callsFunc_of_first]

theorem total_callees (temp : Nat) (rows : List (StackRow Function LinkedObject Value)) :
    total temp (callees traceBackOrder func rows) + total temp (rows.filter (callsLast func)) =
      total temp (rows.filter (callsFunc func)) := by
  have same : total temp (callees traceBackOrder func rows) =
      total temp ((rows.filter (callsFunc func)).filter (!callsLast func ·)) := by
    rw [callees, total, map_map]
    rfl
  rw [same, ← total_filter temp (callsLast func) (rows.filter (callsFunc func)),
    filter_calls fun _ => callsFunc_of_last]

variable [Min Value] [Max Value] {iv : List (Option (ViewInstruction Value))}
  {fieldRequirements : List (ViewInstruction Value)}

def IsAdded (iv : List (Option (ViewInstruction Value))) (temp : Nat) : Prop :=
  iv[temp]?.join.map ViewInstruction.opCode = some .add

theorem accumulatorAt_of_added {temp : Nat} (added : IsAdded iv temp) :
    accumulatorAt iv temp = some (· + ·) := by
  obtain ⟨vp, found, code⟩ := Option.map_eq_some_iff.mp added
  rw [accumulatorAt, found, Option.bind_some, accumulator, code]

omit [DecidableEq Function] [Min Value] [Max Value] in
theorem foldl_added (others : List (Option Value)) : ∀ first : Option Value,
    (∀ other ∈ others, other.isSome = first.isSome) →
      (others.foldl (combined (some (· + ·))) first).getD 0 = first.getD 0 + (others.map (·.getD 0)).sum := by
  induction others with
  | nil => exact fun first _ => (add_zero _).symm
  | cons other others ih =>
    intro first agree
    obtain ⟨own, later⟩ := List.forall_mem_cons.mp agree
    cases first with
    | none =>
      obtain rfl : other = none := by simpa using own
      have rest := ih none later
      rw [List.foldl_cons, List.map_cons, List.sum_cons]
      simpa [combined] using rest
    | some first =>
      obtain ⟨next, rfl⟩ := Option.isSome_iff_exists.mp own
      have rest := ih (some (first + next)) later
      rw [List.foldl_cons, List.map_cons, List.sum_cons]
      simpa [combined, add_assoc] using rest

omit [DecidableEq Function] in
theorem amount_fold {temp : Nat} (added : IsAdded iv temp)
    {first after : StackRow Function LinkedObject Value}
    {others : List (StackRow Function LinkedObject Value)}
    (agree : ∀ other ∈ others, (value temp other).isSome = (value temp first).isSome)
    (done : others.foldlM (mergeRow iv) first = some after) :
    amount temp after = total temp (first :: others) := by
  have values := (fold_merged done).2.2 temp
  rw [accumulatorAt_of_added added] at values
  rw [amount, values, foldl_added, total_cons, List.map_map]
  · rfl
  · intro other inside
    obtain ⟨row, stands, rfl⟩ := List.mem_map.mp inside
    exact agree row stands

end

section

variable [DecidableEq LinkedObject] [AddCommMonoid Value] [Min Value] [Max Value]
  {iv : List (Option (ViewInstruction Value))} {fieldRequirements : List (ViewInstruction Value)}

/-- The rows have the same number of temps, and those that are accumulated are null in all of
them or in none. -/
structure Agree (iv : List (Option (ViewInstruction Value)))
    (rows : List (StackRow Function LinkedObject Value)) : Prop where
  sizes : ∀ row ∈ rows, ∀ other ∈ rows, row.second.length = other.second.length
  nulls : ∀ temp, accumulatorAt iv temp ≠ none → ∀ row ∈ rows, ∀ other ∈ rows,
    (value temp row).isSome = (value temp other).isSome

variable {rows : List (StackRow Function LinkedObject Value)}

omit [DecidableEq Function] [DecidableEq LinkedObject] in
theorem Agree.accumulates (agree : Agree iv rows)
    {row other : StackRow Function LinkedObject Value} (inside : row ∈ rows)
    (present : other ∈ rows) : Accumulates iv row.second other.second :=
  fun temp _ less => ⟨agree.sizes row inside other present ▸ less,
    fun accumulated => agree.nulls temp accumulated row inside other present⟩

omit [DecidableEq Function] [DecidableEq LinkedObject] in
theorem Agree.of_copied (agree : Agree iv rows) {copies : List (StackRow Function LinkedObject Value)}
    (copied : ∀ copy ∈ copies, ∃ row ∈ rows, copy.second = row.second) : Agree iv copies where
  sizes copy inside other present := by
    obtain ⟨row, stands, same⟩ := copied copy inside
    obtain ⟨row', stands', same'⟩ := copied other present
    rw [same, same', agree.sizes row stands row' stands']
  nulls temp accumulated copy inside other present := by
    obtain ⟨row, stands, same⟩ := copied copy inside
    obtain ⟨row', stands', same'⟩ := copied other present
    rw [value, value, same, same']
    exact agree.nulls temp accumulated row stands row' stands'

omit [DecidableEq Function] [DecidableEq LinkedObject] [Min Value] [Max Value] in
theorem total_groups {temp : Nat} {output : List (StackRow Function LinkedObject Value)}
    {grouped : List (StackRow Function LinkedObject Value × List (StackRow Function LinkedObject Value))}
    (each : List.Forall₂ (fun group row => amount temp row = total temp (group.1 :: group.2)) grouped output) :
    total temp output = total temp (grouped.flatMap fun group => group.1 :: group.2) := by
  induction each with
  | nil => rfl
  | @cons group row grouped output own others ih =>
    rw [total_cons, own, ih, List.flatMap_cons, total, total, total, List.map_append, List.sum_append]

theorem combineShortStacks_part
    (agree : Agree iv rows) (short : ∀ row ∈ rows, row.stack.length = 2) : ∃ output,
      combineShortStacks iv fieldRequirements rows = some output ∧
      (∀ row ∈ output, ∃ copy ∈ rows, row.first = copy.first) ∧
      (∀ temp, IsAdded iv temp → total temp output = total temp rows) ∧
      ((output.Pairwise fun row other => equalStacks row other = false) ↔
        JoinedFrom (isDuplicate fieldRequirements) equalStacks [] rows) := by
  have members {group : StackRow Function LinkedObject Value × List (StackRow Function LinkedObject Value)}
      (inside : group ∈ groups (isDuplicate fieldRequirements) rank rows) :
      ∀ member ∈ group.1 :: group.2, member ∈ rows :=
    fun member stands => (group_sublist inside).subset stands
  obtain ⟨output, done, folds⟩ := @mapM_isSome _ _
    (fun group : StackRow Function LinkedObject Value ×
      List (StackRow Function LinkedObject Value) => group.2.foldlM (mergeRow iv) group.1)
    (groups (isDuplicate fieldRequirements) rank rows)
    (fun group inside => fold_isSome_iff.mpr fun other stands =>
      agree.accumulates (members inside _ mem_cons_self)
        (members inside _ (mem_cons_of_mem _ stands)))
  have firsts : ((groups (isDuplicate fieldRequirements) rank rows).map Prod.fst).map
      CallRow.first = output.map CallRow.first := by
    rw [map_map, ← List.forall₂_eq_eq_eq, List.forall₂_map_left_iff, List.forall₂_map_right_iff]
    exact folds.imp fun group row own => (fold_merged own.2).1.symm
  refine ⟨output, (combineDuplicateCallStacks_eq iv fieldRequirements rows).trans done, ?_, ?_, ?_⟩
  · intro row inside
    have stands : row.first ∈ output.map CallRow.first := List.mem_map_of_mem inside
    rw [← firsts] at stands
    obtain ⟨copy, present, same⟩ := mem_map.mp stands
    exact ⟨copy, (firsts_sublist rows).subset present, same.symm⟩
  · intro temp added
    have accumulated : accumulatorAt iv temp ≠ none := by
      rw [accumulatorAt_of_added added]
      exact Option.some_ne_none _
    have each := folds.imp fun group row own => amount_fold added (fun other stands =>
      agree.nulls temp accumulated other (members own.1 _ (mem_cons_of_mem _ stands)) group.1
        (members own.1 _ mem_cons_self)) own.2
    rw [total_groups each, total, total]
    exact ((groups_perm rows).map _).sum_eq
  · have firstsApart : (output.Pairwise fun row other => equalStacks row other = false) ↔
        (((groups (isDuplicate fieldRequirements) rank rows).map Prod.fst).Pairwise
          fun row other => equalStacks row other = false) := by
      have both (list : List (StackRow Function LinkedObject Value)) :
          (list.Pairwise fun row other => equalStacks row other = false) ↔
            (list.map CallRow.first).Pairwise fun entry other =>
              sameStack entry.callStack other.callStack = false := by
        rw [List.pairwise_map]
        rfl
      rw [both, both, firsts]
    have level : ∀ row ∈ rows, rank row = 2 := short
    rw [firstsApart, firsts_eq_keptFrom level]
    exact kept_apart_iff (fun row other joined => (isDuplicate_iff.mp joined).1) rows [] List.Pairwise.nil

variable {traceBackOrder : Bool} {func : Function}

/-- One row of the function between those of different callers and of different functions it
calls, and what each part comes to. -/
structure Balanced (iv : List (Option (ViewInstruction Value))) (func : Function)
    (rows callers : List (StackRow Function LinkedObject Value))
    (pivot : StackRow Function LinkedObject Value)
    (callees : List (StackRow Function LinkedObject Value)) : Prop where
  pivotStack : ∃ entry, pivot.stack = [entry] ∧ isCall func entry = true
  callerStacks : ∀ row ∈ callers, ∃ caller, row.stack = [.string "", caller]
  calleeStacks : ∀ row ∈ callees, ∃ callee, row.stack = [.string "", callee]
  callersApart : callers.Pairwise fun row other => equalStacks row other = false
  calleesApart : callees.Pairwise fun row other => equalStacks row other = false
  pivotTotal : ∀ temp, IsAdded iv temp → amount temp pivot = total temp (rows.filter (callsFunc func))
  callersTotal : ∀ temp, IsAdded iv temp →
    total temp callers + total temp (rows.filter (callsFirst func)) = amount temp pivot
  calleesTotal : ∀ temp, IsAdded iv temp →
    total temp callees + total temp (rows.filter (callsLast func)) = amount temp pivot

def Conserves (iv : List (Option (ViewInstruction Value))) (traceBackOrder : Bool)
    (func : Function) (fieldRequirements : List (ViewInstruction Value))
    (table : ViewRows Function LinkedObject Value)
    (result : List (StackRow Function LinkedObject Value)) : Prop :=
  (∃ row ∈ table.rows, callsFunc func row = true) → ∃ callers pivot callees,
    extractPivotItems iv traceBackOrder func fieldRequirements table.rows result =
      some (result ++ callers ++ [pivot] ++ callees) ∧
    Balanced iv func table.rows callers pivot callees

/-- An accumulated temp is null in all rows that call the function or in none. Each row of a caller that
is equal to one kept before it shares no required field with one kept; the same for callees. -/
structure TempsAgree (iv : List (Option (ViewInstruction Value))) (traceBackOrder : Bool)
    (func : Function) (fieldRequirements : List (ViewInstruction Value))
    (table : ViewRows Function LinkedObject Value) : Prop where
  nulls : ∀ temp, accumulatorAt iv temp ≠ none →
    ∀ row ∈ table.rows.filter (callsFunc func), ∀ other ∈ table.rows.filter (callsFunc func),
      (value temp row).isSome = (value temp other).isSome
  callers : JoinedFrom (isDuplicate fieldRequirements) equalStacks [] (callers traceBackOrder func table.rows)
  callees : JoinedFrom (isDuplicate fieldRequirements) equalStacks [] (callees traceBackOrder func table.rows)

theorem combinePart_eq (rows : List (StackRow Function LinkedObject Value)) :
    combinePart iv fieldRequirements rows = combineShortStacks iv fieldRequirements rows := by
  cases rows <;> rfl

theorem pivot_total {first pivot : StackRow Function LinkedObject Value}
    {others : List (StackRow Function LinkedObject Value)} (agree : Agree iv (first :: others))
    (folded : others.foldlM (mergeRow iv) (pivotRow traceBackOrder func first) = some pivot)
    {temp : Nat} (added : IsAdded iv temp) : amount temp pivot = total temp (first :: others) := by
  have accumulated : accumulatorAt iv temp ≠ none := by
    rw [accumulatorAt_of_added added]
    exact Option.some_ne_none _
  have sums : amount temp pivot = total temp (pivotRow traceBackOrder func first :: others) :=
    amount_fold added (fun other inside => agree.nulls temp accumulated other
      (mem_cons_of_mem _ inside) first mem_cons_self) folded
  rw [sums, total_cons, total_cons]
  rfl

variable {table : ViewRows Function LinkedObject Value}

variable {first : StackRow Function LinkedObject Value}

theorem extractPivotItems_agree {others : List (StackRow Function LinkedObject Value)}
    (calling : table.rows.filter (callsFunc func) = first :: others)
    (agree : Agree iv (first :: others)) (result : List (StackRow Function LinkedObject Value)) :
    ∃ pred pivot succ, extractPivotItems iv traceBackOrder func fieldRequirements table.rows result =
        some (result ++ pred ++ [pivot] ++ succ) ∧
      (∀ row ∈ pred, row.stack.length = 2) ∧ pivot.stack.length = 1 ∧
      (Balanced iv func table.rows pred pivot succ ↔
        JoinedFrom (isDuplicate fieldRequirements) equalStacks [] (callers traceBackOrder func table.rows) ∧
          JoinedFrom (isDuplicate fieldRequirements) equalStacks []
            (callees traceBackOrder func table.rows)) := by
  obtain ⟨pivot, folded⟩ := Option.isSome_iff_exists.mp
    ((@fold_isSome_iff _ _ _ _ _ _ iv others (pivotRow traceBackOrder func first)).mpr fun other inside => by
        have both := agree.accumulates (mem_cons_self : first ∈ first :: others)
          (mem_cons_of_mem _ inside)
        exact both)
  have calls : callsFunc func first = true :=
    (mem_filter.mp (calling ▸ mem_cons_self : first ∈ _)).2
  have short {row : StackRow Function LinkedObject Value}
      (two : ∃ other, row.stack = [.string "", other]) : row.stack.length = 2 := by
    obtain ⟨other, shape⟩ := two
    rw [shape]
    rfl
  have callerCopies (copy : StackRow Function LinkedObject Value)
      (inside : copy ∈ callers traceBackOrder func table.rows) :=
    callers_stack traceBackOrder inside
  have calleeCopies (copy : StackRow Function LinkedObject Value)
      (inside : copy ∈ callees traceBackOrder func table.rows) :=
    callees_stack traceBackOrder inside
  obtain ⟨pred, combinedPred, predStacks, predTotal, predApart⟩ :=
    @combineShortStacks_part _ _ _ _ _ _ _ _ iv fieldRequirements
      (callers traceBackOrder func table.rows)
      (agree.of_copied fun copy inside => calling ▸ (callerCopies copy inside).1)
      (fun copy inside => short (callerCopies copy inside).2)
  obtain ⟨succ, combinedSucc, succStacks, succTotal, succApart⟩ :=
    @combineShortStacks_part _ _ _ _ _ _ _ _ iv fieldRequirements
      (callees traceBackOrder func table.rows)
      (agree.of_copied fun copy inside => calling ▸ (calleeCopies copy inside).1)
      (fun copy inside => short (calleeCopies copy inside).2)
  have predShape : ∀ row ∈ pred, ∃ caller, row.stack = [.string "", caller] := by
    intro row inside
    obtain ⟨copy, present, sameEntry⟩ := predStacks row inside
    rw [CallRow.stack, sameEntry]
    exact (callerCopies copy present).2
  have pivotShape : ∃ entry, pivot.stack = [entry] ∧ isCall func entry = true := by
    rw [CallRow.stack, (fold_merged folded).1]
    exact pivotRow_stack calls
  refine ⟨pred, pivot, succ, ?_, fun row inside => short (predShape row inside), ?_, ?_⟩
  · rw [extractPivotItems, pass_eq, calling]
    dsimp only
    rw [folded, Option.map_some]
    change Option.bind (combinePart iv fieldRequirements (callers traceBackOrder func table.rows))
      (fun pred => Option.bind (combinePart iv fieldRequirements
        (callees traceBackOrder func table.rows)) _) = _
    rw [combinePart_eq, combinePart_eq, combinedPred, combinedSucc]
    rfl
  · obtain ⟨entry, shape, _⟩ := pivotShape
    rw [shape]
    rfl
  · have pivotTotal : ∀ temp, IsAdded iv temp →
        amount temp pivot = total temp (table.rows.filter (callsFunc func)) := by
      intro temp added
      rw [calling]
      exact pivot_total agree folded added
    constructor
    · exact fun balanced => ⟨predApart.mp balanced.callersApart, succApart.mp balanced.calleesApart⟩
    · rintro ⟨joinedPred, joinedSucc⟩
      refine ⟨pivotShape, predShape, ?_, predApart.mpr joinedPred, succApart.mpr joinedSucc,
        pivotTotal, ?_, ?_⟩
      · intro row inside
        obtain ⟨copy, present, sameEntry⟩ := succStacks row inside
        rw [CallRow.stack, sameEntry]
        exact (calleeCopies copy present).2
      · intro temp added
        rw [predTotal temp added, total_callers, pivotTotal temp added]
      · intro temp added
        rw [succTotal temp added, total_callees, pivotTotal temp added]

theorem agree_of_done {others result output : List (StackRow Function LinkedObject Value)}
    (calling : table.rows.filter (callsFunc func) = first :: others)
    (done : extractPivotItems iv traceBackOrder func fieldRequirements table.rows result =
      some output) : Agree iv (first :: others) := by
  have sizes := table.sizes func
  rw [calling] at sizes
  refine ⟨sizes, fun temp accumulated => ?_⟩
  rw [extractPivotItems, pass_eq, calling] at done
  dsimp only at done
  obtain ⟨state, made, -⟩ := Option.bind_eq_some_iff.mp done
  obtain ⟨pivot, folded, -⟩ := Option.map_eq_some_iff.mp made
  have agrees := fold_isSome_iff.mp (Option.isSome_iff_exists.mpr ⟨pivot, folded⟩)
  have known : temp < iv.length := by
    by_contra past
    exact accumulated (by rw [accumulatorAt, List.getElem?_eq_none (by omega)]; rfl)
  have likeFirst : ∀ row ∈ first :: others, (value temp first).isSome = (value temp row).isSome := by
    intro row inside
    rcases List.mem_cons.mp inside with rfl | inside
    · rfl
    · have same := sizes first mem_cons_self row (mem_cons_of_mem _ inside)
      by_cases less : temp < first.second.length
      · exact ((agrees row inside) temp known less).2 accumulated
      · rw [value, value, List.getElem?_eq_none (by omega), List.getElem?_eq_none (by omega)]
  exact fun row inside other present =>
    (likeFirst row inside).symm.trans (likeFirst other present)

/-- The view around a function is balanced exactly when its rows agree. -/
theorem extractPivotItems_conserves_iff (table : ViewRows Function LinkedObject Value)
    (result : List (StackRow Function LinkedObject Value)) :
    Conserves iv traceBackOrder func fieldRequirements table result ↔
      TempsAgree iv traceBackOrder func fieldRequirements table := by
  cases calling : table.rows.filter (callsFunc func) with
  | nil =>
    refine iff_of_true ?_ ⟨?_, ?_, ?_⟩
    · rintro ⟨row, inside, calls⟩
      exact absurd (calling ▸ List.mem_filter.mpr ⟨inside, calls⟩) List.not_mem_nil
    · rw [calling]
      exact fun _ _ _ inside => absurd inside List.not_mem_nil
    · rw [callers, calling]
      trivial
    · rw [callees, calling]
      trivial
  | cons first others =>
    constructor
    · intro conserves
      have stands : first ∈ table.rows.filter (callsFunc func) := calling ▸ List.mem_cons_self
      obtain ⟨before, pivot, behind, done, balanced⟩ :=
        conserves ⟨first, List.mem_filter.mp stands⟩
      have agree := agree_of_done calling done
      obtain ⟨pred, pivot', succ, done', short, single, iff⟩ := @extractPivotItems_agree _ _ _ _ _ _ _ _ iv
        fieldRequirements traceBackOrder func table first others calling agree result
      have same := Option.some.inj (done.symm.trans done')
      simp only [List.append_assoc, List.append_cancel_left_eq, List.singleton_append] at same
      have shortBefore : ∀ row ∈ before, row.stack.length = 2 := by
        intro row inside
        obtain ⟨caller, shape⟩ := balanced.callerStacks row inside
        rw [shape]
        rfl
      have single' : ¬pivot.stack.length = 2 := by
        obtain ⟨entry, shape, _⟩ := balanced.pivotStack
        rw [shape]
        exact Nat.succ_succ_ne_one 0 ∘ Eq.symm
      obtain ⟨rfl, rfl, rfl⟩ := split_unique shortBefore short single' (by omega) same
      obtain ⟨joinedPred, joinedSucc⟩ := iff.mp balanced
      exact ⟨calling ▸ agree.nulls, joinedPred, joinedSucc⟩
    · rintro ⟨nulls, joinedPred, joinedSucc⟩ -
      have sizes := table.sizes func
      rw [calling] at nulls sizes
      obtain ⟨pred, pivot, succ, done, -, -, iff⟩ := @extractPivotItems_agree _ _ _ _ _ _ _ _ iv
        fieldRequirements traceBackOrder func table first others calling ⟨sizes, nulls⟩ result
      exact ⟨pred, pivot, succ, done, iff.mpr ⟨joinedPred, joinedSucc⟩⟩

end

def callRow (time : Option Nat) : StackRow Nat Nat Nat :=
  ⟨⟨[.function 1 10 0, .function 2 20 0], false⟩, [time]⟩

def nullTime : ViewRows Nat Nat Nat := ⟨[callRow (some 5), callRow none], 1, by decide⟩

def twoCalls : ViewRows Nat Nat Nat := ⟨[callRow (some 5), callRow (some 6)], 1, by decide⟩

def addTime : ViewInstruction Nat := ⟨.add, .error, -1, 0, -1, -1, none⟩

def requireTime : ViewInstruction Nat := ⟨.requireFieldEqual, .error, -1, 0, -1, -1, none⟩

theorem unbalanced_views : ¬Conserves [some addTime] false 2 [] nullTime [] ∧
    ¬Conserves [some addTime] false 2 [requireTime] twoCalls [] := by
  rw [extractPivotItems_conserves_iff, extractPivotItems_conserves_iff]
  constructor
  · intro agree
    have same := agree.nulls 0 (by rw [accumulatorAt]; exact Option.some_ne_none _)
      (callRow (some 5)) (by decide) (callRow none) (by decide)
    exact absurd same (by decide)
  · intro agree
    have joined := agree.callers
    change JoinedFrom (isDuplicate [requireTime]) equalStacks []
      [callerRow false 2 (callRow (some 5)), callerRow false 2 (callRow (some 6))] at joined
    rw [JoinedFrom, if_neg (by decide), JoinedFrom, if_pos (by decide)] at joined
    exact absurd joined.1 (by decide)

end OpenSpeedShop.PivotItems
