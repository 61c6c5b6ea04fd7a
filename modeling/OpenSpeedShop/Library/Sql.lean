import Mathlib.Data.List.Nodup

/-! Conditions of SQL statements, which are unknown where a column is NULL, and the statements. -/

namespace Sql

abbrev Truth := Option Bool

section

variable {Value : Type} [DecidableEq Value]

def equal : (left right : Option Value) → Truth
  | some left, some right => some (left = right)
  | some _, none => none
  | none, _ => none

def isNull (value : Option Value) : Truth := some value.isNone

def both : (left right : Truth) → Truth
  | some true, right => right
  | some false, _ => some false
  | none, some false => some false
  | none, some true => none
  | none, none => none

def isIn (value : Option Value) (values : List (Option Value)) : Truth :=
  if values = [] then some false
  else match value with
    | none => none
    | some value =>
      if some value ∈ values then some true
      else if none ∈ values then none
      else some false

def notIn (value : Option Value) (values : List (Option Value)) : Truth :=
  (isIn value values).map not

@[simp] theorem equal_eq_true {left right : Option Value} :
    equal left right = some true ↔ left.isSome ∧ left = right := by
  cases left with
  | none => simp [equal]
  | some left => cases right <;> simp [equal]

@[simp] theorem both_eq_true {left right : Truth} :
    both left right = some true ↔ left = some true ∧ right = some true := by
  cases left with
  | none =>
    cases right with
    | none => simp [both]
    | some right => cases right <;> simp [both]
  | some left => cases left <;> simp [both]

theorem notIn_eq_true {value : Value} {values : List (Option Value)} :
    notIn (some value) values = some true ↔ some value ∉ values ∧ none ∉ values := by
  unfold notIn isIn
  split
  next empty => simp [empty]
  next =>
    by_cases found : some value ∈ values
    · simp [found]
    · by_cases unknown : none ∈ values
      · simp [found, unknown]
      · simp [found, unknown]

end

section

variable {Row : Type}

/-- `SELECT ... FROM table WHERE condition;` -/
def select (condition : Row → Truth) (table : List Row) : List Row :=
  table.filter fun row => condition row = some true

/-- `UPDATE table SET ... WHERE condition;` -/
def update (condition : Row → Truth) (change : Row → Row) (table : List Row) : List Row :=
  table.map fun row => if condition row = some true then change row else row

variable {condition : Row → Truth} {table : List Row}

@[simp] theorem mem_select {row : Row} :
    row ∈ select condition table ↔ row ∈ table ∧ condition row = some true := by
  simp [select]

theorem select_eq_nil : select condition table = [] ↔ ∀ row ∈ table, condition row ≠ some true := by
  simp [select]

theorem update_append_singleton {change : Row → Row}
    {last : Row} (others : ∀ row ∈ table, condition row ≠ some true) (found : condition last = some true) :
    update condition change (table ++ [last]) = table ++ [change last] := by
  have same : table.map (fun row => if condition row = some true then change row else row) =
      table.map id := List.map_congr_left fun row member => if_neg (others row member)
  simp [update, same, found]

theorem filter_update {change : Row → Row} {keep : Row → Bool}
    (apart : ∀ row, condition row = some true → keep row = false ∧ keep (change row) = false)
    (table : List Row) : (update condition change table).filter keep = table.filter keep := by
  unfold update
  induction table with
  | nil => rfl
  | cons row rest ih =>
    by_cases changed : condition row = some true
    · rw [List.map_cons, if_pos changed, List.filter_cons_of_neg (by simp [apart row changed]),
        ih, List.filter_cons_of_neg (by simp [apart row changed])]
    · rw [List.map_cons, if_neg changed, List.filter_cons, List.filter_cons, ih]

theorem filter_key {Key : Type} [DecidableEq Key] {key : Row → Key}
    (distinct : (table.map key).Nodup) {row : Row} (member : row ∈ table) :
    table.filter (fun other => key other = key row) = [row] := by
  classical
  have only : table.filter (fun other => key other = key row) = table.filter (· = row) := by
    refine List.filter_congr fun other among => decide_eq_decide.mpr ?_
    exact ⟨List.inj_on_of_nodup_map distinct among member, congrArg key⟩
  have once := List.count_eq_one_of_mem (List.Nodup.of_map _ distinct) member
  rw [only, List.filter_eq, once, List.replicate_one]

end

section

variable {Row : Type}

/-- `DELETE FROM table WHERE condition;` -/
def deleteWhere (condition : Row → Truth) (table : List Row) : List Row :=
  table.filter fun row => condition row ≠ some true

variable {table : List Row} {condition : Row → Truth}

@[simp] theorem mem_deleteWhere {row : Row} :
    row ∈ deleteWhere condition table ↔ row ∈ table ∧ condition row ≠ some true := by
  simp [deleteWhere]

theorem deleteWhere_eq_self
    (stays : ∀ row ∈ table, condition row ≠ some true) : deleteWhere condition table = table := by
  simpa [deleteWhere, List.filter_eq_self] using stays

theorem deleteWhere_notIn {Value : Type} [DecidableEq Value] {key : Row → Option Value}
    {values : List (Option Value)} {keep : Row → Prop} [DecidablePred keep] (known : none ∉ values)
    (named : ∀ row ∈ table, ∃ value, key row = some value ∧ (some value ∈ values ↔ keep row)) :
    deleteWhere (fun row => notIn (key row) values) table = table.filter fun row => keep row := by
  refine List.filter_congr fun row member => ?_
  obtain ⟨value, keyed, iff⟩ := named row member
  simp [keyed, notIn_eq_true, known, ← iff]

theorem deleteWhere_eq_filter {keep : Row → Prop}
    [DecidablePred keep] (iff : ∀ row ∈ table, condition row = some true ↔ ¬ keep row) :
    deleteWhere condition table = table.filter fun row => keep row := by
  refine List.filter_congr fun row member => ?_
  simp [iff row member]

end

end Sql
