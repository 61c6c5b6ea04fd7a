import OpenSpeedShop.Cli.StackMerge

/-!
Duplicate call stacks: every row is merged into one that is equal to it, when no shorter
stack ends the scan before it is met and no unknown column makes it equal to two.
-/

namespace OpenSpeedShop.DuplicateStacks

open CallStacks (CallRow requires)
open MetricExpressions (ViewInstruction)
open StackMerge
open GreedyGroups

theorem foldl_combined {Item : Type} {accumulate : Item → Item → Item} (rest : List Item) :
    ∀ first : Item, (rest.map some).foldl (combined (some accumulate)) (some first) =
      some (rest.foldl accumulate first) := by
  induction rest with
  | nil => exact fun _ => rfl
  | cons next rest ih => exact fun first => ih (accumulate first next)

theorem eq_map_some {Item : Type} {values : List (Option Item)} (present : ∀ value ∈ values, value.isSome) :
    ∃ list : List Item, values = list.map some := by
  induction values with
  | nil => exact ⟨[], rfl⟩
  | cons head values ih =>
    obtain ⟨own, others⟩ := List.forall_mem_cons.mp present
    obtain ⟨value, rfl⟩ := Option.isSome_iff_exists.mp own
    obtain ⟨list, rfl⟩ := ih others
    exact ⟨value :: list, rfl⟩

structure FullRows (Function LinkedObject Value : Type) where
  rows : List (StackRow Function LinkedObject Value)
  width : Nat
  full : ∀ row ∈ rows, row.second.length = width ∧ ∀ temp ∈ row.second, temp.isSome = true

variable {Function LinkedObject Value : Type} [DecidableEq Function] [DecidableEq LinkedObject]
  [DecidableEq Value]

def sameFields (fieldRequirements : List (ViewInstruction Value))
    (row other : StackRow Function LinkedObject Value) : Bool :=
  fieldRequirements.all fun vp => !(vp.opCode = .requireFieldEqual ∧ 0 ≤ vp.tmpIndex1) ||
    decide (value vp.tmpIndex1.toNat row = value vp.tmpIndex1.toNat other)

def same (fieldRequirements : List (ViewInstruction Value))
    (row other : StackRow Function LinkedObject Value) : Bool :=
  sameStack row.stack other.stack && sameFields fieldRequirements row other

def Aggregates (accumulate : Value → Value → Value) (values : List (Option Value))
    (result : Option Value) : Prop :=
  ∃ first rest, values = (first :: rest).map some ∧ result = some (rest.foldl accumulate first)

section

variable [Add Value] [Min Value] [Max Value]

structure MergedWithoutLoss (iv : List (Option (ViewInstruction Value)))
    (fieldRequirements : List (ViewInstruction Value)) (table : FullRows Function LinkedObject Value)
    (output : List (StackRow Function LinkedObject Value)) : Prop where
  apart : output.Pairwise fun row other => same fieldRequirements row other = false
  merged : ∀ group ∈ groups (isDuplicate fieldRequirements) rank table.rows,
    group.1 :: group.2 = table.rows.filter (same fieldRequirements group.1 ·)
  values : List.Forall₂ (fun group row => row.first = group.1.first ∧
      ∀ temp < table.width, ∀ accumulate, accumulatorAt iv temp = some accumulate →
        Aggregates accumulate ((group.1 :: group.2).map (value temp)) (value temp row))
    (groups (isDuplicate fieldRequirements) rank table.rows) output
  order : ((groups (isDuplicate fieldRequirements) rank table.rows).map Prod.fst).Sublist table.rows

/-- With a required field no two rows may be equal. Otherwise, leaving out the rows equal to the
first one, and so on: no shorter stack is between equal rows, and no row equals two first ones. -/
def AllMet (fieldRequirements : List (ViewInstruction Value))
    (table : FullRows Function LinkedObject Value) : Prop :=
  if requires fieldRequirements table.width then
    table.rows.Pairwise fun row other => same fieldRequirements row other = false
  else ∃ firsts, Clear equalStacks rank table.rows firsts

end

variable {fieldRequirements : List (ViewInstruction Value)}

theorem same_self (row : StackRow Function LinkedObject Value) : same fieldRequirements row row = true := by
  simp [same, sameStack_self, sameFields]

theorem same_comm (row other : StackRow Function LinkedObject Value) :
    same fieldRequirements row other = same fieldRequirements other row := by
  simp only [same, sameFields, sameStack_comm row.stack, eq_comm]

variable (table : FullRows Function LinkedObject Value)

theorem isSome_value {row : StackRow Function LinkedObject Value} (inside : row ∈ table.rows)
    (temp : Nat) : (value temp row).isSome = decide (temp < table.width) := by
  obtain ⟨width, full⟩ := table.full row inside
  rw [value, ← width]
  by_cases present : temp < row.second.length
  · rw [List.getElem?_eq_getElem present]
    simpa [present] using full _ (List.getElem_mem present)
  · rw [List.getElem?_eq_none (by omega)]
    simp [present]

variable {row other : StackRow Function LinkedObject Value}

theorem matchFieldRequirements_eq (inside : row ∈ table.rows) (present : other ∈ table.rows) :
    matchFieldRequirements fieldRequirements row.second other.second =
      !requires fieldRequirements table.width := by
  rw [matchFieldRequirements, requires, List.not_any_eq_all_not]
  congr 1
  funext vp
  have first := isSome_value table inside vp.tmpIndex1.toNat
  have second := isSome_value table present vp.tmpIndex1.toNat
  rw [value] at first second
  rw [first, second]
  congr 1
  rw [decide_eq_decide]
  simp only [decide_eq_true_eq]
  constructor <;> rintro ⟨code, low, high⟩ <;> exact ⟨code, low, by omega⟩

theorem isDuplicate_eq (inside : row ∈ table.rows) (present : other ∈ table.rows) :
    isDuplicate fieldRequirements row other =
      (equalStacks row other && !requires fieldRequirements table.width) := by
  rw [Bool.eq_iff_iff, isDuplicate_iff, matchFieldRequirements_eq table inside present, Bool.and_eq_true]
  rfl

theorem same_eq (free : requires fieldRequirements table.width = false)
    (inside : row ∈ table.rows) (present : other ∈ table.rows) :
    same fieldRequirements row other = equalStacks row other := by
  have fields : sameFields fieldRequirements row other = true := by
    rw [sameFields, List.all_eq_true]
    intro vp stands
    rw [requires, List.any_eq_false] at free
    have far := free vp stands
    by_cases required : vp.opCode = .requireFieldEqual ∧ 0 ≤ vp.tmpIndex1
    · have outside : ¬vp.tmpIndex1.toNat < table.width := fun less =>
        far (decide_eq_true ⟨required.1, required.2, by omega⟩)
      have first := isSome_value table inside vp.tmpIndex1.toNat
      have second := isSome_value table present vp.tmpIndex1.toNat
      simp only [outside, decide_false, Option.isSome_eq_false_iff, Option.isNone_iff_eq_none] at first second
      simp [first, second]
    · simp [required]
  rw [same, fields, Bool.and_true]
  rfl

theorem groups_free (free : requires fieldRequirements table.width = false) :
    groups (isDuplicate fieldRequirements) rank table.rows = groups equalStacks rank table.rows := by
  refine groups_congr fun row inside other present => ?_
  rw [isDuplicate_eq table inside present, free, Bool.not_false, Bool.and_true]

theorem groups_required (required : requires fieldRequirements table.width = true) :
    groups (isDuplicate fieldRequirements) rank table.rows = table.rows.map (·, []) := by
  rw [← @groups_never _ rank table.rows]
  refine groups_congr fun row inside other present => ?_
  rw [isDuplicate_eq table inside present, required, Bool.not_true, Bool.and_false]

variable [Add Value] [Min Value] [Max Value] {iv : List (Option (ViewInstruction Value))}

theorem accumulates_full (inside : row ∈ table.rows) (present : other ∈ table.rows) :
    Accumulates iv row.second other.second := by
  intro temp _ less
  have first := isSome_value table inside temp
  have second := isSome_value table present temp
  refine ⟨?_, fun _ => first.trans second.symm⟩
  rw [(table.full other present).1, ← (table.full row inside).1]
  exact less

theorem aggregates_of_fold {group : StackRow Function LinkedObject Value ×
      List (StackRow Function LinkedObject Value)} {row : StackRow Function LinkedObject Value}
    (members : ∀ member ∈ group.1 :: group.2, member ∈ table.rows)
    (done : group.2.foldlM (mergeRow iv) group.1 = some row) :
    row.first = group.1.first ∧ ∀ temp < table.width, ∀ accumulate, accumulatorAt iv temp = some accumulate →
        Aggregates accumulate ((group.1 :: group.2).map (value temp)) (value temp row) := by
  obtain ⟨entry, _, values⟩ := fold_merged done
  refine ⟨entry, fun temp less accumulate found => ?_⟩
  have present : ∀ member ∈ group.1 :: group.2, (value temp member).isSome = true :=
    fun member inside => (isSome_value table (members member inside) temp).trans (decide_eq_true less)
  obtain ⟨own, others⟩ := List.forall_mem_cons.mp present
  obtain ⟨first, isFirst⟩ := Option.isSome_iff_exists.mp own
  obtain ⟨rest, isRest⟩ := @eq_map_some _ (group.2.map (value temp)) (by
    intro entry inside
    obtain ⟨member, stands, rfl⟩ := List.mem_map.mp inside
    exact others member stands)
  refine ⟨first, rest, by rw [List.map_cons, List.map_cons, isFirst, isRest], ?_⟩
  rw [values temp, found, isFirst, isRest, foldl_combined]

omit [DecidableEq Function] [DecidableEq LinkedObject] [DecidableEq Value] [Add Value]
  [Min Value] [Max Value] in
theorem members_of_group {joins : StackRow Function LinkedObject Value →
      StackRow Function LinkedObject Value → Bool}
    {group : StackRow Function LinkedObject Value × List (StackRow Function LinkedObject Value)}
    (inside : group ∈ groups joins rank table.rows) : ∀ member ∈ group.1 :: group.2, member ∈ table.rows :=
  fun _ stands => (group_sublist inside).subset stands

theorem combined_groups : ∃ output,
    combineDuplicateCallStacks iv fieldRequirements table.rows = some output ∧ List.Forall₂ (fun group row =>
          group ∈ groups (isDuplicate fieldRequirements) rank table.rows ∧
            group.2.foldlM (mergeRow iv) group.1 = some row)
        (groups (isDuplicate fieldRequirements) rank table.rows) output := by
  rw [combineDuplicateCallStacks_eq]
  refine mapM_isSome fun group inside => fold_isSome_iff.mpr fun other stands => ?_
  have members := members_of_group table inside
  exact accumulates_full table (members _ List.mem_cons_self) (members _ (List.mem_cons_of_mem _ stands))

theorem filter_single {Row : Type} {joins : Row → Row → Bool} {rows : List Row}
    (reflexive : ∀ row, joins row row = true) (symmetric : ∀ row other, joins row other = joins other row) :
    (∀ row ∈ rows, rows.filter (joins row ·) = [row]) ↔
      rows.Pairwise fun row other => joins row other = false := by
  constructor
  · intro single
    rw [List.pairwise_iff_forall_sublist]
    intro row other stand
    by_contra joined
    have two := stand.filter (joins row ·)
    rw [single row (stand.subset List.mem_cons_self), List.filter_cons_of_pos (reflexive row),
      List.filter_cons_of_pos (by simpa using joined)] at two
    exact absurd two.length_le (by simp)
  · intro apart
    induction rows with
    | nil => exact fun _ inside => absurd inside List.not_mem_nil
    | cons head rows ih =>
      obtain ⟨first, later⟩ := List.pairwise_cons.mp apart
      intro row inside
      rcases List.mem_cons.mp inside with rfl | inside
      · rw [List.filter_cons_of_pos (reflexive row), List.filter_eq_nil_iff.mpr]
        exact fun other stands => by simp [first other stands]
      · rw [List.filter_cons_of_neg (by simp [symmetric row, first row inside]), ih later row inside]

theorem merged_iff : (∀ group ∈ groups (isDuplicate fieldRequirements) rank table.rows,
      group.1 :: group.2 = table.rows.filter (same fieldRequirements group.1 ·)) ↔
      AllMet fieldRequirements table := by
  rw [AllMet]
  split
  next required =>
    rw [groups_required table required, ← filter_single same_self same_comm]
    simp only [List.forall_mem_map, eq_comm]
  next free =>
    rw [groups_free table (by simpa using free),
      ← complete_iff ranked_equalStacks equalStacks_self equalStacks_comm, Complete]
    refine forall₂_congr fun group inside => ?_
    have first := members_of_group table inside group.1 List.mem_cons_self
    rw [List.filter_congr fun row present =>
      same_eq table (by simpa using free) first present]

theorem firsts_apart (met : AllMet fieldRequirements table) :
    (groups (isDuplicate fieldRequirements) rank table.rows).Pairwise fun group other =>
      (group.2 = [] ∧ other.2 = [] ∧ same fieldRequirements group.1 other.1 = false) ∨
        sameStack group.1.stack other.1.stack = false := by
  rw [AllMet] at met
  split at met
  next required =>
    rw [groups_required table required, List.pairwise_map]
    exact met.imp fun unequal => Or.inl ⟨rfl, rfl, unequal⟩
  next free =>
    obtain ⟨firsts, clear⟩ := met
    have apart := clear.firsts_apart
    rw [← clear.firsts_eq ranked_equalStacks, List.pairwise_map] at apart
    rw [groups_free table (by simpa using free)]
    exact apart.imp fun unequal => Or.inr unequal

/-- Rows are merged without loss exactly when all that are equal are met. -/
theorem combineDuplicateCallStacks_lossless_iff :
    (∃ output, combineDuplicateCallStacks iv fieldRequirements table.rows = some output ∧
      MergedWithoutLoss iv fieldRequirements table output) ↔ AllMet fieldRequirements table := by
  constructor
  · rintro ⟨output, -, lossless⟩
    exact (merged_iff table).mp lossless.merged
  · intro met
    obtain ⟨output, done, folds⟩ := @combined_groups _ _ _ _ _ _ fieldRequirements table _ _ _ iv
    refine ⟨output, done, ?_, (merged_iff table).mpr met, ?_, firsts_sublist table.rows⟩
    · refine pairwise_of_forall₂ folds ?_ (firsts_apart table met)
      rintro group row other row' ⟨-, own⟩ ⟨-, made⟩ (⟨alone, alone', unequal⟩ | unequal)
      · rw [alone] at own
        rw [alone'] at made
        obtain rfl := Option.some.inj own
        obtain rfl := Option.some.inj made
        exact unequal
      · have first := (fold_merged own).1
        have second := (fold_merged made).1
        rw [same, CallRow.stack, first, CallRow.stack, second]
        exact Bool.and_eq_false_imp.mpr fun equal => absurd (unequal.symm.trans equal) (by decide)
    · exact folds.imp fun group row found =>
        aggregates_of_fold table (members_of_group table found.1) found.2

def callRow (stack : List (StackEntry Nat Nat)) (time : Nat) : StackRow Nat Nat Nat :=
  ⟨⟨stack, false⟩, [some time]⟩

def call (function : Nat) (column : Int) : StackEntry Nat Nat := .function function 10 column

def interleaved : FullRows Nat Nat Nat :=
  ⟨[callRow [call 1 0, call 2 0] 5, callRow [call 3 0] 6, callRow [call 1 0, call 2 0] 7], 1, by decide⟩

def unknownColumn : FullRows Nat Nat Nat :=
  ⟨[callRow [call 1 5] 5, callRow [call 1 6] 6, callRow [call 1 0] 7], 1, by decide⟩

def equalFields : FullRows Nat Nat Nat :=
  ⟨[callRow [call 1 0] 5, callRow [call 1 0] 5], 1, by decide⟩

def addTime : ViewInstruction Nat := ⟨.add, .error, -1, 0, -1, -1, none⟩

def requireTime : ViewInstruction Nat := ⟨.requireFieldEqual, .error, -1, 0, -1, -1, none⟩

theorem equal_rows_stay_apart :
    (¬∃ output, combineDuplicateCallStacks [some addTime] [] interleaved.rows = some output ∧
      MergedWithoutLoss [some addTime] [] interleaved output) ∧
    (¬∃ output, combineDuplicateCallStacks [some addTime] [] unknownColumn.rows = some output ∧
      MergedWithoutLoss [some addTime] [] unknownColumn output) ∧
    ¬∃ output, combineDuplicateCallStacks [some addTime] [requireTime] equalFields.rows =
        some output ∧ MergedWithoutLoss [some addTime] [requireTime] equalFields output := by
  rw [combineDuplicateCallStacks_lossless_iff, combineDuplicateCallStacks_lossless_iff,
    combineDuplicateCallStacks_lossless_iff]
  refine ⟨?_, ?_, ?_⟩
  · rintro ⟨firsts, clear⟩
    cases clear with
    | cons near _ _ =>
      have far := near [] _ _ rfl (by decide) (callRow [call 1 0, call 2 0] 7) (by simp)
      exact absurd far (by decide)
  · rintro ⟨firsts, clear⟩
    cases clear with
    | cons _ apart others =>
      cases others with
      | cons _ _ _ =>
        have unequal := apart _ List.mem_cons_self (callRow [call 1 0] 7) (by simp) (by decide)
        exact absurd unequal (by decide)
  · intro apart
    have unequal := (List.pairwise_cons.mp apart).1 _ List.mem_cons_self
    exact absurd unequal (by decide)

end OpenSpeedShop.DuplicateStacks
