import OpenSpeedShop.Cli.CustomViewCore

/-!
When a comparison report is the outer join of its views. Place holders are made from the first value of
a view's first row, and further sets get the types of the first columns of the report.
-/

namespace OpenSpeedShop.CustomView

open OuterJoin
open List (length_append forall_mem_cons length_take flatMap_cons map_append)
open Option (bind_eq_some_iff map_eq_some_iff)

variable {Double Id : Type}

namespace SelectionTarget

def types (set : SelectionTarget Double Id) : List ResultType :=
  match set.partialView with
  | none => []
  | some view => view.types

def assumed (set : SelectionTarget Double Id) : List ResultType :=
  match set.partialView with
  | none => []
  | some view =>
    match view.rows.head?.bind fun row => row.columns.head? with
    | none => []
    | some value => List.replicate view.types.length value.type

end SelectionTarget

section

variable {set : SelectionTarget Double Id} {view : View Double Id}

variable {row : Row Double Id}

theorem View.length_columns (member : row ∈ view.rows) : row.columns.length = view.types.length :=
  (view.typed row member).length_eq

theorem View.columns_ne_nil (sized : row.columns.length = view.types.length) : row.columns ≠ [] := by
  intro none
  rw [none] at sized
  exact view.nonempty (List.length_eq_zero_iff.mp sized.symm)

theorem SelectionTarget.numColumns_eq (set : SelectionTarget Double Id) :
    set.numColumns = set.types.length := by
  cases shown : set.partialView with
  | none => simp [SelectionTarget.numColumns, SelectionTarget.header, SelectionTarget.types, shown]
  | some view =>
    simp [SelectionTarget.numColumns, SelectionTarget.header, SelectionTarget.types, shown, view.sized]

theorem SelectionTarget.length_row (member : row ∈ set.rows) : row.columns.length = set.types.length := by
  unfold SelectionTarget.rows SelectionTarget.types at *
  cases shown : set.partialView with
  | none =>
    rw [shown] at member
    cases member
  | some view =>
    rw [shown] at member
    exact view.length_columns member

theorem SelectionTarget.length_ender (member : row ∈ set.enders) : row.columns.length = set.types.length := by
  unfold SelectionTarget.enders SelectionTarget.types at *
  cases shown : set.partialView with
  | none =>
    rw [shown] at member
    cases member
  | some view =>
    rw [shown] at member
    exact view.complete row member

theorem SelectionTarget.nodup_rows (set : SelectionTarget Double Id) : (set.rows.map Row.last).Nodup := by
  unfold SelectionTarget.rows
  cases set.partialView with
  | none => exact List.nodup_nil
  | some view => exact view.distinct

theorem SelectionTarget.nodup_enders (set : SelectionTarget Double Id) : (set.enders.map Row.last).Nodup := by
  unfold SelectionTarget.enders
  cases set.partialView with
  | none => exact List.nodup_nil
  | some view => exact view.distinctEnders

def SelectionTarget.Sampled (set : SelectionTarget Double Id) : Prop :=
  ∀ view, set.partialView = some view → view.rows ≠ []

theorem baseColumns_cases (extra : Nat) (set : SelectionTarget Double Id) :
    set.partialView = none ∧ baseColumns extra set = some [] ∧ set.assumed = [] ∨
      (∃ view, set.partialView = some view ∧ view.rows = []) ∧ baseColumns extra set = none ∨
      ∃ view value, set.partialView = some view ∧ view.rows ≠ [] ∧
        baseColumns extra set = some (List.replicate (extra + view.types.length) value) ∧
        set.assumed = List.replicate view.types.length value.type := by
  cases shown : set.partialView with
  | none => exact .inl ⟨rfl, by simp [baseColumns, shown], by simp [SelectionTarget.assumed, shown]⟩
  | some view =>
    refine .inr ?_
    cases listed : view.rows with
    | nil => exact .inl ⟨⟨view, rfl, listed⟩, by simp [baseColumns, shown, listed]⟩
    | cons row rest =>
      have member : row ∈ view.rows := by
        rw [listed]
        exact List.mem_cons_self
      have nonempty := View.columns_ne_nil (view.length_columns member)
      obtain ⟨value, values, columns⟩ := List.exists_cons_of_ne_nil nonempty
      refine .inr ⟨view, value, rfl, by simp [listed], ?_, ?_⟩
      · simp [baseColumns, shown, listed, columns, view.sized]
      · simp [SelectionTarget.assumed, shown, listed, columns]

theorem baseColumns_isSome (extra : Nat) {set : SelectionTarget Double Id} :
    (∃ base, baseColumns extra set = some base) ↔ set.Sampled := by
  rcases baseColumns_cases extra set with ⟨shown, made, -⟩ | ⟨⟨view, shown, empty⟩, failed⟩ |
    ⟨view, value, shown, listed, made, -⟩
  · exact iff_of_true ⟨_, made⟩ fun view other => by rw [shown] at other; cases other
  · refine iff_of_false (fun ⟨_, made⟩ => ?_) fun sampled => sampled view shown empty
    rw [failed] at made
    cases made
  · refine iff_of_true ⟨_, made⟩ fun other same => ?_
    obtain rfl := Option.some.inj (shown.symm.trans same)
    exact listed

theorem SelectionTarget.Sampled.length_assumed (sampled : set.Sampled) :
    set.assumed.length = set.types.length := by
  rcases baseColumns_cases 0 set with ⟨shown, -, assumed⟩ | ⟨⟨view, shown, empty⟩, -⟩ |
    ⟨view, value, shown, -, -, assumed⟩
  · simp [assumed, SelectionTarget.types, shown]
  · exact absurd empty (sampled view shown)
  · simp [assumed, SelectionTarget.types, shown]

end

variable [Zero Double] [Sub Double] [LE Double] [DecidableLE Double]

omit [Sub Double] [LE Double] [DecidableLE Double] in
@[simp] theorem type_null (type : ResultType) :
    (CommandResult.null type : CommandResult Double).type = type := by
  cases type <;> rfl

omit [Sub Double] [LE Double] [DecidableLE Double] in
theorem map_null_injective :
    Function.Injective (List.map (CommandResult.null : ResultType → CommandResult Double)) :=
  List.map_injective_iff.mpr (Function.LeftInverse.injective (g := CommandResult.type) type_null)

variable [DecidableEq Id]

def placed (types : List ResultType) (rows : List (Row Double Id)) (last : Id) : List (CommandResult Double) :=
  match rowOf Row.last rows last with
  | some row => row.columns
  | none => types.map CommandResult.null

def own (table : SelectionTarget Double Id → List (Row Double Id)) (last : Id)
    (set : SelectionTarget Double Id) : List (CommandResult Double) :=
  placed set.types (table set) last

def IsDifference (delta a b : CommandResult Double) : Prop :=
  a.type = b.type → a.type.isNumeric = true → a.absDiffValue b = some delta

namespace Comparison

variable (comparison : Comparison Double Id)

def identifiers (table : SelectionTarget Double Id → List (Row Double Id)) : List Id :=
  (comparison.sets.flatMap fun set => (table set).map Row.last).eraseDups

structure RowJoined (table : SelectionTarget Double Id → List (Row Double Id)) (last : Id)
    (row : Row Double Id) : Prop where
  identified : row.last = last
  plain : comparison.computeDelta = false → row.columns = comparison.sets.flatMap (own table last)
  difference : comparison.computeDelta = true →
    ∃ delta, row.columns = delta :: comparison.sets.flatMap (own table last) ∧
      ∀ other ∈ comparison.others, ∀ a b, (own table last comparison.first).head? = some a →
        (own table last other).head? = some b → IsDifference delta a b

structure Joined (report : Report Double Id) : Prop where
  rows : List.Forall₂ (comparison.RowJoined SelectionTarget.rows)
    (comparison.identifiers SelectionTarget.rows) report.rows
  enders : List.Forall₂ (comparison.RowJoined SelectionTarget.enders)
    (comparison.identifiers SelectionTarget.enders) report.enders
  even : ∀ row ∈ report.rows ++ report.enders, row.columns.length + 1 = report.header.length

def Correct : Prop :=
  match comparison.generateCustomView with
  | none => False
  | some none => ∀ set ∈ comparison.sets, set.partialView = none
  | some (some report) => comparison.Joined report

def assumed : List ResultType :=
  (comparison.first.assumed.take comparison.deltaColumns ++ comparison.first.assumed) ++
    comparison.others.flatMap SelectionTarget.assumed

structure DeltaFits (table : SelectionTarget Double Id → List (Row Double Id)) (last : Id) : Prop where
  compared : ∀ other ∈ comparison.others, last ∈ (table other).map Row.last →
    ∀ a b, (own table last comparison.first).head? = some a →
      (own table last other).head? = some b → a.type.isNumeric = true →
      b.type.isNumeric = true → a.type = b.type
  alone : ∀ other ∈ comparison.others, last ∉ (table other).map Row.last →
    ∀ a b, (own table last comparison.first).head? = some a →
      (own table last other).head? = some b → IsDifference a a b

structure RowFits (last : Id) : Prop where
  first : last ∉ comparison.first.rows.map Row.last → comparison.first.types = comparison.first.assumed
  others : ∀ set ∈ comparison.others, last ∉ set.rows.map Row.last →
    set.types = comparison.assumed.take set.types.length
  delta : comparison.computeDelta = true → comparison.DeltaFits SelectionTarget.rows last

structure EnderFits (last : Id) : Prop where
  sets : ∀ set ∈ comparison.sets, last ∉ set.enders.map Row.last → set.types = set.assumed
  delta : comparison.computeDelta = true → comparison.DeltaFits SelectionTarget.enders last

structure Fits : Prop where
  someRow : ∀ set ∈ comparison.sets, ∀ view, set.partialView = some view → view.rows ≠ []
  rows : ∀ last ∈ comparison.identifiers SelectionTarget.rows, comparison.RowFits last
  enders : ∀ last ∈ comparison.identifiers SelectionTarget.enders, comparison.EnderFits last

end Comparison

omit [Sub Double] [LE Double] [DecidableLE Double] [DecidableEq Id] in
theorem map_initOfType (values : List (CommandResult Double)) :
    values.map CommandResult.initOfType = (values.map CommandResult.type).map CommandResult.null := by
  rw [List.map_map]
  rfl

section

omit [Zero Double] [Sub Double] [LE Double] [DecidableLE Double] [DecidableEq Id]

theorem gather_baseColumns {sets : List (SelectionTarget Double Id)}
    {base : List (CommandResult Double)} (made : Fallible.gather (baseColumns 0) sets = some base) :
    base.map CommandResult.type = sets.flatMap SelectionTarget.assumed := by
  induction sets generalizing base with
  | nil =>
    obtain rfl := Option.some.inj made
    rfl
  | cons set rest ih =>
    obtain ⟨lists, ran, rfl⟩ := map_eq_some_iff.mp made
    rw [List.mapM_cons] at ran
    obtain ⟨here, own, others⟩ := bind_eq_some_iff.mp ran
    obtain ⟨more, later, returned⟩ := bind_eq_some_iff.mp others
    obtain rfl := Option.some.inj returned
    have remaining : Fallible.gather (baseColumns 0) rest = some more.flatten := by
      rw [Fallible.gather, later]
      rfl
    rw [List.flatten_cons, map_append, ih remaining, flatMap_cons]
    congr 1
    rcases baseColumns_cases 0 set with ⟨-, made, assumed⟩ | ⟨-, failed⟩ |
      ⟨view, value, -, -, made, assumed⟩
    · obtain rfl := Option.some.inj (own.symm.trans made)
      rw [assumed]
      rfl
    · rw [failed] at own
      cases own
    · obtain rfl := Option.some.inj (own.symm.trans made)
      rw [assumed, List.map_replicate, Nat.zero_add]

variable {comparison : Comparison Double Id}

theorem Comparison.first_isSome (delta : comparison.computeDelta = true) :
    comparison.first.partialView.isSome = true := by
  obtain ⟨other, -, shown, -⟩ := comparison.difference delta
  exact shown

theorem Comparison.baseColumnType_spec (comparison : Comparison Double Id) :
    ((∃ base, comparison.baseColumnType = some base) ↔ ∀ set ∈ comparison.sets, set.Sampled) ∧
      ∀ base, comparison.baseColumnType = some base → base.map CommandResult.type = comparison.assumed := by
  constructor
  · rw [Comparison.sets, forall_mem_cons, ← baseColumns_isSome comparison.deltaColumns]
    have others : (∃ base, Fallible.gather (baseColumns 0) comparison.others = some base) ↔
        ∀ set ∈ comparison.others, set.Sampled := by
      rw [Fallible.gather]
      simp only [map_eq_some_iff, ← baseColumns_isSome 0]
      rw [← Fallible.mapM_isSome]
      constructor
      · rintro ⟨_, lists, ran, _⟩
        exact ⟨lists, ran⟩
      · rintro ⟨lists, ran⟩
        exact ⟨_, lists, ran, rfl⟩
    rw [← others]
    constructor
    · rintro ⟨base, made⟩
      obtain ⟨first, own, rest⟩ := bind_eq_some_iff.mp made
      obtain ⟨more, later, -⟩ := bind_eq_some_iff.mp rest
      exact ⟨⟨first, own⟩, more, later⟩
    · rintro ⟨⟨first, own⟩, more, later⟩
      exact ⟨first ++ more, by simp [Comparison.baseColumnType, own, later]⟩
  · intro base made
    obtain ⟨first, own, rest⟩ := bind_eq_some_iff.mp made
    obtain ⟨more, later, returned⟩ := bind_eq_some_iff.mp rest
    obtain rfl := Option.some.inj returned
    rw [map_append, gather_baseColumns later, Comparison.assumed]
    congr 1
    rcases baseColumns_cases comparison.deltaColumns comparison.first with
      ⟨shown, made, assumed⟩ | ⟨-, failed⟩ | ⟨view, value, -, -, made, assumed⟩
    · obtain rfl := Option.some.inj (own.symm.trans made)
      simp [assumed]
    · rw [failed] at own
      cases own
    · obtain rfl := Option.some.inj (own.symm.trans made)
      have positive := List.length_pos_iff.mpr view.nonempty
      have within : comparison.deltaColumns ≤ view.types.length := by
        rw [Comparison.deltaColumns]
        split <;> omega
      rw [assumed, List.map_replicate, List.take_replicate, Nat.min_eq_left within,
        List.replicate_append_replicate]

end

section

omit [Sub Double] [LE Double] [DecidableLE Double]

variable {rows : List (Row Double Id)} {last : Id} {types : List ResultType}

theorem placed_eq_iff {others : List ResultType} :
    placed types rows last = placed others rows last ↔ (last ∉ rows.map Row.last → types = others) := by
  unfold placed
  cases found : rowOf Row.last rows last with
  | some row =>
    have known : last ∈ rows.map Row.last := by
      by_contra missing
      rw [rowOf_eq_none.mpr missing] at found
      cases found
    exact iff_of_true rfl fun missing => absurd known missing
  | none =>
    rw [map_null_injective.eq_iff]
    exact ⟨fun same _ => same, fun same => same (rowOf_eq_none.mp found)⟩

omit [Zero Double] in
theorem mem_of_rowOf {row : Row Double Id} (found : rowOf Row.last rows last = some row) :
    row ∈ rows := List.mem_of_find?_eq_some found

theorem length_placed {size : Nat} (sized : ∀ row ∈ rows, row.columns.length = size)
    (length : types.length = size) : (placed types rows last).length = size := by
  unfold placed
  cases found : rowOf Row.last rows last with
  | some row => exact sized row (mem_of_rowOf found)
  | none => rw [List.length_map, length]

theorem flatMap_eq_iff {Item Value : Type} {first second : Item → List Value} {items : List Item}
    (lengths : ∀ item ∈ items, (first item).length = (second item).length) :
    items.flatMap first = items.flatMap second ↔ ∀ item ∈ items, first item = second item := by
  induction items with
  | nil => simp
  | cons item rest ih =>
    rw [forall_mem_cons] at lengths ⊢
    rw [flatMap_cons, flatMap_cons, ← ih lengths.2]
    exact ⟨fun same => List.append_inj same lengths.1, fun same => by rw [same.1, same.2]⟩

end

section

omit [Sub Double] [LE Double] [DecidableLE Double]

variable {comparison : Comparison Double Id} {base : List (CommandResult Double)} {last : Id}
  {table : SelectionTarget Double Id → List (Row Double Id)}

omit [DecidableEq Id] in
theorem map_take_base (made : base.map CommandResult.type = comparison.assumed) (size : Nat) :
    (base.take size).map CommandResult.initOfType = (comparison.assumed.take size).map CommandResult.null := by
  rw [map_initOfType, List.map_take, made]

theorem firstColumns_eq (made : base.map CommandResult.type = comparison.assumed)
    (sampled : comparison.first.Sampled)
    (sized : ∀ row ∈ table comparison.first, row.columns.length = comparison.first.types.length) :
    firstColumns comparison.computeDelta base comparison.first.numColumns
        (rowOf Row.last (table comparison.first) last) =
      (placed comparison.first.assumed (table comparison.first) last).take comparison.deltaColumns ++
        placed comparison.first.assumed (table comparison.first) last := by
  unfold placed
  rw [SelectionTarget.numColumns_eq]
  cases found : rowOf Row.last (table comparison.first) last with
  | some row =>
    have length := sized row (mem_of_rowOf found)
    rw [firstColumns, ← length, List.take_length, Comparison.deltaColumns]
    split <;> simp
  | none =>
    have length := sampled.length_assumed
    have prefixLength : (comparison.first.assumed.take comparison.deltaColumns ++
        comparison.first.assumed).length = (if comparison.computeDelta then 1 else 0) +
          comparison.first.types.length := by
      rw [length_append, length_take, length, Comparison.deltaColumns]
      by_cases delta : comparison.computeDelta = true
      · have shown := Comparison.first_isSome delta
        obtain ⟨view, partialView⟩ := Option.isSome_iff_exists.mp shown
        have positive : 0 < comparison.first.types.length := by
          rw [SelectionTarget.types, partialView]
          exact List.length_pos_iff.mpr view.nonempty
        rw [if_pos delta]
        omega
      · rw [if_neg delta]
        omega
    rw [firstColumns, map_take_base made, Comparison.assumed, ← prefixLength, List.take_left,
      map_append, List.map_take]

omit [Zero Double] in
theorem zipWith_lookup {master : List Id} {maps : List (List (Nat × Row Double Id))}
    {sets : List (SelectionTarget Double Id)}
    (mapped : List.Forall₂ (Maps Row.last master) (sets.map table) maps) {place : Nat}
    (here : master[place]? = some last) :
    List.zipWith (fun set entries => (set.numColumns, entries.lookup place)) sets maps =
      sets.map fun set => (set.types.length, rowOf Row.last (table set) last) := by
  induction sets generalizing maps with
  | nil => rfl
  | cons set rest ih =>
    rw [List.map_cons, List.forall₂_cons_left_iff] at mapped
    obtain ⟨entries, others, first, later, rfl⟩ := mapped
    rw [List.zipWith_cons_cons, List.map_cons, ih later, first place, here, SelectionTarget.numColumns_eq]
    rfl

end

omit [Zero Double] in
theorem absDiffValue_isSome {a b : CommandResult Double} (numeric : a.type.isNumeric = true) :
    (∃ delta, a.absDiffValue b = some delta) ↔ a.type = b.type := by
  cases a <;> cases b <;>
    simp_all [CommandResult.absDiffValue, CommandResult.type, ResultType.isNumeric]

omit [Zero Double] in
theorem columnAbsDiff_isSome {delta a : CommandResult Double} :
    (∃ changed, columnAbsDiff delta a = some changed) ↔
      (delta.type.isNumeric = true → a.type.isNumeric = true → delta.type = a.type) := by
  unfold columnAbsDiff
  by_cases numeric : a.type.isNumeric = true
  · rw [if_pos numeric]
    by_cases both : delta.type.isNumeric = true
    · rw [if_pos both, absDiffValue_isSome both]
      exact ⟨fun same _ _ => same, fun same => same both numeric⟩
    · rw [if_neg both]
      exact iff_of_true ⟨a, rfl⟩ fun other => absurd other both
  · rw [if_neg numeric]
    exact iff_of_true ⟨delta, rfl⟩ fun _ other => absurd other numeric

omit [Zero Double] in
theorem columnAbsDiff_isDifference {delta a changed : CommandResult Double}
    (found : columnAbsDiff delta a = some changed) : IsDifference changed delta a := by
  intro same numeric
  rw [columnAbsDiff, if_pos (same ▸ numeric), if_pos numeric] at found
  exact found

section

variable {comparison : Comparison Double Id} {last : Id}
  {table : SelectionTarget Double Id → List (Row Double Id)}

def Sized (table : SelectionTarget Double Id → List (Row Double Id)) : Prop :=
  ∀ set, ∀ row ∈ table set, row.columns.length = set.types.length

variable (last) in
theorem joined_plain (sized : Sized table) (plain : comparison.computeDelta = false)
    (assumed : comparison.first.assumed.length = comparison.first.types.length)
    {made : SelectionTarget Double Id → List ResultType}
    (lengths : ∀ set ∈ comparison.others, (made set).length = set.types.length) :
    comparison.RowJoined table last ⟨placed comparison.first.assumed (table comparison.first) last ++
          comparison.others.flatMap fun set => placed (made set) (table set) last, last⟩ ↔
      (last ∉ (table comparison.first).map Row.last → comparison.first.types = comparison.first.assumed) ∧
        ∀ set ∈ comparison.others, last ∉ (table set).map Row.last → set.types = made set := by
  have firstLength : (placed comparison.first.assumed (table comparison.first) last).length =
      (own table last comparison.first).length := by
    rw [own, length_placed (sized _) assumed, length_placed (sized _) rfl]
  have otherLengths : ∀ set ∈ comparison.others,
      (placed (made set) (table set) last).length = (own table last set).length := by
    intro set member
    rw [own, length_placed (sized _) (lengths set member), length_placed (sized _) rfl]
  have joined : comparison.RowJoined table last
      ⟨placed comparison.first.assumed (table comparison.first) last ++
        comparison.others.flatMap fun set => placed (made set) (table set) last, last⟩ ↔
      placed comparison.first.assumed (table comparison.first) last ++
        (comparison.others.flatMap fun set => placed (made set) (table set) last) =
          own table last comparison.first ++ comparison.others.flatMap (own table last) := by
    constructor
    · intro row
      exact row.plain plain
    · intro same
      refine ⟨rfl, fun _ => same, fun delta => ?_⟩
      rw [plain] at delta
      cases delta
  rw [joined]
  constructor
  · intro same
    obtain ⟨first, others⟩ := List.append_inj same firstLength
    rw [flatMap_eq_iff otherLengths] at others
    refine ⟨placed_eq_iff.mp first.symm, fun set member => ?_⟩
    exact placed_eq_iff.mp (others set member).symm
  · rintro ⟨first, others⟩
    have firstSame := placed_eq_iff.mpr first
    rw [own, firstSame]
    congr 1
    rw [flatMap_eq_iff otherLengths]
    intro set member
    exact (placed_eq_iff.mpr (others set member)).symm

variable {other : SelectionTarget Double Id}

theorem joined_delta_iff (sized : Sized table)
    (delta : comparison.computeDelta = true) (only : comparison.others = [other])
    {difference : CommandResult Double} {first second : List (CommandResult Double)}
    (firstLength : first.length = comparison.first.types.length)
    (secondLength : second.length = other.types.length) :
    comparison.RowJoined table last ⟨difference :: (first ++ second), last⟩ ↔
      first = own table last comparison.first ∧ second = own table last other ∧
        ∀ a b, (own table last comparison.first).head? = some a →
          (own table last other).head? = some b → IsDifference difference a b := by
  have columns : comparison.sets.flatMap (own table last) =
      own table last comparison.first ++ own table last other := by
    rw [Comparison.sets, only]
    simp
  have lengths : first.length = (own table last comparison.first).length := by
    rw [firstLength, own, length_placed (sized _) rfl]
  constructor
  · intro joined
    obtain ⟨found, whole, differs⟩ := joined.difference delta
    obtain ⟨rfl, same⟩ : difference = found ∧
        first ++ second = comparison.sets.flatMap (own table last) := List.cons.inj whole
    rw [columns] at same
    obtain ⟨rfl, rfl⟩ := List.append_inj same lengths
    refine ⟨rfl, rfl, fun a b => differs other ?_ a b⟩
    rw [only]
    exact List.mem_singleton_self other
  · rintro ⟨rfl, rfl, differs⟩
    refine ⟨rfl, fun plain => ?_, fun _ => ⟨difference, by rw [columns], ?_⟩⟩
    · rw [delta] at plain
      cases plain
    · intro set member
      rw [only, List.mem_singleton] at member
      rw [member]
      exact differs

variable {row : Row Double Id} {rows : List (Row Double Id)}

omit [Zero Double] [Sub Double] [LE Double] [DecidableLE Double] in
theorem known_of_rowOf (found : rowOf Row.last rows last = some row) : last ∈ rows.map Row.last := by
  by_contra missing
  rw [rowOf_eq_none.mpr missing] at found
  cases found

def deltaColumns (first : List (CommandResult Double)) (made : List ResultType)
    (row : Option (Row Double Id)) : Option (List (CommandResult Double)) :=
  match row with
  | some row => (changeDelta true (first.take 1 ++ first) row.columns.head?).map (· ++ row.columns)
  | none => some (first.take 1 ++ first ++ made.map CommandResult.null)

variable (last) in
theorem deltaColumns_iff (sized : Sized table)
    (delta : comparison.computeDelta = true) (only : comparison.others = [other])
    (assumed : comparison.first.assumed.length = comparison.first.types.length)
    (nonempty : comparison.first.types ≠ []) (otherNonempty : other.types ≠ [])
    {made : List ResultType} (madeLength : made.length = other.types.length) :
    (∃ columns, deltaColumns (placed comparison.first.assumed (table comparison.first) last) made
        (rowOf Row.last (table other) last) = some columns ∧
        comparison.RowJoined table last ⟨columns, last⟩) ↔
      (last ∉ (table comparison.first).map Row.last → comparison.first.types = comparison.first.assumed) ∧
        (last ∉ (table other).map Row.last → other.types = made) ∧ comparison.DeltaFits table last := by
  have firstLength : (placed comparison.first.assumed (table comparison.first) last).length =
      comparison.first.types.length := length_placed (sized _) assumed
  have fits : comparison.DeltaFits table last ↔
      (last ∈ (table other).map Row.last → ∀ a b,
          (own table last comparison.first).head? = some a →
          (own table last other).head? = some b → a.type.isNumeric = true →
          b.type.isNumeric = true → a.type = b.type) ∧
        (last ∉ (table other).map Row.last → ∀ a b,
          (own table last comparison.first).head? = some a →
          (own table last other).head? = some b → IsDifference a a b) := by
    constructor
    · intro fits
      have member : other ∈ comparison.others := by
        rw [only]
        exact List.mem_singleton_self other
      exact ⟨fits.compared other member, fits.alone other member⟩
    · rintro ⟨compared, alone⟩
      refine ⟨fun set member => ?_, fun set member => ?_⟩ <;>
        rw [only, List.mem_singleton] at member <;> subst member
      · exact compared
      · exact alone
  rw [fits, ← placed_eq_iff]
  have firstOwn : own table last comparison.first =
      placed comparison.first.types (table comparison.first) last := rfl
  rw [← firstOwn]
  generalize placed comparison.first.assumed (table comparison.first) last = first at firstLength ⊢
  have positive := List.length_pos_iff.mpr nonempty
  obtain ⟨value, values, rfl⟩ : ∃ value values, first = value :: values := by
    cases first with
    | nil =>
      rw [List.length_nil] at firstLength
      omega
    | cons value values => exact ⟨value, values, rfl⟩
  cases found : rowOf Row.last (table other) last with
  | some row =>
    have known := known_of_rowOf found
    have ownOther : own table last other = row.columns := by
      rw [own, placed, found]
    have rowLength := sized other row (mem_of_rowOf found)
    have rowPositive := List.length_pos_iff.mpr otherNonempty
    obtain ⟨b, bs, columns⟩ : ∃ b bs, row.columns = b :: bs := by
      cases columns : row.columns with
      | nil =>
        rw [columns, List.length_nil] at rowLength
        omega
      | cons b bs => exact ⟨b, bs, rfl⟩
    have changed : deltaColumns (value :: values) made (some row) =
        (columnAbsDiff value b).map fun difference =>
          difference :: ((value :: values) ++ row.columns) := by
      simp [deltaColumns, changeDelta, columns, Function.comp_def]
    rw [changed, ownOther, columns, List.head?_cons]
    constructor
    · rintro ⟨_, made, joined⟩
      obtain ⟨difference, different, rfl⟩ := Option.map_eq_some_iff.mp made
      rw [← columns, joined_delta_iff sized delta only firstLength rowLength] at joined
      obtain ⟨same, -, -⟩ := joined
      refine ⟨same.symm, fun missing => absurd known missing, fun _ a b' first second => ?_,
        fun missing => absurd known missing⟩
      rw [← same, List.head?_cons] at first
      obtain rfl := Option.some.inj first
      obtain rfl := Option.some.inj second
      exact columnAbsDiff_isSome.mp ⟨difference, different⟩
    · rintro ⟨same, -, compared, -⟩
      obtain ⟨difference, different⟩ := columnAbsDiff_isSome.mpr
        (compared known value b (by rw [same]; rfl) rfl)
      refine ⟨_, Option.map_eq_some_iff.mpr ⟨difference, different, rfl⟩, ?_⟩
      rw [← columns, joined_delta_iff sized delta only firstLength rowLength]
      refine ⟨same.symm, ownOther.symm, fun a b' first second => ?_⟩
      rw [same, List.head?_cons] at first
      rw [ownOther, columns, List.head?_cons] at second
      obtain rfl := Option.some.inj first
      obtain rfl := Option.some.inj second
      exact columnAbsDiff_isDifference different
  | none =>
    have missing := rowOf_eq_none.mp found
    have ownOther : own table last other = other.types.map CommandResult.null := by
      rw [own, placed, found]
    have placeLength : (made.map (CommandResult.null : ResultType → CommandResult Double)).length =
        other.types.length := by rw [List.length_map, madeLength]
    have columns : deltaColumns (value :: values) made (none : Option (Row Double Id)) =
        some (value :: ((value :: values) ++ made.map CommandResult.null)) := rfl
    rw [columns]
    constructor
    · rintro ⟨_, made, joined⟩
      obtain rfl := Option.some.inj made
      rw [joined_delta_iff sized delta only firstLength placeLength, ownOther] at joined
      obtain ⟨same, types, differs⟩ := joined
      refine ⟨same.symm, fun _ => (map_null_injective types).symm, fun known => absurd known missing,
        fun _ a b first second => ?_⟩
      have start := first
      rw [← same, List.head?_cons] at start
      obtain rfl := Option.some.inj start
      exact differs value b first (ownOther ▸ second)
    · rintro ⟨same, types, -, alone⟩
      refine ⟨_, rfl, ?_⟩
      rw [joined_delta_iff sized delta only firstLength placeLength, ownOther, types missing]
      refine ⟨same.symm, rfl, fun a b first second => ?_⟩
      have start := first
      rw [same, List.head?_cons] at start
      obtain rfl := Option.some.inj start
      exact alone missing value b first (by rw [ownOther, types missing, second])

omit [Zero Double] in
omit [Sub Double] [LE Double] [DecidableLE Double] in
theorem masters_spec (comparison : Comparison Double Id)
    (distinct : ∀ set, ((table set).map Row.last).Nodup) :
    let masters := enterTables Row.last ((table comparison.first).map Row.last) (comparison.others.map table)
    masters.1 = comparison.identifiers table ∧ ∀ (place : Nat) (last : Id),
      masters.1[place]? = some last →
        (table comparison.first)[place]? = rowOf Row.last (table comparison.first) last ∧
        comparison.entriesAt masters.2 place =
          comparison.others.map fun set => (set.types.length, rowOf Row.last (table set) last) := by
  have apart : ∀ rows ∈ comparison.others.map table, (rows.map Row.last).Nodup := by
    intro rows member
    obtain ⟨set, -, rfl⟩ := List.mem_map.mp member
    exact distinct set
  obtain ⟨keys, ⟨more, extended⟩, nodup, mapped⟩ :=
    enterTables_maps (distinct comparison.first) apart
  refine ⟨?_, fun place last here => ⟨?_, zipWith_lookup mapped here⟩⟩
  · rw [keys, foldl_union (distinct comparison.first)]
    · simp [Comparison.identifiers, Comparison.sets, List.flatMap, Function.comp_def]
    · intro list member
      obtain ⟨rows, inTables, rfl⟩ := List.mem_map.mp member
      exact apart rows inTables
  · rw [extended] at here nodup
    rw [getElem?_first nodup place, here]
    rfl

variable {set : SelectionTarget Double Id}

omit [Zero Double] [Sub Double] [LE Double] [DecidableLE Double] [DecidableEq Id] in
theorem take_columns (length : row.columns.length = set.types.length) :
    row.columns.take set.types.length = row.columns := by
  rw [← length, List.take_length]

variable {base : List (CommandResult Double)}

theorem foldlM_addColumns (sized : Sized table) (made : base.map CommandResult.type = comparison.assumed)
    (sets : List (SelectionTarget Double Id)) :
    ∀ columns, (sets.map fun set => (set.types.length, rowOf Row.last (table set) last)).foldlM
        (addColumns false base) columns = some (columns ++ sets.flatMap fun set =>
        placed (comparison.assumed.take set.types.length) (table set) last) := by
  induction sets with
  | nil => simp
  | cons set rest ih =>
    intro columns
    have stepped : addColumns false base columns
        (set.types.length, rowOf Row.last (table set) last) =
          some (columns ++ placed (comparison.assumed.take set.types.length) (table set) last) := by
      unfold addColumns placed
      cases found : rowOf Row.last (table set) last with
      | some row => simp [changeDelta, take_columns (sized set row (mem_of_rowOf found))]
      | none => simp only [map_take_base made]
    rw [List.map_cons, List.foldlM_cons, stepped, flatMap_cons, ← List.append_assoc]
    exact ih _

variable (last) in
theorem foldlM_addEnders (sized : Sized table)
    (sets : List (SelectionTarget Double Id)) (sampled : ∀ set ∈ sets, set.Sampled) :
    ∀ (before : List ResultType) (columns : List (CommandResult Double)),
      base.map CommandResult.type = before ++ sets.flatMap SelectionTarget.assumed →
      ∃ next, (sets.map fun set => (set.types.length, rowOf Row.last (table set) last)).foldlM
          (addEnders false base) (columns, before.length) =
        some (columns ++ sets.flatMap fun set => placed set.assumed (table set) last, next) := by
  induction sets with
  | nil =>
    intro before columns made
    exact ⟨before.length, by simp⟩
  | cons set rest ih =>
    intro before columns made
    rw [List.forall_mem_cons] at sampled
    have length := sampled.1.length_assumed
    have stepped : addEnders false base (columns, before.length)
        (set.types.length, rowOf Row.last (table set) last) =
          some (columns ++ placed set.assumed (table set) last, (before ++ set.assumed).length) := by
      unfold addEnders placed
      rw [List.length_append, length]
      cases found : rowOf Row.last (table set) last with
      | some row => simp [changeDelta, take_columns (sized set row (mem_of_rowOf found))]
      | none =>
        have slice : ((base.drop before.length).take set.types.length).map
            CommandResult.type = set.assumed := by
          rw [List.map_take, List.map_drop, made, List.drop_left, List.flatMap_cons, ← length, List.take_left]
        simp only [map_initOfType, slice]
    rw [List.map_cons, List.foldlM_cons, stepped, List.flatMap_cons, ← List.append_assoc]
    refine ih sampled.2 (before ++ set.assumed) _ ?_
    rw [made, List.flatMap_cons, List.append_assoc]

omit [Zero Double] [Sub Double] [LE Double] [DecidableLE Double] [DecidableEq Id] in
theorem types_ne_nil (shown : set.partialView.isSome = true) : set.types ≠ [] := by
  obtain ⟨view, partialView⟩ := Option.isSome_iff_exists.mp shown
  rw [SelectionTarget.types, partialView]
  exact view.nonempty

theorem foldlM_singleton {State Item : Type} (step : State → Item → Option State) (state : State)
    (item : Item) : [item].foldlM step state = step state item := by
  rw [List.foldlM_cons]
  cases step state item <;> rfl

theorem map_bind_pure {First Second Third : Type} (value : Option First) (step : First → Second)
    (map : Second → Third) :
    (value >>= fun first => pure (step first)).map map = value.map fun first => map (step first) := by
  cases value <;> rfl

omit [Zero Double] [Sub Double] [LE Double] [DecidableLE Double] [DecidableEq Id] in
theorem take_deltaColumns (comparison : Comparison Double Id) (columns : List (CommandResult Double)) :
    columns.take comparison.deltaColumns ++ columns =
      if comparison.computeDelta = true then columns.take 1 ++ columns else columns := by
  rw [Comparison.deltaColumns]
  split <;> simp

omit [Zero Double] [Sub Double] [LE Double] [DecidableLE Double] [DecidableEq Id] in
theorem sized_rows : Sized (SelectionTarget.rows : _ → List (Row Double Id)) :=
  fun _ _ member => SelectionTarget.length_row member

omit [Zero Double] [Sub Double] [LE Double] [DecidableLE Double] [DecidableEq Id] in
theorem sized_enders : Sized (SelectionTarget.enders : _ → List (Row Double Id)) :=
  fun _ _ member => SelectionTarget.length_ender member

section

variable {base : List (CommandResult Double)} {place : Nat}

section

variable (sampled : ∀ set ∈ comparison.sets, set.Sampled)
  (made : base.map CommandResult.type = comparison.assumed)
include sampled made

theorem mergeRow_iff (here : comparison.masters.1[place]? = some last) :
    (∃ row, comparison.mergeRow base place last = some row ∧
        comparison.RowJoined SelectionTarget.rows last row) ↔ comparison.RowFits last := by
  rw [Comparison.sets, forall_mem_cons] at sampled
  have assumed := sampled.1.length_assumed
  obtain ⟨-, places⟩ := masters_spec comparison SelectionTarget.nodup_rows
  obtain ⟨own, entries⟩ := places place last here
  have entriesEq : comparison.entriesAt comparison.masters.2 place = _ := entries
  rw [Comparison.mergeRow, own, entriesEq, firstColumns_eq made sampled.1 (sized_rows _), take_deltaColumns]
  by_cases delta : comparison.computeDelta = true
  · rw [if_pos delta]
    obtain ⟨other, only, shown, otherShown⟩ := comparison.difference delta
    have lengths : (comparison.assumed.take other.types.length).length = other.types.length := by
      have otherSampled : other.Sampled := sampled.2 other (by rw [only]; exact List.mem_singleton_self _)
      rw [length_take, Comparison.assumed, only, length_append]
      simp only [flatMap_cons, List.flatMap_nil, List.append_nil, otherSampled.length_assumed]
      omega
    have merged : addColumns comparison.computeDelta base
        ((placed comparison.first.assumed comparison.first.rows last).take 1 ++
          placed comparison.first.assumed comparison.first.rows last)
        (other.types.length, rowOf Row.last other.rows last) =
          deltaColumns (placed comparison.first.assumed comparison.first.rows last)
            (comparison.assumed.take other.types.length) (rowOf Row.last other.rows last) := by
      unfold addColumns deltaColumns
      cases found : rowOf Row.last other.rows last with
      | some row =>
        simp only [take_columns (SelectionTarget.length_row (mem_of_rowOf found)), delta]
        exact Option.map_eq_bind.symm
      | none => simp only [map_take_base made]
    have iff := deltaColumns_iff last sized_rows delta only assumed (types_ne_nil shown)
      (types_ne_nil otherShown) lengths
    rw [only, List.map_singleton, foldlM_singleton, merged]
    constructor
    · rintro ⟨row, ran, joined⟩
      obtain ⟨columns, found, returned⟩ := bind_eq_some_iff.mp ran
      obtain rfl := Option.some.inj returned
      obtain ⟨first, second, fits⟩ := iff.mp ⟨columns, found, joined⟩
      refine ⟨first, fun set member => ?_, fun _ => fits⟩
      rw [only, List.mem_singleton] at member
      rw [member]
      exact second
    · intro fits
      have second := fits.others other (by rw [only]; exact List.mem_singleton_self _)
      obtain ⟨columns, found, joined⟩ := iff.mpr ⟨fits.first, second, fits.delta delta⟩
      exact ⟨_, by rw [found]; rfl, joined⟩
  · rw [if_neg delta]
    have plain : comparison.computeDelta = false := by simpa using delta
    rw [plain, foldlM_addColumns sized_rows made]
    have lengths : ∀ set ∈ comparison.others,
        (comparison.assumed.take set.types.length).length = set.types.length := by
      intro set member
      have long : set.assumed.length ≤ (comparison.others.flatMap SelectionTarget.assumed).length :=
        (List.sublist_flatten_of_mem (List.mem_map_of_mem member)).length_le
      rw [(sampled.2 set member).length_assumed] at long
      rw [length_take, Comparison.assumed, length_append]
      omega
    have iff := joined_plain last sized_rows plain assumed lengths
    constructor
    · rintro ⟨row, ran, joined⟩
      obtain rfl := Option.some.inj ran
      obtain ⟨first, others⟩ := iff.mp joined
      exact ⟨first, others, fun other => absurd other delta⟩
    · intro fits
      exact ⟨_, rfl, iff.mpr ⟨fits.first, fits.others⟩⟩

theorem mergeEnder_iff (here : comparison.enderMasters.1[place]? = some last) :
    (∃ row, comparison.mergeEnder base place last = some row ∧
        comparison.RowJoined SelectionTarget.enders last row) ↔ comparison.EnderFits last := by
  rw [Comparison.sets, forall_mem_cons] at sampled
  have assumed := sampled.1.length_assumed
  obtain ⟨-, places⟩ := masters_spec comparison SelectionTarget.nodup_enders
  obtain ⟨own, entries⟩ := places place last here
  have entriesEq : comparison.entriesAt comparison.enderMasters.2 place = _ := entries
  rw [Comparison.mergeEnder, own, entriesEq, firstColumns_eq made sampled.1 (sized_enders _),
    take_deltaColumns, SelectionTarget.numColumns_eq]
  by_cases delta : comparison.computeDelta = true
  · rw [if_pos delta]
    obtain ⟨other, only, shown, otherShown⟩ := comparison.difference delta
    have otherSampled : other.Sampled := sampled.2 other (by rw [only]; exact List.mem_singleton_self _)
    have lengths := otherSampled.length_assumed
    have before : (comparison.first.assumed.take comparison.deltaColumns ++
        comparison.first.assumed).length = comparison.deltaColumns + comparison.first.types.length := by
      have positive := List.length_pos_iff.mpr (types_ne_nil shown)
      rw [length_append, length_take, assumed, Comparison.deltaColumns, if_pos delta]
      omega
    have slice : ((base.drop (comparison.deltaColumns + comparison.first.types.length)).take
        other.types.length).map CommandResult.type = other.assumed := by
      rw [List.map_take, List.map_drop, made, Comparison.assumed, ← before, List.drop_left, only, ← lengths]
      simp
    have merged : (addEnders comparison.computeDelta base
        ((placed comparison.first.assumed comparison.first.enders last).take 1 ++
          placed comparison.first.assumed comparison.first.enders last,
          comparison.deltaColumns + comparison.first.types.length)
        (other.types.length, rowOf Row.last other.enders last)).map Prod.fst =
          deltaColumns (placed comparison.first.assumed comparison.first.enders last)
            other.assumed (rowOf Row.last other.enders last) := by
      unfold addEnders deltaColumns
      cases found : rowOf Row.last other.enders last with
      | some row =>
        simp only [take_columns (SelectionTarget.length_ender (mem_of_rowOf found)), delta]
        exact map_bind_pure _ _ _
      | none => simp only [Option.map_some, map_initOfType, slice]
    have iff := deltaColumns_iff last sized_enders delta only assumed (types_ne_nil shown)
      (types_ne_nil otherShown) lengths
    rw [only, List.map_singleton, foldlM_singleton]
    rw [← merged] at iff
    have sets : (∀ set ∈ comparison.sets, last ∉ set.enders.map Row.last →
        set.types = set.assumed) ↔
          (last ∉ comparison.first.enders.map Row.last → comparison.first.types = comparison.first.assumed) ∧
          (last ∉ other.enders.map Row.last → other.types = other.assumed) := by
      rw [Comparison.sets, only]
      simp
    constructor
    · rintro ⟨row, ran, joined⟩
      obtain ⟨state, found, returned⟩ := bind_eq_some_iff.mp ran
      obtain rfl := Option.some.inj returned
      obtain ⟨first, second, fits⟩ := iff.mp ⟨state.1, by rw [found]; rfl, joined⟩
      exact ⟨sets.mpr ⟨first, second⟩, fun _ => fits⟩
    · intro fits
      obtain ⟨first, second⟩ := sets.mp fits.sets
      obtain ⟨columns, found, joined⟩ := iff.mpr ⟨first, second, fits.delta delta⟩
      obtain ⟨state, ran, rfl⟩ := map_eq_some_iff.mp found
      exact ⟨_, by rw [ran]; rfl, joined⟩
  · rw [if_neg delta]
    have plain : comparison.computeDelta = false := by simpa using delta
    have before : comparison.deltaColumns + comparison.first.types.length =
        (comparison.first.assumed.take comparison.deltaColumns ++ comparison.first.assumed).length := by
      rw [length_append, length_take, assumed, Comparison.deltaColumns, if_neg delta]
      omega
    obtain ⟨next, ran⟩ := foldlM_addEnders last sized_enders comparison.others sampled.2
      (comparison.first.assumed.take comparison.deltaColumns ++ comparison.first.assumed)
      (placed comparison.first.assumed comparison.first.enders last) made
    rw [plain, before, ran]
    have iff := joined_plain last sized_enders plain assumed fun set member =>
      (sampled.2 set member).length_assumed
    constructor
    · rintro ⟨row, ran, joined⟩
      obtain rfl := Option.some.inj ran
      obtain ⟨first, others⟩ := iff.mp joined
      refine ⟨?_, fun other => absurd other delta⟩
      rw [Comparison.sets, forall_mem_cons]
      exact ⟨first, others⟩
    · intro fits
      have sets := fits.sets
      rw [Comparison.sets, forall_mem_cons] at sets
      exact ⟨_, rfl, iff.mpr sets⟩

end

end

omit [Zero Double] [Sub Double] [LE Double] [DecidableLE Double] [DecidableEq Id] in
theorem mergeAll_iff (merge : Nat → Id → Option (Row Double Id))
    (wanted : Id → Row Double Id → Prop) (master : List Id) :
    (∃ rows, Comparison.mergeAll merge master = some rows ∧ List.Forall₂ wanted master rows) ↔
      ∀ (place : Nat) (last : Id), master[place]? = some last →
        ∃ row, merge place last = some row ∧ wanted last row := by
  have each : (∃ rows, (master.zipIdx.mapM fun item => merge item.2 item.1) = some rows ∧
      List.Forall₂ (fun item row => wanted item.1 row) master.zipIdx rows) ↔
      ∀ item ∈ master.zipIdx, ∃ row, merge item.2 item.1 = some row ∧ wanted item.1 row :=
    Fallible.mapM_forall₂
  simp only [← List.forall₂_map_left_iff (f := Prod.fst), List.zipIdx_map_fst] at each
  rw [Comparison.mergeAll, each]
  constructor
  · intro all place last here
    exact all (last, place) (List.mem_zipIdx_iff_getElem?.mpr here)
  · intro all item member
    exact all item.2 item.1 (List.mem_zipIdx_iff_getElem?.mp member)

omit [Zero Double] [Sub Double] [LE Double] [DecidableLE Double] [DecidableEq Id] in
theorem wanted_of_mem {wanted : Id → Row Double Id → Prop} {keys : List Id}
    (all : List.Forall₂ wanted keys rows) (member : row ∈ rows) : ∃ last, wanted last row := by
  induction all with
  | nil => cases member
  | cons here _ ih =>
    rcases List.mem_cons.mp member with rfl | later
    · exact ⟨_, here⟩
    · exact ih later

theorem length_addHeaders (headerPrefix : String) (header : List String) :
    ∀ headers, (addHeaders headerPrefix header (headers, false)).1.length =
        headers.length + header.length ∧ (addHeaders headerPrefix header (headers, false)).2 = false := by
  induction header with
  | nil => exact fun _ => ⟨rfl, rfl⟩
  | cons s rest ih =>
    intro headers
    obtain ⟨length, done⟩ := ih (headers ++ [] ++ [prefixed headerPrefix s])
    refine ⟨?_, done⟩
    rw [addHeaders, if_neg (by simp), length]
    simp only [length_append, List.length_cons, List.length_nil]
    omega

omit [Zero Double] [Sub Double] [LE Double] [DecidableLE Double] [DecidableEq Id] in
theorem length_foldl_addHeaders (sets : List (SelectionTarget Double Id)) : ∀ headers,
    (sets.foldl (fun state set => addHeaders set.headerPrefix set.header state)
      (headers, false)).1.length = headers.length + (sets.map fun set => set.types.length).sum := by
  induction sets with
  | nil => simp
  | cons set rest ih =>
    intro headers
    obtain ⟨length, done⟩ := length_addHeaders set.headerPrefix set.header headers
    have state : addHeaders set.headerPrefix set.header (headers, false) =
        ((addHeaders set.headerPrefix set.header (headers, false)).1, false) := Prod.ext rfl done
    have columns : set.header.length = set.types.length := set.numColumns_eq
    rw [List.foldl_cons, state, ih, length, List.map_cons, List.sum_cons, columns]
    omega

omit [Zero Double] [Sub Double] [LE Double] [DecidableLE Double] [DecidableEq Id] in
theorem length_headers (comparison : Comparison Double Id) : comparison.headers.length =
      comparison.deltaColumns + (comparison.sets.map fun set => set.types.length).sum := by
  rw [Comparison.headers, Comparison.deltaColumns]
  by_cases delta : comparison.computeDelta = true
  · have columns : comparison.first.header.length = comparison.first.types.length :=
      comparison.first.numColumns_eq
    have positive := List.length_pos_iff.mpr (types_ne_nil (comparison.first_isSome delta))
    rw [delta, if_pos rfl, Comparison.sets, List.foldl_cons]
    cases header : comparison.first.header with
    | nil =>
      rw [header, List.length_nil] at columns
      omega
    | cons s rest =>
      rw [header, List.length_cons] at columns
      rw [addHeaders]
      obtain ⟨length, done⟩ := length_addHeaders comparison.first.headerPrefix rest
        ([] ++ ["Difference Between " ++ s] ++ [prefixed comparison.first.headerPrefix s])
      have state : addHeaders comparison.first.headerPrefix rest
          ([] ++ ["Difference Between " ++ s] ++ [prefixed comparison.first.headerPrefix s], false) =
            ((addHeaders comparison.first.headerPrefix rest
              ([] ++ ["Difference Between " ++ s] ++ [prefixed comparison.first.headerPrefix s],
                false)).1, false) := Prod.ext rfl done
      rw [if_pos rfl, state, length_foldl_addHeaders, length, List.map_cons, List.sum_cons, ← columns]
      simp only [List.length_append, List.length_cons, List.length_nil]
      omega
  · rw [if_neg delta, Bool.not_eq_true] at *
    rw [delta, length_foldl_addHeaders, List.length_nil]

theorem length_joined (sized : Sized table) (joined : comparison.RowJoined table last row) :
    row.columns.length = comparison.deltaColumns + (comparison.sets.map fun set => set.types.length).sum := by
  have whole : (comparison.sets.flatMap (own table last)).length =
      (comparison.sets.map fun set => set.types.length).sum := by
    rw [List.length_flatMap]
    congr 1
    apply List.map_congr_left
    intro set _
    exact length_placed (sized set) rfl
  rw [Comparison.deltaColumns]
  by_cases delta : comparison.computeDelta = true
  · obtain ⟨difference, columns, -⟩ := joined.difference delta
    rw [columns, List.length_cons, whole, if_pos delta]
    omega
  · rw [joined.plain (by simpa using delta), whole, if_neg delta, Nat.zero_add]

theorem Comparison.fits_of_none (comparison : Comparison Double Id)
    (none : ∀ set ∈ comparison.sets, set.partialView = none) : comparison.Fits := by
  have empty : ∀ table : SelectionTarget Double Id → List (Row Double Id),
      (∀ set ∈ comparison.sets, table set = []) → comparison.identifiers table = [] := by
    intro table noRows
    have nothing : (comparison.sets.flatMap fun set => (table set).map Row.last) = [] := by
      rw [List.flatMap_eq_nil_iff]
      intro set member
      rw [noRows set member]
      rfl
    rw [Comparison.identifiers, nothing]
    rfl
  refine ⟨fun set member view shown => ?_, fun last member => ?_, fun last member => ?_⟩
  · rw [none set member] at shown
    cases shown
  · rw [empty SelectionTarget.rows fun set inSets => by
      rw [SelectionTarget.rows, none set inSets]] at member
    cases member
  · rw [empty SelectionTarget.enders fun set inSets => by
      rw [SelectionTarget.enders, none set inSets]] at member
    cases member

end

/-- The report is the outer join of the views exactly when every view has a row
and the place holders that are needed get the types of their columns. -/
theorem correct_iff_fits (comparison : Comparison Double Id) : comparison.Correct ↔ comparison.Fits := by
  unfold Comparison.Correct Comparison.generateCustomView
  cases shown : comparison.lastHeader with
  | none =>
    have empty : ∀ set ∈ comparison.sets, set.partialView = none := by
      intro set member
      have nothing := List.findSome?_eq_none_iff.mp shown set member
      simpa using nothing
    exact iff_of_true empty (comparison.fits_of_none empty)
  | some lastHeader =>
    obtain ⟨isSome, assumed⟩ := comparison.baseColumnType_spec
    cases made : comparison.baseColumnType with
    | none =>
      refine iff_of_false (fun correct => correct) fun fits => ?_
      obtain ⟨base, found⟩ := isSome.mpr fits.someRow
      rw [made] at found
      cases found
    | some base =>
      have sampled := isSome.mp ⟨base, made⟩
      have types := assumed base made
      have rowMasters : comparison.masters.1 = comparison.identifiers SelectionTarget.rows :=
        (masters_spec comparison SelectionTarget.nodup_rows).1
      have enderMasters : comparison.enderMasters.1 = comparison.identifiers SelectionTarget.enders :=
        (masters_spec comparison SelectionTarget.nodup_enders).1
      have rowsIff := mergeAll_iff (comparison.mergeRow base)
        (comparison.RowJoined SelectionTarget.rows) comparison.masters.1
      have endersIff := mergeAll_iff (comparison.mergeEnder base)
        (comparison.RowJoined SelectionTarget.enders) comparison.enderMasters.1
      have rowsFit : (∃ rows, Comparison.mergeAll (comparison.mergeRow base)
          comparison.masters.1 = some rows ∧ List.Forall₂
            (comparison.RowJoined SelectionTarget.rows) comparison.masters.1 rows) ↔
          ∀ last ∈ comparison.identifiers SelectionTarget.rows, comparison.RowFits last := by
        rw [rowsIff, ← rowMasters]
        constructor
        · intro all last member
          obtain ⟨place, here⟩ := List.mem_iff_getElem?.mp member
          exact (mergeRow_iff sampled types here).mp (all place last here)
        · intro all place last here
          exact (mergeRow_iff sampled types here).mpr (all last (List.mem_of_getElem? here))
      have endersFit : (∃ enders, Comparison.mergeAll (comparison.mergeEnder base)
          comparison.enderMasters.1 = some enders ∧ List.Forall₂
            (comparison.RowJoined SelectionTarget.enders) comparison.enderMasters.1 enders) ↔
          ∀ last ∈ comparison.identifiers SelectionTarget.enders, comparison.EnderFits last := by
        rw [endersIff, ← enderMasters]
        constructor
        · intro all last member
          obtain ⟨place, here⟩ := List.mem_iff_getElem?.mp member
          exact (mergeEnder_iff sampled types here).mp (all place last here)
        · intro all place last here
          exact (mergeEnder_iff sampled types here).mpr (all last (List.mem_of_getElem? here))
      constructor
      · intro correct
        simp only [Option.bind_eq_bind, Option.bind_some] at correct
        cases rowsMade : Comparison.mergeAll (comparison.mergeRow base) comparison.masters.1 with
        | none =>
          rw [rowsMade] at correct
          exact correct.elim
        | some rows =>
          cases endersMade : Comparison.mergeAll (comparison.mergeEnder base) comparison.enderMasters.1 with
          | none =>
            rw [rowsMade, endersMade] at correct
            exact correct.elim
          | some enders =>
            rw [rowsMade, endersMade] at correct
            have joined : comparison.Joined ⟨comparison.headers ++ [lastHeader], rows, enders⟩ :=
              correct
            exact ⟨sampled, rowsFit.mp ⟨rows, rowsMade, rowMasters ▸ joined.rows⟩,
              endersFit.mp ⟨enders, endersMade, enderMasters ▸ joined.enders⟩⟩
      · intro fits
        obtain ⟨rows, rowsMade, rowsJoined⟩ := rowsFit.mpr fits.rows
        obtain ⟨enders, endersMade, endersJoined⟩ := endersFit.mpr fits.enders
        simp only [Option.bind_eq_bind, Option.bind_some, rowsMade, endersMade]
        rw [rowMasters] at rowsJoined
        rw [enderMasters] at endersJoined
        refine ⟨rowsJoined, endersJoined, fun row member => ?_⟩
        rw [List.length_append, length_headers, List.length_singleton]
        rcases List.mem_append.mp member with inRows | inEnders
        · obtain ⟨last, joined⟩ := wanted_of_mem rowsJoined inRows
          rw [length_joined sized_rows joined]
        · obtain ⟨last, joined⟩ := wanted_of_mem endersJoined inEnders
          rw [length_joined sized_enders joined]

def emptyView : View Int Nat where
  header := ["Exclusive Time"]
  lastHeader := "Function"
  types := [.duration]
  rows := []
  enders := [⟨[.duration 0], 0⟩]
  sized := rfl
  nonempty := by decide
  typed := by simp
  complete := by simp
  distinct := by simp
  distinctEnders := by simp

def ofEmptyView : Comparison Int Nat := ⟨⟨"", some emptyView⟩, [], false, by simp⟩

theorem emptyView_past_end : ¬ ofEmptyView.Correct := by
  have undefined : ofEmptyView.generateCustomView = none := by rfl
  rw [Comparison.Correct, undefined]
  exact fun correct => correct

end OpenSpeedShop.CustomView
