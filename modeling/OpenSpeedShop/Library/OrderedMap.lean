import Mathlib.Data.List.Basic

/-!
Ordered maps as lists of entries. Keys that neither precede one another are
equivalent, and a map holds one entry for each class of equivalent keys.
-/

namespace OrderedMap

open List (mem_cons pairwise_cons mem_append forall_mem_cons)

variable {Key Value : Type} (less : Key → Key → Bool)

def find? (key : Key) : List (Key × Value) → Option (Key × Value)
  | [] => none
  | entry :: rest =>
    if less entry.1 key then find? key rest
    else if less key entry.1 then none
    else some entry

def upsert (key : Key) (initial : Value) (change : Value → Value) : List (Key × Value) → List (Key × Value)
  | [] => [(key, change initial)]
  | entry :: rest =>
    if less entry.1 key then entry :: upsert key initial change rest
    else if less key entry.1 then (key, change initial) :: entry :: rest
    else (entry.1, change entry.2) :: rest

def insert (key : Key) (value : Value) (entries : List (Key × Value)) : List (Key × Value) :=
  upsert less key value id entries

theorem insert_of_forall_less {key : Key} {value : Value} {entries : List (Key × Value)}
    (above : ∀ entry ∈ entries, less entry.1 key = true) :
    insert less key value entries = entries ++ [(key, value)] := by
  unfold insert
  induction entries with
  | nil => rfl
  | cons entry rest ih =>
    rw [upsert, if_pos (above entry (by simp)), ih fun other member => above other (by simp [member])]
    rfl

structure StrictTotal : Prop where
  irrefl : ∀ key, less key key = false
  trans : ∀ {first second third}, less first second = true → less second third = true → less first third = true
  total : ∀ {first second}, less first second = false → less second first = false → first = second

variable {less}

theorem upsert_of_find?_none (initial : Value) (change : Value → Value) {key : Key}
    {entries : List (Key × Value)} (missing : find? less key entries = none) :
    ∃ before after, entries = before ++ after ∧ (∀ entry ∈ before, less entry.1 key = true) ∧
      (∀ entry ∈ after.head?, less key entry.1 = true) ∧
      upsert less key initial change entries = before ++ (key, change initial) :: after := by
  induction entries with
  | nil => exact ⟨[], [], rfl, by simp, by simp, rfl⟩
  | cons entry rest ih =>
    rw [find?] at missing
    rw [upsert]
    split at missing
    · rename_i below
      obtain ⟨before, after, rfl, lower, upper, same⟩ := ih missing
      exact ⟨entry :: before, after, rfl, by simpa [below] using lower, upper, by simp [below, same]⟩
    · rename_i notBelow
      split at missing
      · rename_i above
        exact ⟨[], entry :: rest, rfl, by simp, by simp [above], by simp [notBelow, above]⟩
      · cases missing

theorem upsert_of_find?_some (initial : Value) (change : Value → Value) {key : Key}
    {entries : List (Key × Value)} {entry : Key × Value} (found : find? less key entries = some entry) :
    ∃ before after, entries = before ++ entry :: after ∧ (∀ entry ∈ before, less entry.1 key = true) ∧
      upsert less key initial change entries = before ++ (entry.1, change entry.2) :: after := by
  induction entries with
  | nil => cases found
  | cons first rest ih =>
    rw [find?] at found
    rw [upsert]
    split at found
    · rename_i below
      obtain ⟨before, after, rfl, lower, same⟩ := ih found
      exact ⟨first :: before, after, rfl, by simpa [below] using lower, by simp [below, same]⟩
    · rename_i notBelow
      split at found
      · cases found
      · rename_i notAbove
        cases found
        exact ⟨[], rest, rfl, by simp, by simp [notBelow, notAbove]⟩

theorem insert_of_find?_some {key : Key} (value : Value) {entries : List (Key × Value)}
    {entry : Key × Value} (found : find? less key entries = some entry) :
    insert less key value entries = entries := by
  obtain ⟨before, after, rfl, -, same⟩ := upsert_of_find?_some value id found
  exact same

section

variable {key : Key} {entries : List (Key × Value)} {entry : Key × Value}
  (found : find? less key entries = some entry)
include found

theorem mem_of_find? : entry ∈ entries := by
  induction entries with
  | nil => cases found
  | cons first rest ih =>
    rw [find?] at found
    split at found
    · exact List.mem_cons_of_mem first (ih found)
    · split at found
      · cases found
      · cases found
        exact List.mem_cons_self

theorem find?_equivalent : less entry.1 key = false ∧ less key entry.1 = false := by
  induction entries with
  | nil => cases found
  | cons first rest ih =>
    rw [find?] at found
    split at found
    · exact ih found
    · rename_i notBelow
      split at found
      · cases found
      · rename_i notAbove
        cases found
        exact ⟨Bool.eq_false_iff.mpr notBelow, Bool.eq_false_iff.mpr notAbove⟩

end

theorem upsert_map {Other : Type} (image : Value → Other) {initial : Value}
    {change : Value → Value} {initialImage : Other} {changeImage : Other → Other}
    (begins : image initial = initialImage)
    (changes : ∀ value, image (change value) = changeImage (image value)) (key : Key)
    (entries : List (Key × Value)) :
    upsert less key initialImage changeImage (entries.map fun entry => (entry.1, image entry.2)) =
      (upsert less key initial change entries).map fun entry => (entry.1, image entry.2) := by
  induction entries with
  | nil => simp [upsert, changes, begins]
  | cons entry rest ih =>
    rw [List.map_cons, upsert, upsert]
    split
    · rw [List.map_cons, ih]
    · split
      · simp [changes, begins]
      · simp [changes]

theorem StrictTotal.asymm (order : StrictTotal less) {first second : Key}
    (below : less first second = true) : less second first = false := by
  rw [Bool.eq_false_iff]
  intro above
  have both := order.trans below above
  rw [order.irrefl] at both
  cases both

def Sorted (less : Key → Key → Bool) (entries : List (Key × Value)) : Prop :=
  entries.Pairwise fun first second => less first.1 second.1 = true

theorem find?_upsert_self (order : StrictTotal less) (key : Key) (initial : Value)
    (change : Value → Value) (entries : List (Key × Value)) :
    find? less key (upsert less key initial change entries) =
      some (key, change (((find? less key entries).map Prod.snd).getD initial)) := by
  induction entries with
  | nil => simp [upsert, find?, order.irrefl]
  | cons entry rest ih =>
    rw [upsert, find?]
    split
    · rename_i below
      rw [find?, if_pos below, ih]
    · rename_i notBelow
      split
      · rename_i above
        simp [find?, order.irrefl]
      · rename_i notAbove
        have same := order.total (Bool.eq_false_iff.mpr notBelow) (Bool.eq_false_iff.mpr notAbove)
        simp [find?, same, order.irrefl]

theorem find?_upsert_of_ne (order : StrictTotal less) {key other : Key} (different : other ≠ key)
    (initial : Value) (change : Value → Value) (entries : List (Key × Value)) :
    find? less other (upsert less key initial change entries) = find? less other entries := by
  induction entries with
  | nil =>
    rw [upsert, find?]
    cases below : less key other with
    | true => simp [find?, below]
    | false =>
      cases above : less other key with
      | true => simp [find?, below, above]
      | false => exact absurd (order.total above below) different
  | cons entry rest ih =>
    rw [upsert]
    split
    · rw [find?, find?, ih]
    · rename_i notBelow
      split
      · rename_i above
        rw [find?]
        cases below : less key other with
        | true => simp
        | false =>
          cases lower : less other key with
          | true =>
            have first := order.trans lower above
            simp [find?, first, order.asymm first]
          | false => exact absurd (order.total lower below) different
      · rename_i notAbove
        have same := order.total (Bool.eq_false_iff.mpr notBelow) (Bool.eq_false_iff.mpr notAbove)
        rw [find?, find?, same]
        cases below : less key other with
        | true => simp
        | false =>
          cases lower : less other key with
          | true => simp
          | false => exact absurd (order.total lower below) different

section

variable {key : Key} {initial : Value} {change : Value → Value} {entries : List (Key × Value)}

theorem key_of_mem_upsert {entry : Key × Value} (member : entry ∈ upsert less key initial change entries) :
    entry.1 = key ∨ ∃ old ∈ entries, old.1 = entry.1 := by
  induction entries with
  | nil =>
    obtain rfl := List.mem_singleton.mp member
    exact Or.inl rfl
  | cons first rest ih =>
    rw [upsert] at member
    split at member
    · rcases mem_cons.mp member with rfl | later
      · exact Or.inr ⟨entry, by simp, rfl⟩
      · rcases ih later with same | ⟨old, present, same⟩
        · exact Or.inl same
        · exact Or.inr ⟨old, by simp [present], same⟩
    · split at member
      · rcases mem_cons.mp member with rfl | old
        · exact Or.inl rfl
        · exact Or.inr ⟨entry, old, rfl⟩
      · rcases mem_cons.mp member with rfl | later
        · exact Or.inr ⟨first, by simp, rfl⟩
        · exact Or.inr ⟨entry, by simp [later], rfl⟩

theorem length_upsert_le : (upsert less key initial change entries).length ≤ entries.length + 1 := by
  induction entries with
  | nil => simp [upsert]
  | cons first rest ih =>
    rw [upsert]
    split
    · simpa using ih
    · split <;> simp

end

theorem Sorted.upsert (order : StrictTotal less) {key : Key} {initial : Value}
    {change : Value → Value} {entries : List (Key × Value)} (sorted : Sorted less entries) :
    Sorted less (upsert less key initial change entries) := by
  induction entries with
  | nil => exact List.pairwise_singleton _ _
  | cons first rest ih =>
    obtain ⟨above, sortedRest⟩ := pairwise_cons.mp sorted
    rw [OrderedMap.upsert]
    split
    · rename_i below
      refine pairwise_cons.mpr ⟨fun entry member => ?_, ih sortedRest⟩
      rcases key_of_mem_upsert member with same | ⟨old, present, same⟩
      · rw [same]
        exact below
      · rw [← same]
        exact above old present
    · split
      · rename_i lower
        refine pairwise_cons.mpr ⟨fun entry member => ?_, sorted⟩
        rcases mem_cons.mp member with rfl | later
        · exact lower
        · exact order.trans lower (above entry later)
      · exact pairwise_cons.mpr ⟨above, sortedRest⟩

section

variable {key : Key} {initial : Value} {change : Value → Value} {entries : List (Key × Value)}

theorem Sorted.upsert_missing (sorted : Sorted less entries)
    (passes : ∀ entry ∈ entries, ∀ other, less key entry.1 = true → less entry.1 other = true →
      less key other = true) (missing : find? less key entries = none) :
    Sorted less (OrderedMap.upsert less key initial change entries) ∧
      (∀ entry, entry ∈ OrderedMap.upsert less key initial change entries ↔
        entry = (key, change initial) ∨ entry ∈ entries) ∧
      ∀ entry ∈ entries, less entry.1 key = true ∨ less key entry.1 = true := by
  obtain ⟨before, after, rfl, lower, upper, same⟩ := upsert_of_find?_none initial change missing
  obtain ⟨sortedBefore, sortedAfter, across⟩ := List.pairwise_append.mp sorted
  have above : ∀ entry ∈ after, less key entry.1 = true := by
    cases after with
    | nil => simp
    | cons first rest =>
      have firstAbove := upper first rfl
      intro entry member
      rcases mem_cons.mp member with rfl | later
      · exact firstAbove
      · exact passes first (by simp) entry.1 firstAbove ((pairwise_cons.mp sortedAfter).1 entry later)
  rw [same]
  refine ⟨?_, fun entry => ?_, fun entry member => ?_⟩
  · refine List.pairwise_append.mpr ⟨sortedBefore, pairwise_cons.mpr ⟨above, sortedAfter⟩, ?_⟩
    intro first early second late
    rcases mem_cons.mp late with rfl | later
    · exact lower first early
    · exact across first early second later
  · simp only [mem_append, mem_cons]
    exact or_left_comm
  · exact (mem_append.mp member).imp (lower entry) (above entry)

theorem Sorted.upsert_found {entry : Key × Value} (sorted : Sorted less entries)
    (irrefl : ∀ other ∈ entries, less other.1 other.1 = false) (found : find? less key entries = some entry) :
    Sorted less (OrderedMap.upsert less key initial change entries) ∧
      ∀ other, other ∈ OrderedMap.upsert less key initial change entries ↔
        other = (entry.1, change entry.2) ∨ (other ∈ entries ∧ other ≠ entry) := by
  have nodup : entries.Nodup := by
    refine List.Pairwise.imp_of_mem ?_ sorted
    rintro first second member - below rfl
    rw [irrefl first member] at below
    cases below
  obtain ⟨before, after, rfl, -, same⟩ := upsert_of_find?_some initial change found
  obtain ⟨fresh, -⟩ := List.nodup_cons.mp (List.perm_middle.nodup_iff.mp nodup)
  rw [same]
  refine ⟨?_, fun other => ?_⟩
  · unfold Sorted at sorted ⊢
    rw [List.pairwise_append, pairwise_cons] at sorted ⊢
    refine ⟨sorted.1, sorted.2.1, fun first early second late => ?_⟩
    rcases mem_cons.mp late with rfl | later
    · exact sorted.2.2 first early entry (by simp)
    · exact sorted.2.2 first early second (by simp [later])
  · have elsewhere : other ∈ before ++ after → other ≠ entry := by
      rintro member rfl
      exact fresh member
    simp only [mem_append, mem_cons] at elsewhere ⊢
    tauto

end

theorem Sorted.mem_iff (order : StrictTotal less) {entries : List (Key × Value)}
    (sorted : Sorted less entries) {entry : Key × Value} :
    entry ∈ entries ↔ find? less entry.1 entries = some entry := by
  induction entries with
  | nil => simp [find?]
  | cons first rest ih =>
    obtain ⟨above, sortedRest⟩ := pairwise_cons.mp sorted
    rw [mem_cons, find?, ih sortedRest]
    cases below : less first.1 entry.1 with
    | true =>
      have different : entry ≠ first := by
        rintro rfl
        rw [order.irrefl] at below
        cases below
      simp [different]
    | false =>
      have notLater : find? less entry.1 rest ≠ some entry := by
        intro found
        have later := above entry ((ih sortedRest).mpr found)
        rw [below] at later
        cases later
      simp only [notLater, or_false, Bool.false_eq_true, if_false]
      cases lower : less entry.1 first.1 with
      | true =>
        have different : entry ≠ first := by
          rintro rfl
          rw [order.irrefl] at lower
          cases lower
        simp [different]
      | false => simp [eq_comm]

theorem Sorted.keys_nodup (order : StrictTotal less) {entries : List (Key × Value)}
    (sorted : Sorted less entries) : (entries.map Prod.fst).Nodup := by
  rw [List.Nodup, List.pairwise_map]
  apply sorted.imp
  intro first second below same
  rw [same, order.irrefl] at below
  cases below

structure Collects {Item : Type} (less : Key → Key → Bool) (entries : List (Key × List Item))
    (added : Key → Item → Prop) : Prop where
  sorted : Sorted less entries
  filled : ∀ entry ∈ entries, entry.2 ≠ []
  exact : ∀ key item, item ∈ ((find? less key entries).map Prod.snd).getD [] ↔ added key item

section

variable {Item : Type} {entries : List (Key × List Item)} {added : Key → Item → Prop}

theorem Collects.nil (nothing : ∀ key item, ¬ added key item) :
    Collects less ([] : List (Key × List Item)) added :=
  ⟨List.Pairwise.nil, by simp, fun key item => by simp [find?, nothing]⟩

theorem Collects.mem_iff (order : StrictTotal less) (collects : Collects less entries added)
    {key : Key} {items : List Item} (member : (key, items) ∈ entries) (item : Item) :
    item ∈ items ↔ added key item := by
  have found := (collects.sorted.mem_iff order).mp member
  simpa [found] using collects.exact key item

theorem Collects.exists_mem (order : StrictTotal less) (collects : Collects less entries added)
    {key : Key} {item : Item} (isAdded : added key item) : ∃ items, (key, items) ∈ entries := by
  have present := (collects.exact key item).mpr isAdded
  cases found : find? less key entries with
  | none => simp [found] at present
  | some entry =>
    obtain ⟨below, above⟩ := find?_equivalent found
    have same : entry.1 = key := order.total below above
    refine ⟨entry.2, (collects.sorted.mem_iff order).mpr ?_⟩
    rw [found, ← same]

theorem filled_upsert {key : Key} {item : Item} (filled : ∀ entry ∈ entries, entry.2 ≠ []) :
    ∀ entry ∈ upsert less key [] (· ++ [item]) entries, entry.2 ≠ [] := by
  induction entries with
  | nil => simp [upsert]
  | cons first rest ih =>
    obtain ⟨here, later⟩ := forall_mem_cons.mp filled
    rw [upsert]
    split
    · exact forall_mem_cons.mpr ⟨here, ih later⟩
    · split
      · exact forall_mem_cons.mpr ⟨by simp, filled⟩
      · exact forall_mem_cons.mpr ⟨by simp, later⟩

theorem Collects.upsert (order : StrictTotal less) (collects : Collects less entries added)
    {key : Key} {item : Item} {after : Key → Item → Prop}
    (grows : ∀ other value, after other value ↔ added other value ∨ (other = key ∧ value = item)) :
    Collects less (upsert less key [] (· ++ [item]) entries) after := by
  refine ⟨collects.sorted.upsert order, filled_upsert collects.filled, fun other value => ?_⟩
  rw [grows, ← collects.exact]
  by_cases same : other = key
  · subst same
    simp [find?_upsert_self order]
  · simp [find?_upsert_of_ne order same, same]

end

end OrderedMap
