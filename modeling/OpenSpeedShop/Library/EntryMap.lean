import Mathlib.Data.List.Nodup

/-! Maps as lists of their entries, in no particular order. -/

namespace EntryMap

variable {Key Value : Type} [DecidableEq Key]

def lookup (key : Key) (entries : List (Key × Value)) : Option Value :=
  (entries.find? fun entry => entry.1 = key).map Prod.snd

def assign (key : Key) (value : Value) : List (Key × Value) → List (Key × Value)
  | [] => [(key, value)]
  | entry :: rest =>
    if entry.1 = key then (key, value) :: rest else entry :: assign key value rest

@[simp] theorem lookup_nil (key : Key) : lookup key ([] : List (Key × Value)) = none := rfl

theorem lookup_cons (key : Key) (entry : Key × Value) (rest : List (Key × Value)) :
    lookup key (entry :: rest) = if entry.1 = key then some entry.2 else lookup key rest := by
  unfold lookup
  rw [List.find?_cons]
  by_cases same : entry.1 = key
  · simp [same]
  · simp [same]

variable {entries : List (Key × Value)} {key : Key}

theorem lookup_eq_none : lookup key entries = none ↔ key ∉ entries.map Prod.fst := by
  induction entries with
  | nil => simp
  | cons entry rest ih =>
    rw [lookup_cons, List.map_cons, List.mem_cons, not_or, ← ih]
    by_cases same : entry.1 = key
    · simp [same]
    · simp [same, Ne.symm same]

theorem lookup_isSome : (lookup key entries).isSome ↔ key ∈ entries.map Prod.fst := by
  rw [← not_iff_not, ← lookup_eq_none, Option.not_isSome_iff_eq_none]

theorem mem_iff_lookup (nodup : (entries.map Prod.fst).Nodup) {entry : Key × Value} :
    entry ∈ entries ↔ lookup entry.1 entries = some entry.2 := by
  induction entries with
  | nil => simp
  | cons first rest ih =>
    obtain ⟨absent, nodupRest⟩ := List.nodup_cons.mp nodup
    rw [lookup_cons, List.mem_cons]
    by_cases same : first.1 = entry.1
    · have later : entry ∉ rest := fun member => absent (same ▸ List.mem_map_of_mem member)
      simp only [later, or_false, same, if_true, Option.some.injEq]
      exact ⟨fun equal => by rw [equal], fun value => Prod.ext same.symm value.symm⟩
    · have different : entry ≠ first := fun equal => same (by rw [equal])
      simp [same, different, ih nodupRest]

theorem lookup_append (key : Key) (first second : List (Key × Value)) :
    lookup key (first ++ second) = (lookup key first).or (lookup key second) := by
  induction first with
  | nil => simp
  | cons entry rest ih =>
    rw [List.cons_append, lookup_cons, lookup_cons, ih]
    split <;> simp

@[simp] theorem lookup_assign_self (key : Key) (value : Value) (entries : List (Key × Value)) :
    lookup key (assign key value entries) = some value := by
  induction entries with
  | nil => simp [assign, lookup_cons]
  | cons entry rest ih =>
    rw [assign]
    split
    · simp [lookup_cons]
    · rename_i different
      rw [lookup_cons, if_neg different, ih]

theorem lookup_assign_of_ne {key other : Key} (different : other ≠ key) (value : Value)
    (entries : List (Key × Value)) : lookup other (assign key value entries) = lookup other entries := by
  induction entries with
  | nil => simp [assign, lookup_cons, Ne.symm different]
  | cons entry rest ih =>
    rw [assign, lookup_cons]
    split
    · rename_i same
      simp [lookup_cons, same, Ne.symm different]
    · rw [lookup_cons, ih]

theorem assign_of_lookup {value : Value}
    (known : lookup key entries = some value) : assign key value entries = entries := by
  induction entries with
  | nil => cases known
  | cons entry rest ih =>
    rw [lookup_cons] at known
    rw [assign]
    split
    · rename_i same
      rw [if_pos same, Option.some.injEq] at known
      rw [← same, ← known]
    · rename_i different
      rw [if_neg different] at known
      rw [ih known]

theorem keys_assign (key : Key) (value : Value) (entries : List (Key × Value)) :
    (assign key value entries).map Prod.fst = if key ∈ entries.map Prod.fst then entries.map Prod.fst
      else entries.map Prod.fst ++ [key] := by
  induction entries with
  | nil => simp [assign]
  | cons entry rest ih =>
    rw [assign]
    by_cases same : entry.1 = key
    · simp [same]
    · rw [if_neg same, List.map_cons, ih, List.map_cons]
      simp only [List.mem_cons, Ne.symm same, false_or]
      split <;> simp

theorem nodup_assign {value : Value}
    (nodup : (entries.map Prod.fst).Nodup) : ((assign key value entries).map Prod.fst).Nodup := by
  rw [keys_assign]
  split
  · exact nodup
  · rename_i absent
    refine List.nodup_append.mpr ⟨nodup, List.pairwise_singleton _ _, ?_⟩
    rintro other old last here rfl
    rw [List.mem_singleton] at here
    exact absent (here ▸ old)

theorem lookup_filterMap {Other : Type} (value : Value → Option Other)
    (nodup : (entries.map Prod.fst).Nodup) (key : Key) :
    lookup key (entries.filterMap fun entry => (value entry.2).map (entry.1, ·)) =
      (lookup key entries).bind value := by
  induction entries with
  | nil => rfl
  | cons entry rest ih =>
    obtain ⟨absent, nodupRest⟩ := List.nodup_cons.mp nodup
    rw [List.filterMap_cons, lookup_cons]
    by_cases same : entry.1 = key
    · rw [if_pos same, Option.bind_some]
      cases computed : value entry.2 with
      | none =>
        rw [same] at absent
        simp only [Option.map_none]
        rw [ih nodupRest, lookup_eq_none.mpr absent, Option.bind_none]
      | some other =>
        simp only [Option.map_some]
        rw [lookup_cons, if_pos same]
    · rw [if_neg same, ← ih nodupRest]
      cases value entry.2 with
      | none => simp only [Option.map_none]
      | some other =>
        simp only [Option.map_some]
        rw [lookup_cons, if_neg same]

omit [DecidableEq Key] in
theorem keys_filterMap {Other : Type} (value : Value → Option Other) (entries : List (Key × Value)) :
    ((entries.filterMap fun entry => (value entry.2).map (entry.1, ·)).map Prod.fst).Sublist
      (entries.map Prod.fst) := by
  induction entries with
  | nil => exact List.Sublist.slnil
  | cons entry rest ih =>
    rw [List.filterMap_cons]
    cases value entry.2 with
    | none => exact ih.cons entry.1
    | some other => exact ih.cons_cons entry.1

omit [DecidableEq Key] in
theorem eq_of_keys (nodup : (entries.map Prod.fst).Nodup) :
    ∀ {first second : List (Key × Value)}, first ⊆ entries → second ⊆ entries →
      first.map Prod.fst = second.map Prod.fst → first = second := by
  intro first
  induction first with
  | nil =>
    intro second _ _ same
    exact (List.map_eq_nil_iff.mp same.symm).symm
  | cons entry rest ih =>
    intro second inFirst inSecond same
    cases second with
    | nil => cases same
    | cons other more =>
      obtain ⟨key, keys⟩ := List.cons.inj same
      obtain ⟨here, behind⟩ := List.cons_subset.mp inFirst
      obtain ⟨there, beyond⟩ := List.cons_subset.mp inSecond
      rw [List.inj_on_of_nodup_map nodup here there key, ih behind beyond keys]

end EntryMap
