import Mathlib.Data.List.Nodup

/-!
Tables whose rows have keys, joined through one list of all keys: each table gets
a map from the places of that list to its rows.
-/

namespace OuterJoin

open List (nodup_append' append_assoc removeAll nodup_cons map_append append_nil)

variable {Row Key : Type} [DecidableEq Key] (key : Row → Key)

/-- Gives the key of a row its place, and maps the place to the row. A place that
is mapped already stays as it is. -/
def enter (state : List Key × List (Nat × Row)) (row : Row) : List Key × List (Nat × Row) :=
  let index := state.1.idxOf (key row)
  (if index < state.1.length then state.1 else state.1 ++ [key row],
    if (state.2.lookup index).isSome then state.2 else (index, row) :: state.2)

def enterAll (keys : List Key) (rows : List Row) : List Key × List (Nat × Row) :=
  rows.foldl (enter key) (keys, [])

def enterTables (keys : List Key) : List (List Row) → List Key × List (List (Nat × Row))
  | [] => (keys, [])
  | rows :: rest =>
    let entered := enterAll key keys rows
    let later := enterTables entered.1 rest
    (later.1, entered.2 :: later.2)

def rowOf (rows : List Row) (wanted : Key) : Option Row := rows.find? fun row => key row = wanted

def Maps (keys : List Key) (rows : List Row) (entries : List (Nat × Row)) : Prop :=
  ∀ place, entries.lookup place = keys[place]?.bind (rowOf key rows)

variable {key}

variable {rows : List Row}

theorem rowOf_eq_none {wanted : Key} : rowOf key rows wanted = none ↔ wanted ∉ rows.map key := by
  simp [rowOf]

variable {row : Row}

theorem rowOf_eq_some (distinct : (rows.map key).Nodup)
    (member : row ∈ rows) : rowOf key rows (key row) = some row := by
  induction rows with
  | nil => cases member
  | cons first rest ih =>
    rw [List.map_cons, nodup_cons] at distinct
    rw [rowOf, List.find?_cons]
    rcases List.mem_cons.mp member with rfl | later
    · simp
    · have apart : key first ≠ key row := fun same =>
        distinct.1 (same ▸ List.mem_map_of_mem later)
      simp only [apart, decide_false]
      exact ih distinct.2 later

theorem rowOf_snoc_self (new : key row ∉ rows.map key) : rowOf key (rows ++ [row]) (key row) = some row := by
  have missing := rowOf_eq_none.mpr new
  rw [rowOf] at missing ⊢
  rw [List.find?_append, missing]
  simp

theorem rowOf_snoc_of_ne {wanted : Key}
    (apart : key row ≠ wanted) : rowOf key (rows ++ [row]) wanted = rowOf key rows wanted := by
  rw [rowOf, List.find?_append]
  simp [rowOf, apart]

variable {keys : List Key} {entries : List (Nat × Row)}

theorem enter_maps {entered : List Row} (distinct : keys.Nodup) (maps : Maps key keys entered entries)
    (new : key row ∉ entered.map key) :
    (enter key (keys, entries) row).1 = keys ++ ([row].map key).filter (fun other => other ∉ keys) ∧
      Maps key (enter key (keys, entries) row).1 (entered ++ [row]) (enter key (keys, entries) row).2 := by
  have free : entries.lookup (keys.idxOf (key row)) = none := by
    rw [maps]
    cases found : keys[keys.idxOf (key row)]? with
    | none => rfl
    | some wanted =>
      obtain ⟨inside, here⟩ := List.getElem?_eq_some_iff.mp found
      rw [List.getElem_idxOf inside] at here
      rw [← here]
      exact rowOf_eq_none.mpr new
  have entriesEq : (enter key (keys, entries) row).2 = (keys.idxOf (key row), row) :: entries := by
    simp [enter, free]
  rw [entriesEq]
  by_cases known : key row ∈ keys
  · have inside : keys.idxOf (key row) < keys.length := List.idxOf_lt_length_iff.mpr known
    have keysEq : (enter key (keys, entries) row).1 = keys := if_pos inside
    rw [keysEq]
    refine ⟨by simp [known], fun place => ?_⟩
    rw [List.lookup_cons]
    by_cases here : place = keys.idxOf (key row)
    · have own : keys[keys.idxOf (key row)]? = some (key row) := by
        rw [List.getElem?_eq_getElem inside, List.getElem_idxOf inside]
      rw [here, own]
      simp [rowOf_snoc_self new]
    · have other : (place == keys.idxOf (key row)) = false := by simpa using here
      rw [other, maps]
      cases found : keys[place]? with
      | none => rfl
      | some wanted =>
        have apart : key row ≠ wanted := by
          rintro rfl
          obtain ⟨bound, same⟩ := List.getElem?_eq_some_iff.mp found
          exact here (by rw [← same, distinct.idxOf_getElem])
        exact (rowOf_snoc_of_ne apart).symm
  · have place : keys.idxOf (key row) = keys.length := List.idxOf_eq_length known
    have keysEq : (enter key (keys, entries) row).1 = keys ++ [key row] := by
      simp [enter, known]
    rw [keysEq, place]
    refine ⟨by simp [known], fun place => ?_⟩
    rw [List.lookup_cons]
    by_cases here : place = keys.length
    · rw [here, List.getElem?_append_right (Nat.le_refl _)]
      simp [rowOf_snoc_self new]
    · have other : (place == keys.length) = false := by simpa using here
      rw [other, maps]
      rcases Nat.lt_or_ge place keys.length with inside | outside
      · rw [List.getElem?_append_left inside, List.getElem?_eq_getElem inside]
        refine (rowOf_snoc_of_ne ?_).symm
        rintro same
        exact known (same ▸ List.getElem_mem inside)
      · rw [List.getElem?_eq_none outside, List.getElem?_eq_none]
        · rfl
        · simp only [List.length_append, List.length_singleton]
          omega

def union (keys others : List Key) : List Key := keys ++ others.filter fun other => other ∉ keys

variable {keys others : List Key}

theorem union_cons {first : Key} (distinct : (first :: others).Nodup) :
    union (union keys [first]) others = union keys (first :: others) := by
  rw [nodup_cons] at distinct
  by_cases known : first ∈ keys
  · simp [union, known]
  · have same : others.filter (fun other => other ∉ keys ++ [first]) =
        others.filter fun other => other ∉ keys := by
      apply List.filter_congr
      intro other member
      have apart : other ≠ first := fun same => distinct.1 (same ▸ member)
      simp [apart]
    simp only [union, List.filter_cons, known, not_false_eq_true, decide_true, if_true,
      List.filter_nil, same, append_assoc, List.singleton_append]

theorem nodup_union (distinct : keys.Nodup) (apart : others.Nodup) : (union keys others).Nodup := by
  refine distinct.append (apart.filter _) ?_
  intro other inKeys inOthers
  rw [List.mem_filter] at inOthers
  simpa [inKeys] using inOthers.2

theorem enterFrom_maps : ∀ (entered : List Row) {keys : List Key}
    {entries : List (Nat × Row)}, keys.Nodup → Maps key keys entered entries →
    ((entered ++ rows).map key).Nodup →
    (rows.foldl (enter key) (keys, entries)).1 = union keys (rows.map key) ∧
      Maps key (rows.foldl (enter key) (keys, entries)).1 (entered ++ rows)
        (rows.foldl (enter key) (keys, entries)).2 := by
  induction rows with
  | nil =>
    intro entered keys entries distinct maps apart
    rw [append_nil]
    exact ⟨by simp [union], maps⟩
  | cons row rest ih =>
    intro entered keys entries distinct maps apart
    have split : entered ++ row :: rest = entered ++ [row] ++ rest := by simp
    rw [split] at apart ⊢
    have here : ((entered ++ [row]).map key).Nodup := by
      rw [map_append] at apart
      exact (nodup_append'.mp apart).1
    have new : key row ∉ entered.map key := by
      rw [map_append, List.map_singleton] at here
      exact fun member => (nodup_append'.mp here).2.2 member (List.mem_singleton_self _)
    have own : (key row :: rest.map key).Nodup := by
      rw [append_assoc, map_append] at apart
      exact (nodup_append'.mp apart).2.1
    obtain ⟨keysEq, mapped⟩ := enter_maps distinct maps new
    have stepped : (enter key (keys, entries) row).1 = union keys [key row] := keysEq
    have nodup : (enter key (keys, entries) row).1.Nodup := by
      rw [stepped]
      exact nodup_union distinct (List.nodup_singleton _)
    obtain ⟨finalEq, final⟩ := ih (entered ++ [row]) nodup mapped apart
    rw [List.foldl_cons]
    refine ⟨?_, final⟩
    rw [finalEq, stepped, List.map_cons, union_cons own]

theorem enterAll_maps (distinct : keys.Nodup) (apart : (rows.map key).Nodup) :
    (enterAll key keys rows).1 = union keys (rows.map key) ∧
      Maps key (enterAll key keys rows).1 rows (enterAll key keys rows).2 := by
  refine enterFrom_maps [] distinct (fun place => ?_) apart
  rw [List.lookup_nil]
  cases keys[place]? <;> rfl

theorem Maps.extend {keys more : List Key}
    (maps : Maps key keys rows entries) (known : ∀ row ∈ rows, key row ∈ keys)
    (distinct : (keys ++ more).Nodup) : Maps key (keys ++ more) rows entries := by
  intro place
  rw [maps]
  rcases Nat.lt_or_ge place keys.length with inside | outside
  · rw [List.getElem?_append_left inside]
  · rw [List.getElem?_eq_none outside]
    cases found : (keys ++ more)[place]? with
    | none => rfl
    | some wanted =>
      rw [List.getElem?_append_right outside] at found
      have missing : wanted ∉ rows.map key := by
        intro member
        obtain ⟨row, inRows, rfl⟩ := List.mem_map.mp member
        exact (nodup_append'.mp distinct).2.2 (known row inRows) (List.mem_of_getElem? found)
      exact (rowOf_eq_none.mpr missing).symm

theorem getElem?_first {more : List Key} (distinct : (rows.map key ++ more).Nodup) (place : Nat) :
    rows[place]? = (rows.map key ++ more)[place]?.bind (rowOf key rows) := by
  have own := (nodup_append'.mp distinct).1
  rcases Nat.lt_or_ge place rows.length with inside | outside
  · rw [List.getElem?_append_left (by rwa [List.length_map]), List.getElem?_map,
      List.getElem?_eq_getElem inside]
    exact (rowOf_eq_some own (List.getElem_mem inside)).symm
  · rw [List.getElem?_eq_none outside]
    cases found : (rows.map key ++ more)[place]? with
    | none => rfl
    | some wanted =>
      have behind : (rows.map key).length ≤ place := by rwa [List.length_map]
      rw [List.getElem?_append_right behind] at found
      have missing : wanted ∉ rows.map key := fun member =>
        (nodup_append'.mp distinct).2.2 member (List.mem_of_getElem? found)
      exact (rowOf_eq_none.mpr missing).symm

theorem subset_union_right : ∀ other ∈ others, other ∈ union keys others := by
  intro other member
  by_cases known : other ∈ keys
  · exact List.mem_append_left _ known
  · exact List.mem_append_right _ (List.mem_filter.mpr ⟨member, by simpa using known⟩)

theorem enterTables_maps {tables : List (List Row)} : ∀ {keys : List Key}, keys.Nodup →
    (∀ rows ∈ tables, (rows.map key).Nodup) →
    (enterTables key keys tables).1 = (tables.map (List.map key)).foldl union keys ∧
      (∃ more, (enterTables key keys tables).1 = keys ++ more) ∧ (enterTables key keys tables).1.Nodup ∧
      List.Forall₂ (Maps key (enterTables key keys tables).1) tables (enterTables key keys tables).2 := by
  induction tables with
  | nil => exact fun distinct _ => ⟨rfl, ⟨[], (append_nil _).symm⟩, distinct, .nil⟩
  | cons rows rest ih =>
    intro keys distinct apart
    have own : (rows.map key).Nodup := apart rows List.mem_cons_self
    obtain ⟨keysEq, maps⟩ := enterAll_maps distinct own
    have nodup : (enterAll key keys rows).1.Nodup := by
      rw [keysEq]
      exact nodup_union distinct own
    obtain ⟨finalEq, ⟨more, final⟩, finalNodup, later⟩ :=
      ih nodup fun other member => apart other (List.mem_cons_of_mem _ member)
    refine ⟨?_, ?_, finalNodup, .cons ?_ later⟩
    · rw [enterTables, finalEq, keysEq]
      rfl
    · refine ⟨(rows.map key).filter (fun other => other ∉ keys) ++ more, ?_⟩
      rw [enterTables, final, keysEq, union, append_assoc]
    · have known : ∀ row ∈ rows, key row ∈ (enterAll key keys rows).1 := by
        intro row member
        rw [keysEq]
        exact subset_union_right _ (List.mem_map_of_mem member)
      have same : (enterTables key keys (rows :: rest)).1 = (enterAll key keys rows).1 ++ more := final
      rw [same]
      exact maps.extend known (final ▸ finalNodup)

theorem eraseDups_of_nodup (distinct : keys.Nodup) : keys.eraseDups = keys := by
  induction keys with
  | nil => rfl
  | cons first rest ih =>
    rw [nodup_cons] at distinct
    have kept : rest.filter (fun other => !(other == first)) = rest := by
      rw [List.filter_eq_self]
      intro other member
      have apart : other ≠ first := fun same => distinct.1 (same ▸ member)
      simpa using apart
    rw [List.eraseDups_cons, kept, ih distinct.2]

theorem eraseDups_append_nodup (distinct : keys.Nodup)
    (apart : others.Nodup) : (keys ++ others).eraseDups = union keys others := by
  have kept : others.removeAll keys = others.filter fun other => other ∉ keys := by
    rw [removeAll]
    apply List.filter_congr
    intro other _
    by_cases known : other ∈ keys <;> simp [known]
  rw [List.eraseDups_append, eraseDups_of_nodup distinct, kept, eraseDups_of_nodup (apart.filter _), union]

theorem foldl_union {lists : List (List Key)} : ∀ {keys : List Key}, keys.Nodup →
    (∀ list ∈ lists, list.Nodup) → lists.foldl union keys = (keys ++ lists.flatten).eraseDups := by
  induction lists with
  | nil =>
    intro keys distinct _
    rw [List.flatten_nil, append_nil, eraseDups_of_nodup distinct]
    rfl
  | cons list rest ih =>
    intro keys distinct apart
    have own := apart list List.mem_cons_self
    have entered := eraseDups_append_nodup distinct own
    have nodup := nodup_union distinct own
    rw [List.foldl_cons, ih nodup fun other member => apart other (List.mem_cons_of_mem _ member),
      List.flatten_cons, ← append_assoc, @List.eraseDups_append _ _ _ (keys ++ list),
      entered, List.eraseDups_append, eraseDups_of_nodup nodup]
    congr 2
    rw [removeAll, removeAll]
    apply List.filter_congr
    intro other _
    rw [← entered]
    simp

end OuterJoin
