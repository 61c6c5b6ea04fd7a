import Mathlib.Data.List.Nodup

/-!
Merging rows of one key in a nested scan, whose inner scan ends at the first row of a smaller rank.
Every key is left with one row exactly when a key that comes again is met before a new one of smaller
rank.
-/

namespace RankedMerge

open List (mem_cons map_cons filter_cons_of_neg filter_cons_of_pos mem_map not_mem_nil length_cons)

variable {Row Key : Type} (key : Row → Key) (rank : Key → Nat) (merge : Row → Row → Row)

def Near (first : Key) (keys : List Key) : Prop :=
  ∀ before smaller after, keys = before ++ smaller :: after → rank smaller < rank first →
    first ∉ after

def Met (seen keys : List Key) : Prop :=
  ∀ before first middle smaller after, keys = before ++ first :: (middle ++ smaller :: after) →
    first ∉ seen → first ∉ before → rank smaller < rank first → first ∈ after →
      smaller ∈ seen ∨ smaller ∈ before

theorem Near.tail {first head : Key} {keys : List Key} (near : Near rank first (head :: keys)) :
    Near rank first keys := by
  intro before smaller after split
  exact near (head :: before) smaller after (by rw [split]; rfl)

theorem near_cons {first head : Key} {keys : List Key} :
    Near rank first (head :: keys) ↔ (rank head < rank first → first ∉ keys) ∧ Near rank first keys := by
  constructor
  · intro near
    exact ⟨fun less => near [] head keys rfl less, near.tail⟩
  · rintro ⟨start, near⟩ before smaller after split less
    cases before with
    | nil =>
      obtain ⟨rfl, rfl⟩ := List.cons.inj split
      exact start less
    | cons other before =>
      obtain ⟨rfl, others⟩ := List.cons.inj split
      exact near before smaller after others less

variable {head : Key} {seen keys : List Key}

theorem met_cons : Met rank seen (head :: keys) ↔
      (head ∉ seen → ∀ middle smaller after, keys = middle ++ smaller :: after →
        rank smaller < rank head → head ∈ after → smaller ∈ seen) ∧ Met rank (head :: seen) keys := by
  constructor
  · intro met
    refine ⟨fun new middle smaller after split less again => ?_, ?_⟩
    · have answer := met [] head middle smaller after (by rw [split]; rfl) new not_mem_nil less again
      simpa using answer
    · intro before first middle smaller after split new absent less again
      rw [mem_cons, not_or] at new
      have answer := met (head :: before) first middle smaller after (by rw [split]; rfl) new.2
        (by simp [new.1, absent]) less again
      rw [mem_cons] at answer ⊢
      rcases answer with old | rfl | old
      · exact .inl (.inr old)
      · exact .inl (.inl rfl)
      · exact .inr old
  · rintro ⟨own, met⟩ before first middle smaller after split new absent less again
    cases before with
    | nil =>
      obtain ⟨rfl, rest⟩ := List.cons.inj split
      exact .inl (own new middle smaller after rest less again)
    | cons other before =>
      obtain ⟨rfl, others⟩ := List.cons.inj split
      rw [mem_cons, not_or] at absent
      have answer := met before first middle smaller after others (by simp [absent.1, new]) absent.2 less again
      rw [mem_cons] at answer ⊢
      rcases answer with (rfl | old) | old
      · exact .inr (.inl rfl)
      · exact .inl old
      · exact .inr (.inr old)

theorem met_cons_seen (known : head ∈ seen) : Met rank seen (head :: keys) ↔ Met rank (head :: seen) keys := by
  rw [met_cons]
  exact and_iff_right fun new => absurd known new

variable [DecidableEq Key]

theorem met_cons_new (new : head ∉ seen) :
    Met rank seen (head :: keys) ↔ Near rank head (keys.filter (· ∉ seen)) ∧ Met rank (head :: seen) keys := by
  rw [met_cons]
  refine and_congr_left fun _ => ⟨fun own before smaller after split less again => ?_, ?_⟩
  · obtain ⟨front, back, whole, _, others⟩ := List.filter_eq_append_iff.mp split
    obtain ⟨skipped, later, rfl, _, present, rfl⟩ := List.filter_eq_cons_iff.mp others
    have old := own new (front ++ skipped) smaller later (by rw [whole]; simp) less
      (List.mem_of_mem_filter again)
    simp [old] at present
  · intro near _ middle smaller after split less again
    by_contra unseen
    refine near (middle.filter (· ∉ seen)) smaller (after.filter (· ∉ seen)) ?_ less ?_
    · rw [split]
      simp [unseen]
    · exact List.mem_filter.mpr ⟨again, by simp [new]⟩

def absorb : Row → List Row → Row × List Row
  | row, [] => (row, [])
  | row, other :: rest =>
    if rank (key other) < rank (key row) then (row, other :: rest)
    else if key other = key row then absorb (merge row other) rest
    else ((absorb row rest).1, other :: (absorb row rest).2)

def combine : Nat → List Row → List Row
  | 0, rows => rows
  | _ + 1, [] => []
  | n + 1, row :: rest =>
    (absorb key rank merge row rest).1 :: combine n (absorb key rank merge row rest).2

theorem filter_seen {seen : List Key} (known : head ∈ seen) (rows : List Row) :
    rows.filter (key · ∉ seen) = rows.filter (key · ∉ head :: seen) := by
  congr 1
  funext other
  by_cases equal : key other = head
  · simp [equal, known]
  · simp [equal]

theorem filter_new (seen : List Key) (head : Key) (rows : List Row) :
    (rows.filter (key · ∉ seen)).filter (key · ≠ head) = rows.filter (key · ∉ head :: seen) := by
  rw [List.filter_filter]
  congr 1
  funext other
  simp [not_or]

theorem filter_own {seen : List Key} (new : head ∉ seen) (rows : List Row) :
    (rows.filter (key · ∉ seen)).filter (key · = head) = rows.filter (key · = head) := by
  rw [List.filter_filter]
  congr 1
  funext other
  by_cases equal : key other = head
  · simp [equal, new]
  · simp [equal]

theorem map_filter_seen (seen : List Key) (rows : List Row) :
    (rows.map key).filter (· ∉ seen) = (rows.filter (key · ∉ seen)).map key := by
  rw [List.filter_map]
  rfl

section

variable (kept : ∀ row other, key (merge row other) = key row)
include kept

theorem absorb_key (rest : List Row) : ∀ row, key (absorb key rank merge row rest).1 = key row := by
  induction rest with
  | nil => exact fun _ => rfl
  | cons other rest ih =>
    intro row
    rw [absorb]
    split
    · rfl
    · split
      · rw [ih, kept]
      · exact ih row

omit kept in
theorem absorb_length (rest : List Row) : ∀ row, (absorb key rank merge row rest).2.length ≤ rest.length := by
  induction rest with
  | nil => exact fun _ => Nat.le_refl _
  | cons other rest ih =>
    intro row
    rw [absorb]
    split
    · exact Nat.le_refl _
    · split
      · have shorter := ih (merge row other)
        simp only [List.length_cons]
        omega
      · have shorter := ih row
        simp only [List.length_cons]
        omega

theorem absorb_near {rest : List Row} : ∀ (row : Row),
    Near rank (key row) (rest.map key) → absorb key rank merge row rest =
      ((rest.filter (key · = key row)).foldl merge row, rest.filter (key · ≠ key row)) := by
  induction rest with
  | nil => exact fun _ _ => rfl
  | cons other rest ih =>
    intro row near
    rw [map_cons, near_cons] at near
    obtain ⟨start, near⟩ := near
    rw [absorb]
    by_cases less : rank (key other) < rank (key row)
    · have different : key other ≠ key row := fun same => by rw [same] at less; omega
      have absent : ∀ another ∈ rest, key another ≠ key row := fun another member same =>
        start less (mem_map.mpr ⟨another, member, same⟩)
      have none : rest.filter (key · = key row) = [] :=
        List.filter_eq_nil_iff.mpr fun another member => by simp [absent another member]
      have all : rest.filter (key · ≠ key row) = rest :=
        List.filter_eq_self.mpr fun another member => by simp [absent another member]
      rw [if_pos less, filter_cons_of_neg (by simp [different]),
        filter_cons_of_pos (by simp [different]), none, all]
      rfl
    · rw [if_neg less]
      by_cases same : key other = key row
      · have next := ih (merge row other) (by rw [kept]; exact near)
        rw [kept] at next
        rw [if_pos same, next, filter_cons_of_pos (by simp [same]),
          filter_cons_of_neg (by simp [same])]
        rfl
      · rw [if_neg same, ih row near, filter_cons_of_neg (by simp [same]),
          filter_cons_of_pos (by simp [same])]

theorem near_of_absorbed {rest : List Row} : ∀ (row : Row),
    key row ∉ (absorb key rank merge row rest).2.map key → Near rank (key row) (rest.map key) := by
  induction rest with
  | nil =>
    intro row _ before smaller after split
    simp at split
  | cons other rest ih =>
    intro row absent
    rw [map_cons, near_cons]
    rw [absorb] at absent
    split at absent
    · have gone : key row ∉ rest.map key := fun member => absent (by simp [member])
      refine ⟨fun _ => gone, fun before smaller after split _ member => gone ?_⟩
      rw [split]
      simp [member]
    · rename_i more
      refine ⟨fun less => absurd less more, ?_⟩
      split at absent
      · rename_i same
        have next := ih (merge row other) (by rw [kept]; exact absent)
        rwa [kept] at next
      · exact ih row fun member => absent (by rw [map_cons]; exact List.mem_cons_of_mem _ member)

theorem absorb_members (rest : List Row) (row : Row) (k : Key) :
    k ∈ key row :: rest.map key ↔ k ∈ key row :: (absorb key rank merge row rest).2.map key := by
  induction rest generalizing row with
  | nil => rfl
  | cons other rest ih =>
    rw [absorb]
    split
    · rfl
    · split
      · rename_i same
        have next := ih (merge row other)
        rw [kept] at next
        rw [← next]
        simp [same]
      · have next := ih row
        simp only [map_cons, mem_cons] at next ⊢
        rw [or_left_comm, next, or_left_comm]

theorem mem_combine (n : Nat) : ∀ (rows : List Row) (k : Key),
    k ∈ (combine key rank merge n rows).map key ↔ k ∈ rows.map key := by
  induction n with
  | zero => exact fun _ _ => Iff.rfl
  | succ n ih =>
    intro rows k
    cases rows with
    | nil => rfl
    | cons row rest =>
      rw [combine, map_cons, map_cons, mem_cons, ih,
        absorb_key key rank merge kept, absorb_members key rank merge kept rest row k,
        mem_cons]

omit kept in
theorem combine_enough (n : Nat) : ∀ {rows : List Row}, rows.length ≤ n →
    combine key rank merge (n + 1) rows = combine key rank merge n rows := by
  induction n with
  | zero =>
    intro rows none
    rw [List.eq_nil_of_length_eq_zero (Nat.le_zero.mp none)]
    rfl
  | succ n ih =>
    intro rows enough
    cases rows with
    | nil => rfl
    | cons row rest =>
      have shorter := absorb_length key rank merge rest row
      rw [List.length_cons] at enough
      rw [combine, combine, ih (by omega)]

theorem combine_lowest [BEq Key] [LawfulBEq Key] {lowest : Key} (least : rank lowest = 0) (n : Nat) :
    ∀ {rows : List Row}, rows.length ≤ n → ((combine key rank merge n rows).map key).count lowest ≤ 1 := by
  induction n with
  | zero =>
    intro rows none
    rw [List.eq_nil_of_length_eq_zero (Nat.le_zero.mp none)]
    simp [combine]
  | succ n ih =>
    intro rows enough
    cases rows with
    | nil => simp [combine]
    | cons row rest =>
      have shorter := absorb_length key rank merge rest row
      rw [length_cons] at enough
      rw [combine, map_cons, absorb_key key rank merge kept]
      by_cases same : key row = lowest
      · have near : Near rank (key row) (rest.map key) := by
          intro before smaller after _ less
          rw [same, least] at less
          exact absurd less (Nat.not_lt_zero _)
        have gone : lowest ∉ (combine key rank merge n (absorb key rank merge row rest).2).map key := by
          rw [mem_combine key rank merge kept, absorb_near key rank merge kept row near]
          intro member
          obtain ⟨other, among, equal⟩ := mem_map.mp member
          simp [same, equal] at among
        have none := List.count_eq_zero_of_not_mem gone
        rw [same, List.count_cons_self]
        omega
      · rw [List.count_cons_of_ne same]
        exact ih (by omega)

theorem combine_nodup_from (rows : List Row) : ∀ (n : Nat) (seen : List Key),
    (rows.filter (key · ∉ seen)).length ≤ n →
      (((combine key rank merge n (rows.filter (key · ∉ seen))).map key).Nodup ↔
        Met rank seen (rows.map key)) := by
  induction rows with
  | nil =>
    intro n seen _
    refine iff_of_true ?_ fun before first middle smaller after split => by simp at split
    cases n <;> exact List.nodup_nil
  | cons row rest ih =>
    intro n seen enough
    have filters := filter_new key seen (key row) rest
    rw [map_cons]
    by_cases known : key row ∈ seen
    · have same := filter_seen key known rest
      rw [filter_cons_of_neg (by simp [known])] at enough ⊢
      rw [met_cons_seen rank known, same]
      rw [same] at enough
      exact ih n (key row :: seen) enough
    · rw [filter_cons_of_pos (by simp [known])] at enough ⊢
      cases n with
      | zero => simp at enough
      | succ n =>
        rw [length_cons] at enough
        rw [combine, map_cons, List.nodup_cons, mem_combine key rank merge kept,
          absorb_key key rank merge kept, met_cons_new rank known, map_filter_seen]
        constructor
        · rintro ⟨absent, distinct⟩
          have near := near_of_absorbed key rank merge kept row absent
          rw [absorb_near key rank merge kept row near, filters] at distinct
          have shorter : (rest.filter (key · ∉ key row :: seen)).length ≤ n := by
            rw [← filters]
            exact Nat.le_trans (List.length_filter_le _ _) (by omega)
          exact ⟨near, (ih n (key row :: seen) shorter).mp distinct⟩
        · rintro ⟨near, met⟩
          have shorter : (rest.filter (key · ∉ key row :: seen)).length ≤ n := by
            rw [← filters]
            exact Nat.le_trans (List.length_filter_le _ _) (by omega)
          rw [absorb_near key rank merge kept row near, filters]
          refine ⟨fun member => ?_, (ih n (key row :: seen) shorter).mpr met⟩
          obtain ⟨other, among, same⟩ := mem_map.mp member
          simp [same] at among

theorem combine_nodup {n : Nat} {rows : List Row} (enough : rows.length ≤ n) :
    ((combine key rank merge n rows).map key).Nodup ↔ Met rank [] (rows.map key) := by
  have whole := combine_nodup_from key rank merge kept rows n []
  simp only [not_mem_nil, not_false_eq_true, decide_true, List.filter_true] at whole
  exact whole enough

theorem combine_value_from (rows : List Row) : ∀ (n : Nat) (seen : List Key),
    (rows.filter (key · ∉ seen)).length ≤ n → Met rank seen (rows.map key) →
      ∀ row ∈ combine key rank merge n (rows.filter (key · ∉ seen)),
        ∃ first others, rows.filter (key · = key row) = first :: others ∧
          row = others.foldl merge first ∧ key row ∉ seen := by
  induction rows with
  | nil =>
    intro n seen _ _ row member
    cases n <;> cases member
  | cons head rest ih =>
    intro n seen enough met row member
    rw [map_cons] at met
    by_cases known : key head ∈ seen
    · have same := filter_seen key known rest
      rw [filter_cons_of_neg (by simp [known]), same] at enough member
      obtain ⟨first, others, among, value, fresh⟩ :=
        ih n (key head :: seen) enough ((met_cons_seen rank known).mp met) row member
      rw [mem_cons, not_or] at fresh
      refine ⟨first, others, ?_, value, fresh.2⟩
      rw [filter_cons_of_neg (by simp [Ne.symm fresh.1])]
      exact among
    · obtain ⟨near, met⟩ := (met_cons_new rank known).mp met
      have filters := filter_new key seen (key head) rest
      have own := filter_own key known rest
      rw [map_filter_seen] at near
      rw [filter_cons_of_pos (by simp [known])] at enough member
      cases n with
      | zero => simp at enough
      | succ n =>
        rw [length_cons] at enough
        rw [combine, absorb_near key rank merge kept head near, own, filters, mem_cons] at member
        rcases member with rfl | member
        · have sameKey : key ((rest.filter (key · = key head)).foldl merge head) = key head := by
            have absorbed := absorb_key key rank merge kept (rest.filter (key · ∉ seen)) head
            rwa [absorb_near key rank merge kept head near, own] at absorbed
          refine ⟨head, rest.filter (key · = key head), ?_, rfl, by rw [sameKey]; exact known⟩
          rw [sameKey, filter_cons_of_pos (by simp)]
        · have shorter : (rest.filter (key · ∉ key head :: seen)).length ≤ n := by
            rw [← filters]
            exact Nat.le_trans (List.length_filter_le _ _) (by omega)
          obtain ⟨first, others, among, value, fresh⟩ :=
            ih n (key head :: seen) shorter met row member
          rw [mem_cons, not_or] at fresh
          refine ⟨first, others, ?_, value, fresh.2⟩
          rw [filter_cons_of_neg (by simp [Ne.symm fresh.1])]
          exact among

theorem combine_value {n : Nat} {rows : List Row} (enough : rows.length ≤ n)
    (met : Met rank [] (rows.map key)) {row : Row} (member : row ∈ combine key rank merge n rows) :
    ∃ first others, rows.filter (key · = key row) = first :: others ∧ row = others.foldl merge first := by
  have whole := combine_value_from key rank merge kept rows n []
  simp only [not_mem_nil, not_false_eq_true, decide_true, List.filter_true] at whole
  obtain ⟨first, others, among, value, _⟩ := whole enough met row member
  exact ⟨first, others, among, value⟩

end

end RankedMerge
