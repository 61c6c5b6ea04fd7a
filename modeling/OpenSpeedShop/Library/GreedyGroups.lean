import Mathlib.Data.List.Basic

/-!
Rows grouped in one nested scan: the first row that is left takes the rows it joins, up to the first row
of a smaller rank, and so on. The relation is symmetric.
-/

namespace GreedyGroups

open List (length_cons mem_cons_of_mem map_cons filter_cons_of_neg mem_filter mem_cons_self mem_cons
  filter_cons_of_pos any_eq_true)

variable {Row : Type} (joins : Row → Row → Bool) (rank : Row → Nat)

def taken (first : Row) : List Row → List Row
  | [] => []
  | row :: rest =>
    if rank row < rank first then []
    else if joins first row then row :: taken first rest
    else taken first rest

def left (first : Row) : List Row → List Row
  | [] => []
  | row :: rest =>
    if rank row < rank first then row :: rest
    else if joins first row then left first rest
    else row :: left first rest

def groupsFrom : Nat → List Row → List (Row × List Row)
  | 0, _ => []
  | _ + 1, [] => []
  | n + 1, first :: rest => (first, taken joins rank first rest) :: groupsFrom n (left joins rank first rest)

def groups (rows : List Row) : List (Row × List Row) :=
  groupsFrom joins rank rows.length rows

variable {joins' : Row → Row → Bool}

variable {joins rank} in
theorem taken_congr_on {first : Row} {rows : List Row}
    (same : ∀ row ∈ rows, joins first row = joins' first row) :
    taken joins rank first rows = taken joins' rank first rows ∧
      left joins rank first rows = left joins' rank first rows := by
  induction rows with
  | nil => exact ⟨rfl, rfl⟩
  | cons row rest ih =>
    obtain ⟨own, others⟩ := List.forall_mem_cons.mp same
    simp only [taken, left, own, ih others, and_self]

def Near (first : Row) (rows : List Row) : Prop :=
  ∀ before smaller after, rows = before ++ smaller :: after → rank smaller < rank first →
    ∀ row ∈ after, joins first row = false

/-- Leaving out the rows that the first one joins, and so on: no row of a smaller rank is
left between a first row and one that it joins, and no later first row joins that one, too. -/
inductive Clear : List Row → List Row → Prop
  | nil : Clear [] []
  | cons {first : Row} {rest firsts : List Row} (near : Near joins rank first rest)
      (apart : ∀ other ∈ firsts, ∀ row ∈ rest, joins first row → joins other row = false)
      (others : Clear (rest.filter (!joins first ·)) firsts) :
      Clear (first :: rest) (first :: firsts)

variable {joins rank} {first : Row} {rest rows : List Row}

theorem taken_sublist : (taken joins rank first rows).Sublist rows := by
  induction rows with
  | nil => exact List.Sublist.refl _
  | cons row rest ih =>
    rw [taken]
    split
    · exact List.nil_sublist _
    · split
      · exact ih.cons_cons row
      · exact ih.cons row

theorem left_sublist : (left joins rank first rows).Sublist rows := by
  induction rows with
  | nil => exact List.Sublist.refl _
  | cons row rest ih =>
    rw [left]
    split
    · exact List.Sublist.refl _
    · split
      · exact ih.cons row
      · exact ih.cons_cons row

theorem groupsFrom_enough : ∀ (n : Nat) {rows : List Row}, rows.length ≤ n →
    groupsFrom joins rank n rows = groups joins rank rows := by
  intro n
  induction n using Nat.strongRecOn with
  | ind n ih =>
    intro rows enough
    cases rows with
    | nil => cases n <;> rfl
    | cons first rest =>
      rw [length_cons] at enough
      obtain ⟨n, rfl⟩ : ∃ m, n = m + 1 := ⟨n - 1, by omega⟩
      have fewer : (left joins rank first rest).length ≤ rest.length :=
        left_sublist.length_le
      rw [groups, length_cons, groupsFrom, groupsFrom, ih n (by omega) (by omega)]
      by_cases same : rest.length = n
      · rw [same, ih n (by omega) (by omega)]
      · rw [ih rest.length (by omega) fewer]

theorem groups_cons (first : Row) (rest : List Row) :
    groups joins rank (first :: rest) = (first, taken joins rank first rest) ::
      groups joins rank (left joins rank first rest) := by
  rw [groups, length_cons, groupsFrom, groupsFrom_enough _ left_sublist.length_le]

theorem groups_congr (same : ∀ row ∈ rows, ∀ other ∈ rows, joins row other = joins' row other) :
    groups joins rank rows = groups joins' rank rows := by
  induction size : rows.length using Nat.strongRecOn generalizing rows with
  | ind size ih =>
    cases rows with
    | nil => rfl
    | cons first rest =>
      have own := @taken_congr_on _ joins rank joins' first rest fun row inside =>
        same first mem_cons_self row (mem_cons_of_mem _ inside)
      have fewer : (left joins rank first rest).length ≤ rest.length := left_sublist.length_le
      have kept : ∀ row ∈ left joins rank first rest, row ∈ first :: rest :=
        fun row inside => mem_cons_of_mem _ (left_sublist.subset inside)
      rw [length_cons] at size
      rw [groups_cons, groups_cons, ← own.1, ← own.2, ih _ (by omega) (fun row inside other present =>
          same row (kept row inside) other (kept other present)) rfl]

theorem groups_never : groups (fun _ _ => false) rank rows = rows.map (·, []) := by
  have scan (first : Row) (rest : List Row) : taken (fun _ _ => false) rank first rest = [] ∧
      left (fun _ _ => false) rank first rest = rest := by
    induction rest with
    | nil => exact ⟨rfl, rfl⟩
    | cons row rest ih =>
      simp only [taken, left, ih, Bool.false_eq_true, if_false, ite_self, and_self]
  induction rows with
  | nil => rfl
  | cons first rest ih => rw [groups_cons, (scan first rest).1, (scan first rest).2, ih, map_cons]

theorem near_cons {row : Row} : Near joins rank first (row :: rest) ↔
      (rank row < rank first → ∀ other ∈ rest, joins first other = false) ∧ Near joins rank first rest := by
  constructor
  · intro near
    refine ⟨fun smaller => near [] row rest rfl smaller, ?_⟩
    intro before smaller after split
    exact near (row :: before) smaller after (by rw [split]; rfl)
  · rintro ⟨start, near⟩ before smaller after split less
    cases before with
    | nil =>
      obtain ⟨rfl, rfl⟩ := List.cons.inj split
      exact start less
    | cons head before =>
      obtain ⟨rfl, rfl⟩ := List.cons.inj split
      exact near before smaller after rfl less

def Ranked (joins : Row → Row → Bool) (rank : Row → Nat) : Prop :=
  ∀ first row, joins first row = true → rank first = rank row

theorem near_iff (ranked : Ranked joins rank) :
    Near joins rank first rows ↔ taken joins rank first rows = rows.filter (joins first ·) := by
  induction rows with
  | nil =>
    refine iff_of_true ?_ rfl
    intro before smaller after split
    simp at split
  | cons row rest ih =>
    rw [near_cons, taken]
    by_cases smaller : rank row < rank first
    · have unjoined : joins first row = false := by
        by_contra joined
        have := ranked first row (by simpa using joined)
        omega
      rw [if_pos smaller, filter_cons_of_neg (by simp [unjoined]), eq_comm, List.filter_eq_nil_iff]
      constructor
      · intro near other inside
        simp [near.1 smaller other inside]
      · intro none
        have far : ∀ other ∈ rest, joins first other = false :=
          fun other inside => by simpa using none other inside
        refine ⟨fun _ => far, ?_⟩
        rintro before _ after rfl _ other inside
        exact far other (List.mem_append_right _ (mem_cons_of_mem _ inside))
    · rw [if_neg smaller, ih]
      by_cases joined : joins first row = true
      · rw [if_pos joined, filter_cons_of_pos joined]
        exact ⟨fun near => congrArg (row :: ·) near.2,
          fun same => ⟨fun less => absurd less smaller, (List.cons.inj same).2⟩⟩
      · rw [if_neg joined, filter_cons_of_neg joined]
        exact and_iff_right fun less => absurd less smaller

theorem left_of_near (near : Near joins rank first rows) (ranked : Ranked joins rank) :
    left joins rank first rows = rows.filter (!joins first ·) := by
  induction rows with
  | nil => rfl
  | cons row rest ih =>
    obtain ⟨start, later⟩ := near_cons.mp near
    rw [left]
    by_cases smaller : rank row < rank first
    · have unjoined : joins first row = false := by
        by_contra joined
        have := ranked first row (by simpa using joined)
        omega
      rw [if_pos smaller, eq_comm, List.filter_eq_self]
      intro other inside
      rcases mem_cons.mp inside with rfl | inside
      · simp [unjoined]
      · simp [start smaller other inside]
    · rw [if_neg smaller, ih later]
      by_cases joined : joins first row = true
      · rw [if_pos joined, filter_cons_of_neg (by simp [joined])]
      · rw [if_neg joined, filter_cons_of_pos (by simp [joined])]

theorem taken_left_perm : (taken joins rank first rows ++ left joins rank first rows).Perm rows := by
  induction rows with
  | nil => exact List.Perm.refl _
  | cons row rest ih =>
    rw [taken, left]
    split
    · exact List.Perm.refl _
    · split
      · exact ih.cons row
      · exact List.perm_middle.trans (ih.cons row)

theorem groups_perm (rows : List Row) :
    ((groups joins rank rows).flatMap fun group => group.1 :: group.2).Perm rows := by
  induction size : rows.length using Nat.strongRecOn generalizing rows with
  | ind size ih =>
    cases rows with
    | nil => exact List.Perm.refl _
    | cons first rest =>
      have fewer : (left joins rank first rest).length ≤ rest.length := left_sublist.length_le
      rw [groups_cons, List.flatMap_cons, List.cons_append]
      rw [length_cons] at size
      have later := ih (left joins rank first rest).length (by omega) _ rfl
      exact ((later.append_left _).trans taken_left_perm).cons first

theorem firsts_sublist (rows : List Row) : ((groups joins rank rows).map Prod.fst).Sublist rows := by
  induction size : rows.length using Nat.strongRecOn generalizing rows with
  | ind size ih =>
    cases rows with
    | nil => exact List.Sublist.refl _
    | cons first rest =>
      have fewer : (left joins rank first rest).length ≤ rest.length := left_sublist.length_le
      rw [groups_cons, map_cons]
      rw [length_cons] at size
      exact ((ih _ (by omega) _ rfl).trans left_sublist).cons_cons first

theorem group_sublist {rows : List Row} : ∀ {group : Row × List Row},
    group ∈ groups joins rank rows → (group.1 :: group.2).Sublist rows := by
  induction size : rows.length using Nat.strongRecOn generalizing rows with
  | ind size ih =>
    intro group inside
    cases rows with
    | nil => exact absurd inside List.not_mem_nil
    | cons first rest =>
      have fewer : (left joins rank first rest).length ≤ rest.length := left_sublist.length_le
      rw [length_cons] at size
      rw [groups_cons] at inside
      rcases mem_cons.mp inside with rfl | inside
      · exact taken_sublist.cons_cons first
      · exact ((ih _ (by omega) rfl inside).trans left_sublist).cons first

variable {firsts : List Row}

theorem Clear.firsts_eq (clear : Clear joins rank rows firsts)
    (ranked : Ranked joins rank) : (groups joins rank rows).map Prod.fst = firsts := by
  induction clear with
  | nil => rfl
  | cons near apart others ih =>
    rw [groups_cons, left_of_near near ranked, map_cons, ih]

theorem Clear.mem (clear : Clear joins rank rows firsts) {row : Row} (inside : row ∈ firsts) : row ∈ rows := by
  induction clear with
  | nil => exact inside
  | cons near apart others ih =>
    rcases mem_cons.mp inside with rfl | inside
    · exact mem_cons_self
    · exact mem_cons_of_mem _ (mem_filter.mp (ih inside)).1

theorem Clear.firsts_apart (clear : Clear joins rank rows firsts) :
    firsts.Pairwise fun first other => joins first other = false := by
  induction clear with
  | nil => exact List.Pairwise.nil
  | cons near apart others ih =>
    refine List.pairwise_cons.mpr ⟨fun other inside => ?_, ih⟩
    simpa using (mem_filter.mp (others.mem inside)).2

def Complete (joins : Row → Row → Bool) (rank : Row → Nat) (rows : List Row) : Prop :=
  ∀ group ∈ groups joins rank rows, group.1 :: group.2 = rows.filter (joins group.1 ·)

theorem filter_others {other : Row} (apart : ∀ row ∈ rows, joins first row → joins other row = false) :
    rows.filter (joins other ·) = (rows.filter (!joins first ·)).filter (joins other ·) := by
  rw [List.filter_filter]
  refine List.filter_congr fun row inside => ?_
  by_cases joined : joins first row = true
  · simp [joined, apart row inside joined]
  · simp [joined]

section

variable (ranked : Ranked joins rank) (reflexive : ∀ row, joins row row = true)
  (symmetric : ∀ first row, joins first row = joins row first)

include ranked reflexive symmetric

theorem complete_of_clear {firsts : List Row} (clear : Clear joins rank rows firsts) :
    Complete joins rank rows := by
  induction clear with
  | nil => exact fun _ inside => absurd inside List.not_mem_nil
  | @cons first rest firsts near apart others ih =>
    intro group inside
    rw [groups_cons, left_of_near near ranked] at inside
    rcases mem_cons.mp inside with rfl | inside
    · rw [filter_cons_of_pos (reflexive first), (near_iff ranked).mp near]
    · have isFirst : group.1 ∈ firsts :=
        others.firsts_eq ranked ▸ List.mem_map_of_mem inside
      have left := (mem_filter.mp (others.mem isFirst)).2
      have unjoined : joins group.1 first = false := by
        rw [symmetric]
        simpa using left
      rw [filter_cons_of_neg (by simp [unjoined]), filter_others (apart group.1 isFirst)]
      exact ih group inside

theorem clear_of_complete (complete : Complete joins rank rows) :
    Clear joins rank rows ((groups joins rank rows).map Prod.fst) := by
  induction size : rows.length using Nat.strongRecOn generalizing rows with
  | ind size ih =>
    cases rows with
    | nil => exact Clear.nil
    | cons first rest =>
      rw [length_cons] at size
      have own := complete (first, taken joins rank first rest) (by rw [groups_cons]; exact mem_cons_self)
      rw [filter_cons_of_pos (reflexive first)] at own
      have near := (near_iff ranked).mpr (List.cons.inj own).2
      have others := left_of_near near ranked
      have members {group : Row × List Row}
          (inside : group ∈ groups joins rank (rest.filter (!joins first ·))) :
          ∀ row ∈ first :: rest, joins group.1 row → row ∈ rest.filter (!joins first ·) := by
        have whole := complete group (by rw [groups_cons, others]; exact mem_cons_of_mem _ inside)
        intro row stands joined
        exact (group_sublist inside).subset (whole ▸ mem_filter.mpr ⟨stands, joined⟩)
      have apart : ∀ group ∈ groups joins rank (rest.filter (!joins first ·)),
          ∀ row ∈ rest, joins first row → joins group.1 row = false := by
        intro group inside row stands joined
        by_contra both
        have kept := members inside row (mem_cons_of_mem _ stands) (by simpa using both)
        simp [joined] at kept
      rw [groups_cons, others, map_cons]
      refine Clear.cons near ?_ (ih _ (by
        have := List.length_filter_le (!joins first ·) rest
        omega) ?_ rfl)
      · intro other inside row stands joined
        obtain ⟨group, found, rfl⟩ := List.mem_map.mp inside
        exact apart group found row stands joined
      · intro group inside
        have unjoined : ¬joins group.1 first = true := by
          intro joined
          have kept := members inside first mem_cons_self joined
          simp [reflexive first] at kept
        rw [complete group (by rw [groups_cons, others]; exact mem_cons_of_mem _ inside),
          filter_cons_of_neg unjoined, filter_others (apart group inside)]

theorem complete_iff : Complete joins rank rows ↔ ∃ firsts, Clear joins rank rows firsts :=
  ⟨fun complete => ⟨_, clear_of_complete ranked reflexive symmetric complete⟩,
    fun ⟨_, clear⟩ => complete_of_clear ranked reflexive symmetric clear⟩

end

def keptFrom (joins : Row → Row → Bool) : List Row → List Row → List Row
  | _, [] => []
  | kept, row :: rest =>
    if kept.any (joins · row) then keptFrom joins kept rest
    else row :: keptFrom joins (kept ++ [row]) rest

def JoinedFrom (joins like : Row → Row → Bool) : List Row → List Row → Prop
  | _, [] => True
  | kept, row :: rest =>
    if kept.any (like · row) then kept.any (joins · row) ∧ JoinedFrom joins like kept rest
    else JoinedFrom joins like (kept ++ [row]) rest

theorem keptFrom_cons (kept : List Row) (first : Row) (rows : List Row) :
    keptFrom joins (first :: kept) rows = keptFrom joins kept (rows.filter (!joins first ·)) := by
  induction rows generalizing kept with
  | nil => rfl
  | cons row rest ih =>
    by_cases joined : joins first row = true
    · rw [keptFrom, List.any_cons, joined, Bool.true_or, if_pos rfl,
        filter_cons_of_neg (by simp [joined]), ih]
    · rw [keptFrom, List.any_cons, eq_false_of_ne_true joined, Bool.false_or,
        filter_cons_of_pos (by simp [joined]), keptFrom, List.cons_append, ih, ih]

theorem firsts_eq_keptFrom {rows : List Row} {common : Nat} (level : ∀ row ∈ rows, rank row = common) :
    (groups joins rank rows).map Prod.fst = keptFrom joins [] rows := by
  induction size : rows.length using Nat.strongRecOn generalizing rows with
  | ind size ih =>
    cases rows with
    | nil => rfl
    | cons first rest =>
      obtain ⟨own, others⟩ := List.forall_mem_cons.mp level
      have all : left joins rank first rest = rest.filter (!joins first ·) := by
        clear ih level size
        induction rest with
        | nil => rfl
        | cons row rest ih =>
          obtain ⟨next, later⟩ := List.forall_mem_cons.mp others
          rw [left, if_neg (by omega), ih later]
          by_cases joined : joins first row = true
          · rw [if_pos joined, filter_cons_of_neg (by simp [joined])]
          · rw [if_neg joined, filter_cons_of_pos (by simp [joined])]
      have fewer := List.length_filter_le (!joins first ·) rest
      rw [length_cons] at size
      rw [groups_cons, all, map_cons, keptFrom, List.any_nil, if_neg Bool.false_ne_true,
        List.nil_append, keptFrom_cons]
      exact congrArg _ (ih _ (by omega) (fun row inside => others row (mem_filter.mp inside).1) rfl)

theorem kept_apart_iff {like : Row → Row → Bool}
    (joinsLike : ∀ row other, joins row other = true → like row other = true)
    (rows : List Row) : ∀ kept : List Row, kept.Pairwise (fun row other => like row other = false) →
      ((kept ++ keptFrom joins kept rows).Pairwise (fun row other => like row other = false) ↔
        JoinedFrom joins like kept rows) := by
  induction rows with
  | nil => exact fun kept apart => iff_of_true (by rwa [keptFrom, List.append_nil]) trivial
  | cons row rest ih =>
    intro kept apart
    rw [keptFrom, JoinedFrom]
    by_cases joined : kept.any (joins · row) = true
    · obtain ⟨first, inside, own⟩ := any_eq_true.mp joined
      have known : kept.any (like · row) = true :=
        any_eq_true.mpr ⟨first, inside, joinsLike first row own⟩
      rw [if_pos joined, if_pos known, ih kept apart]
      exact (and_iff_right joined).symm
    · rw [if_neg joined]
      by_cases known : kept.any (like · row) = true
      · rw [if_pos known]
        refine iff_of_false (fun all => ?_) (fun both => joined both.1)
        obtain ⟨first, inside, own⟩ := any_eq_true.mp known
        have unlike := (List.pairwise_append.mp all).2.2 first inside row mem_cons_self
        exact absurd (own.symm.trans unlike) (by decide)
      · rw [if_neg known, ← ih (kept ++ [row]), List.append_assoc]
        · rfl
        · refine List.pairwise_append.mpr ⟨apart, List.pairwise_singleton _ _, ?_⟩
          intro first inside other single
          obtain rfl := List.mem_singleton.mp single
          by_contra equal
          exact known (any_eq_true.mpr ⟨first, inside, by simpa using equal⟩)

end GreedyGroups
