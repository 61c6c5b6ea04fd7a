import Mathlib.Data.List.Induction

/-!
Texts of segments with a separator before each of them.
-/

namespace Segments

variable {α : Type*} {separator : α}

def joined (separator : α) (segments : List (List α)) : List α :=
  segments.flatMap (separator :: ·)

@[simp] theorem joined_nil : joined separator [] = [] := rfl

theorem joined_cons (segment : List α) (rest : List (List α)) :
    joined separator (segment :: rest) = separator :: (segment ++ joined separator rest) := rfl

theorem joined_append (first second : List (List α)) :
    joined separator (first ++ second) = joined separator first ++ joined separator second :=
  List.flatMap_append

theorem joined_singleton (segment : List α) : joined separator [segment] = separator :: segment := by
  simp [joined]

variable {segments : List (List α)}

theorem getLast?_joined (free : ∀ segment ∈ segments, separator ∉ segment) :
    (joined separator segments).getLast? = some separator ↔ segments.getLast? = some [] := by
  induction segments using List.reverseRecOn with
  | nil => simp
  | append_singleton before last _ =>
    rw [joined_append, joined_singleton, List.getLast?_concat]
    cases last with
    | nil => simp
    | cons first rest =>
      have own := free (first :: rest) (by simp)
      have ends := List.getLast?_eq_some_getLast (List.cons_ne_nil first rest)
      have member := List.getLast_mem (List.cons_ne_nil first rest)
      rw [List.getLast?_append, List.getLast?_cons_cons, ends, Option.some_or]
      constructor
      · intro same
        rw [Option.some.inj same] at member
        exact absurd member own
      · intro impossible
        cases Option.some.inj impossible

variable [DecidableEq α]

theorem splitOn_cons_self (rest : List α) :
    (separator :: rest).splitOn separator = [] :: rest.splitOn separator := by
  rw [List.splitOn_cons_eq_if_modifyHead, if_pos (beq_self_eq_true separator)]

theorem splitOn_joined_append (rest : List α) (free : ∀ segment ∈ segments, separator ∉ segment) :
    (joined separator segments ++ separator :: rest).splitOn separator =
      [] :: (segments ++ rest.splitOn separator) := by
  induction segments with
  | nil => exact splitOn_cons_self rest
  | cons segment others ih =>
    have later := ih fun other member => free other (List.mem_cons_of_mem _ member)
    have own := free segment List.mem_cons_self
    rw [joined_cons, List.cons_append, splitOn_cons_self, List.append_assoc]
    cases others with
    | nil => rw [joined_nil, List.nil_append, List.splitOn_append_cons_self_of_not_mem own]; rfl
    | cons next more =>
      rw [joined_cons, List.cons_append, splitOn_cons_self, List.cons.injEq] at later
      rw [joined_cons, List.cons_append, List.splitOn_append_cons_self_of_not_mem own, later.2]
      rfl

theorem splitOn_joined (free : ∀ segment ∈ segments, separator ∉ segment) :
    (joined separator segments).splitOn separator = [] :: segments := by
  induction segments using List.reverseRecOn with
  | nil => exact List.splitOn_nil separator
  | append_singleton before last _ =>
    rw [joined_append, joined_singleton, splitOn_joined_append last fun segment member =>
      free segment (List.mem_append_left _ member)]
    rw [List.splitOn_eq_singleton (free last (by simp))]

theorem joined_injective {first second : List (List α)} (freeFirst : ∀ segment ∈ first, separator ∉ segment)
    (freeSecond : ∀ segment ∈ second, separator ∉ segment) :
    joined separator first = joined separator second ↔ first = second := by
  refine ⟨fun same => ?_, congrArg _⟩
  have split := congrArg (List.splitOn separator) same
  rw [splitOn_joined freeFirst, splitOn_joined freeSecond, List.cons.injEq] at split
  exact split.2

theorem joined_splitOn (text : List α) : joined separator (text.splitOn separator) = separator :: text := by
  induction text with
  | nil =>
    rw [List.splitOn_nil]
    rfl
  | cons first rest ih =>
    rw [List.splitOn_cons_eq_if_modifyHead]
    split
    · rename_i same
      rw [joined_cons, List.nil_append, ih, beq_iff_eq.mp same]
    · cases pieces : rest.splitOn separator with
      | nil => exact absurd pieces (List.splitOn_ne_nil _ _)
      | cons piece others =>
        rw [pieces, joined_cons, List.cons.injEq] at ih
        rw [List.modifyHead_cons, joined_cons, List.cons_append, ih.2]

theorem notMem_of_mem_splitOn {text segment : List α} (member : segment ∈ text.splitOn separator) :
    separator ∉ segment := by
  induction text generalizing segment with
  | nil =>
    rw [List.splitOn_nil, List.mem_singleton] at member
    subst member
    exact List.not_mem_nil
  | cons first rest ih =>
    rw [List.splitOn_cons_eq_if_modifyHead] at member
    split at member
    · rcases List.mem_cons.mp member with rfl | later
      · exact List.not_mem_nil
      · exact ih later
    · rename_i different
      cases pieces : rest.splitOn separator with
      | nil => exact absurd pieces (List.splitOn_ne_nil _ _)
      | cons piece others =>
        rw [pieces, List.modifyHead_cons] at member
        rcases List.mem_cons.mp member with rfl | later
        · rw [List.mem_cons, not_or]
          refine ⟨fun same => different (beq_iff_eq.mpr same.symm), ih ?_⟩
          rw [pieces]
          exact List.mem_cons_self
        · refine ih ?_
          rw [pieces]
          exact List.mem_cons_of_mem _ later

theorem dropLast_joined (free : ∀ segment ∈ segments, separator ∉ segment) :
    (((joined separator segments).reverse.dropWhile (· ≠ separator)).drop 1).reverse =
      joined separator segments.dropLast := by
  induction segments using List.reverseRecOn with
  | nil => rfl
  | append_singleton before last _ =>
    have own : ∀ element ∈ last.reverse, decide (element ≠ separator) = true := by
      intro element member
      have different : element ≠ separator := by
        rintro rfl
        exact free last (by simp) (List.mem_reverse.mp member)
      exact decide_eq_true different
    rw [joined_append, joined_singleton, List.reverse_append, List.reverse_cons,
      List.append_assoc, List.dropWhile_append_of_pos own, List.dropLast_concat]
    simp

end Segments
