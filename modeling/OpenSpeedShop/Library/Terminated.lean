import Mathlib.Data.List.Basic

/-!
Strings stored back to back, each with a terminator behind it.
-/

namespace Terminated

variable {Item : Type*}

def flat (terminator : Item) (strings : List (List Item)) : List Item :=
  strings.flatMap fun string => string ++ [terminator]

@[simp] theorem flat_nil (terminator : Item) : flat terminator [] = [] := rfl

@[simp] theorem flat_cons (terminator : Item) (string : List Item) (strings : List (List Item)) :
    flat terminator (string :: strings) = string ++ terminator :: flat terminator strings := by
  simp [flat]

theorem flat_append (terminator : Item) (first second : List (List Item)) :
    flat terminator (first ++ second) = flat terminator first ++ flat terminator second :=
  List.flatMap_append

theorem flat_snoc (terminator : Item) (strings : List (List Item)) (string : List Item) :
    flat terminator (strings ++ [string]) = flat terminator strings ++ string ++ [terminator] := by
  simp [flat_append]

theorem flat_length_ne_zero {terminator : Item} {strings : List (List Item)}
    (some : strings ≠ []) : (flat terminator strings).length ≠ 0 := by
  cases strings with
  | nil => exact absurd rfl some
  | cons string strings =>
    rw [flat_cons, List.length_append, List.length_cons]
    omega

variable [DecidableEq Item] {terminator : Item} {strings : List (List Item)}

def leading (terminator : Item) : List Item → Option (List Item)
  | [] => none
  | item :: rest =>
    if item = terminator then some [] else (leading terminator rest).map (item :: ·)

def read (terminator : Item) (buffer : List Item) (place : Nat) : Option (List Item) :=
  leading terminator (buffer.drop place)

theorem leading_terminated {string : List Item} (clean : terminator ∉ string) (rest : List Item) :
    leading terminator (string ++ terminator :: rest) = some string := by
  induction string with
  | nil => simp [leading]
  | cons item string ih =>
    rw [List.mem_cons, not_or] at clean
    obtain ⟨apart, clean⟩ := clean
    rw [List.cons_append, leading, if_neg (Ne.symm apart), ih clean]
    rfl

theorem read_flat {before after : List (List Item)} {string : List Item} (clean : terminator ∉ string) :
    read terminator (flat terminator (before ++ string :: after))
      (flat terminator before).length = some string := by
  rw [read, flat_append, List.drop_left, flat_cons, leading_terminated clean]

theorem read_behind {buffer : List Item} {place : Nat} (behind : buffer.length ≤ place) :
    read terminator buffer place = none := by
  rw [read, List.drop_of_length_le behind, leading]

theorem leading_append {list string : List Item} (found : leading terminator list = some string)
    (more : List Item) : leading terminator (list ++ more) = some string := by
  induction list generalizing string with
  | nil => cases found
  | cons item rest ih =>
    rw [List.cons_append]
    rw [leading] at found ⊢
    split at found
    · rename_i ends
      rw [if_pos ends, found]
    · rename_i goes
      obtain ⟨tail, later, rfl⟩ := Option.map_eq_some_iff.mp found
      rw [if_neg goes, ih later]
      rfl

theorem read_append {buffer string : List Item} {place : Nat}
    (found : read terminator buffer place = some string) (more : List Item) :
    read terminator (buffer ++ more) place = some string := by
  have inside : place ≤ buffer.length := by
    by_contra behind
    rw [read_behind (by omega)] at found
    cases found
  rw [read, List.drop_append_of_le_length inside]
  exact leading_append found more

theorem clean_of_leading {list string : List Item}
    (found : leading terminator list = some string) : terminator ∉ string := by
  induction list generalizing string with
  | nil => cases found
  | cons item rest ih =>
    rw [leading] at found
    split at found
    · obtain rfl := Option.some.inj found
      exact List.not_mem_nil
    · rename_i goes
      obtain ⟨tail, later, rfl⟩ := Option.map_eq_some_iff.mp found
      rw [List.mem_cons, not_or]
      exact ⟨Ne.symm goes, ih later⟩

def splitFrom (terminator : Item) (current : List Item) : List Item → List (List Item)
  | [] => []
  | item :: rest =>
    if item = terminator then current :: splitFrom terminator [] rest
    else splitFrom terminator (current ++ [item]) rest

def split (terminator : Item) (buffer : List Item) : List (List Item) :=
  splitFrom terminator [] buffer

theorem splitFrom_terminated {string : List Item} (clean : terminator ∉ string) (rest : List Item) :
    ∀ current, splitFrom terminator current (string ++ terminator :: rest) =
      (current ++ string) :: split terminator rest := by
  induction string with
  | nil => simp [splitFrom, split]
  | cons item string ih =>
    intro current
    rw [List.mem_cons, not_or] at clean
    obtain ⟨apart, clean⟩ := clean
    rw [List.cons_append, splitFrom, if_neg (Ne.symm apart), ih clean]
    simp

theorem split_flat (clean : ∀ string ∈ strings, terminator ∉ string) :
    split terminator (flat terminator strings) = strings := by
  induction strings with
  | nil => rfl
  | cons string strings ih =>
    have first := clean string List.mem_cons_self
    have others := ih fun other member => clean other (List.mem_cons_of_mem _ member)
    rw [flat_cons, split, splitFrom_terminated first, others, List.nil_append]

end Terminated
