import Mathlib.Data.List.TakeWhile

/-! Strings that end with a NUL, in a text that may go on behind it. -/

namespace CString

variable {Unit : Type} [DecidableEq Unit]

def upToNul (nul : Unit) (text : List Unit) : List Unit :=
  text.takeWhile (· ≠ nul)

variable {nul : Unit}

theorem upToNul_eq {text : List Unit} (string : nul ∉ text) : upToNul nul text = text := by
  refine List.takeWhile_eq_self_iff.mpr fun unit member => ?_
  simpa using fun same : unit = nul => string (same ▸ member)

theorem upToNul_twice (text : List Unit) : upToNul nul (upToNul nul text) = upToNul nul text := by
  refine upToNul_eq fun member => ?_
  simpa using List.mem_takeWhile_imp member

theorem upToNul_ended (text : List Unit) : upToNul nul (text ++ [nul]) = upToNul nul text := by
  induction text with
  | nil => simp [upToNul]
  | cons unit rest ih =>
    rw [upToNul, upToNul, List.cons_append, List.takeWhile_cons, List.takeWhile_cons]
    split
    · exact congrArg (unit :: ·) ih
    · rfl

theorem upToNul_cases (text : List Unit) : text = upToNul nul text ∨ upToNul nul text ++ [nul] <+: text := by
  induction text with
  | nil => exact .inl rfl
  | cons unit rest ih =>
    by_cases last : unit = nul
    · subst last
      have stops : upToNul unit (unit :: rest) = [] := List.takeWhile_cons_of_neg (by simp)
      rw [stops]
      exact .inr ⟨rest, rfl⟩
    · have more : upToNul nul (unit :: rest) = unit :: upToNul nul rest :=
        List.takeWhile_cons_of_pos (by simpa using last)
      rw [more]
      rcases ih with whole | ended
      · exact .inl (congrArg (unit :: ·) whole)
      · exact .inr (List.prefix_cons_inj unit |>.mpr ended)

theorem upToNul_eq_iff {text string : List Unit} (ends : nul ∉ string) :
    upToNul nul text = string ↔ text = string ∨ string ++ [nul] <+: text := by
  constructor
  · rintro rfl
    exact upToNul_cases text
  · rintro (rfl | ⟨rest, rfl⟩)
    · exact upToNul_eq ends
    · have all : ∀ unit ∈ string, unit ≠ nul := fun unit member same => ends (same ▸ member)
      rw [upToNul, List.append_assoc, List.takeWhile_append_of_pos (by simpa using all)]
      simp

theorem upToNul_append_nul (text rest : List Unit) : upToNul nul (text ++ nul :: rest) = upToNul nul text := by
  induction text with
  | nil => simp [upToNul]
  | cons unit text ih =>
    rw [upToNul, upToNul, List.cons_append, List.takeWhile_cons, List.takeWhile_cons]
    split
    · rw [← upToNul, ← upToNul, ih]
    · rfl

variable {newline : Unit}

def firstLine (newline : Unit) : List Unit → List Unit
  | [] => []
  | unit :: rest => if unit = newline then [unit] else unit :: firstLine newline rest

def lines (newline : Unit) : List Unit → List (List Unit)
  | [] => []
  | unit :: rest =>
    if unit = newline then [unit] :: lines newline rest
    else match lines newline rest with
      | [] => [[unit]]
      | line :: more => (unit :: line) :: more

theorem lines_cons (unit : Unit) (rest : List Unit) :
    lines newline (unit :: rest) = firstLine newline (unit :: rest) ::
      lines newline ((unit :: rest).drop (firstLine newline (unit :: rest)).length) := by
  induction rest generalizing unit with
  | nil =>
    rw [lines, firstLine]
    split <;> rfl
  | cons next rest ih =>
    rw [lines, firstLine]
    split
    · rfl
    · rw [ih next]
      rfl

theorem lines_flatten (text : List Unit) : (lines newline text).flatten = text := by
  induction text with
  | nil => rfl
  | cons unit rest ih =>
    rw [lines]
    split
    · rw [List.flatten_cons, ih, List.singleton_append]
    · cases behind : lines newline rest with
      | nil =>
        rw [behind] at ih
        rw [← ih]
        rfl
      | cons line more =>
        rw [behind] at ih
        rw [← ih]
        rfl

theorem nil_not_mem_lines (text : List Unit) : [] ∉ lines newline text := by
  induction text with
  | nil => exact List.not_mem_nil
  | cons unit rest ih =>
    rw [lines]
    split
    · simpa using ih
    · cases behind : lines newline rest with
      | nil => simp
      | cons line more =>
        rw [behind, List.mem_cons, not_or] at ih
        simpa using ih.2

theorem firstLine_ne_nil {text : List Unit} (some_ : text ≠ []) : firstLine newline text ≠ [] := by
  cases text with
  | nil => exact absurd rfl some_
  | cons unit rest =>
    rw [firstLine]
    split <;> exact List.cons_ne_nil _ _

theorem firstLine_of_not_mem {text : List Unit} (single : newline ∉ text) : firstLine newline text = text := by
  induction text with
  | nil => rfl
  | cons unit rest ih =>
    rw [List.mem_cons, not_or] at single
    rw [firstLine, if_neg (Ne.symm single.1), ih single.2]

theorem lines_of_not_mem {text : List Unit} (some_ : text ≠ []) (single : newline ∉ text) :
    lines newline text = [text] := by
  cases text with
  | nil => exact absurd rfl some_
  | cons unit rest => rw [lines_cons, firstLine_of_not_mem single, List.drop_length, lines]

theorem firstLine_prefixed (text : List Unit) :
    text = firstLine newline text ++ text.drop (firstLine newline text).length := by
  induction text with
  | nil => rfl
  | cons unit rest ih =>
    rw [firstLine]
    split
    · rfl
    · rw [List.length_cons, List.drop_succ_cons, List.cons_append, ← ih]

def chunk (newline : Unit) (room : Nat) (text : List Unit) : List Unit :=
  (firstLine newline text).take room

/-- The buffer and the text that are left by `fgets`. It does not change the buffer at the end of
the text. -/
def fgets (newline nul : Unit) (size : Nat) (buffer text : List Unit) : List Unit × List Unit :=
  if size = 0 then (buffer, text)
  else if size = 1 then (buffer.set 0 nul, text)
  else
    let read := chunk newline (size - 1) text
    if read = [] then (buffer, text)
    else (read ++ nul :: buffer.drop (read.length + 1), text.drop read.length)

theorem fgets_eof {size : Nat} (room : 1 < size) (buffer : List Unit) :
    fgets newline nul size buffer [] = (buffer, []) := by
  rw [fgets, if_neg (by omega), if_neg (by omega)]
  simp [chunk, firstLine]

theorem chunk_ne_nil {room : Nat} (some_ : 0 < room) {text : List Unit} (more : text ≠ []) :
    chunk newline room text ≠ [] := by
  intro nothing
  rcases List.take_eq_nil_iff.mp nothing with none_ | empty
  · omega
  · exact firstLine_ne_nil more empty

theorem fgets_more {size : Nat} (room : 1 < size) (buffer : List Unit) {text : List Unit}
    (more : text ≠ []) : fgets newline nul size buffer text =
      (chunk newline (size - 1) text ++ nul :: buffer.drop ((chunk newline (size - 1) text).length + 1),
        text.drop (chunk newline (size - 1) text).length) := by
  have read : chunk newline (size - 1) text ≠ [] := chunk_ne_nil (by omega) more
  rw [fgets, if_neg (by omega), if_neg (by omega)]
  simp only [read, if_false]

theorem length_chunk_le (room : Nat) (text : List Unit) : (chunk newline room text).length ≤ room := by
  rw [chunk, List.length_take]
  exact min_le_left _ _

theorem fgets_last {size : Nat} (room : 1 < size) {buffer : List Unit}
    (ended : buffer.getD (size - 1) nul = nul) (text : List Unit) :
    (fgets newline nul size buffer text).1.getD (size - 1) nul = nul := by
  by_cases more : text = []
  · rw [more, fgets_eof room]
    exact ended
  · have short : (chunk newline (size - 1) text).length ≤ size - 1 := length_chunk_le _ _
    rw [fgets_more room _ more, List.getD_eq_getElem?_getD, List.getElem?_append_right short]
    cases behind : size - 1 - (chunk newline (size - 1) text).length with
    | zero => rfl
    | succ k =>
      have place : (chunk newline (size - 1) text).length + 1 + k = size - 1 := by omega
      rw [List.getElem?_cons_succ, List.getElem?_drop, place, ← List.getD_eq_getElem?_getD]
      exact ended

end CString
