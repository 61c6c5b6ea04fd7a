import OpenSpeedShop.Library.DecimalText

/-!
The conversions of the C library from decimal text to numbers, on a text that lies in
memory with more behind it.
-/

namespace NumberText

open DecimalText (value)

def isSpace (char : Char) : Bool :=
  char = ' ' || char = '\t' || char = '\n' || char = '\x0b' || char = '\x0c' || char = '\r'

def sign : List Char → Bool × List Char
  | '-' :: rest => (true, rest)
  | '+' :: rest => (false, rest)
  | text => (false, text)

/-- The value of a 64-bit conversion without a sign: a number that does not fit becomes the
largest one, and a negative one wraps. -/
def unsignedOf (negative : Bool) (number : Nat) : Nat :=
  if number > 18446744073709551615 then 18446744073709551615
  else if negative then (18446744073709551616 - number) % 18446744073709551616
  else number

/-- `strtoul (memory, &end, 10)`: the number and the memory from `end` on, where the conversion
began when there are no digits. The memory must not end before a character that is no digit. -/
def strtoul (memory : List Char) : Option (Nat × List Char) :=
  let (negative, text) := sign (memory.dropWhile isSpace)
  let digits := text.takeWhile Char.isDigit
  match text.dropWhile Char.isDigit with
  | [] => none
  | next :: rest =>
    if digits = [] then some (0, memory)
    else some (unsignedOf negative (value digits), next :: rest)

/-- `atoll (text)`, for a text with its end: a number that does not fit becomes the largest or
the smallest one. -/
def atoll (text : List Char) : Int :=
  let (negative, text) := sign (text.dropWhile isSpace)
  let number : Int := value (text.takeWhile Char.isDigit)
  max (-9223372036854775808) (min 9223372036854775807 (if negative then -number else number))

variable {digits rest : List Char} {next : Char}

theorem not_isSpace_of_isDigit {char : Char} (digit : char.isDigit = true) : isSpace char = false := by
  rw [isSpace]
  simp only [Bool.or_eq_false_iff, decide_eq_false_iff_not]
  refine ⟨⟨⟨⟨⟨?_, ?_⟩, ?_⟩, ?_⟩, ?_⟩, ?_⟩ <;>
    exact fun same => absurd digit (by rw [same]; decide)

theorem sign_of_isDigit {char : Char} (digit : char.isDigit = true) :
    sign (char :: rest) = (false, char :: rest) := by
  unfold sign
  split
  next same => exact absurd digit (by rw [(List.cons.inj same).1]; decide)
  next same => exact absurd digit (by rw [(List.cons.inj same).1]; decide)
  next => rfl

theorem sign_dropWhile (nonempty : digits ≠ []) (all : ∀ char ∈ digits, char.isDigit = true) :
    sign ((digits ++ rest).dropWhile isSpace) = (false, digits ++ rest) := by
  cases digits with
  | nil => exact absurd rfl nonempty
  | cons first others =>
    have digit := all first List.mem_cons_self
    rw [List.cons_append, List.dropWhile_cons_of_neg, sign_of_isDigit digit]
    simp [not_isSpace_of_isDigit digit]

section

variable (all : ∀ char ∈ digits, char.isDigit = true)
include all

theorem takeWhile_digits (ends : next.isDigit = false) :
    (digits ++ next :: rest).takeWhile Char.isDigit = digits := by
  rw [List.takeWhile_append_of_pos all, List.takeWhile_cons_of_neg (by simp [ends]), List.append_nil]

theorem takeWhile_all : digits.takeWhile Char.isDigit = digits := by
  have whole := @List.takeWhile_append_of_pos _ Char.isDigit digits [] all
  rwa [List.append_nil, List.takeWhile_nil, List.append_nil] at whole

theorem dropWhile_digits (ends : next.isDigit = false) :
    (digits ++ next :: rest).dropWhile Char.isDigit = next :: rest := by
  rw [List.dropWhile_append_of_pos all, List.dropWhile_cons_of_neg (by simp [ends])]

end

theorem strtoul_digits (nonempty : digits ≠ []) (all : ∀ char ∈ digits, char.isDigit = true)
    (ends : next.isDigit = false) :
    strtoul (digits ++ next :: rest) = some (unsignedOf false (value digits), next :: rest) := by
  simp only [strtoul, sign_dropWhile nonempty all, takeWhile_digits all ends,
    dropWhile_digits all ends, nonempty, if_false]

theorem lt_unsignedOf {bound number : Nat} (small : bound < 18446744073709551615) :
    bound < unsignedOf false number ↔ bound < number := by
  rw [unsignedOf]
  split
  · omega
  · rfl

theorem atoll_digits (nonempty : digits ≠ []) (all : ∀ char ∈ digits, char.isDigit = true)
    (fits : value digits ≤ 9223372036854775807) : atoll digits = value digits := by
  have whole : digits.takeWhile Char.isDigit = digits := takeWhile_all all
  have plain := @sign_dropWhile digits [] nonempty all
  rw [List.append_nil] at plain
  simp only [atoll, plain, whole, Bool.false_eq_true, if_false]
  omega

theorem atoll_minus (all : ∀ char ∈ digits, char.isDigit = true)
    (fits : value digits ≤ 9223372036854775808) : atoll ('-' :: digits) = -value digits := by
  have whole : digits.takeWhile Char.isDigit = digits := takeWhile_all all
  have minus : sign (('-' :: digits).dropWhile isSpace) = (true, digits) := rfl
  simp only [atoll, minus, whole, if_true]
  omega

end NumberText
