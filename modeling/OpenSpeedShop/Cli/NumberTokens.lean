import OpenSpeedShop.Library.NumberText

/-!
The rules of the scanner for numbers, the number of a dotted quad, and the parser's rules
for addresses and line numbers.
-/

namespace OpenSpeedShop

namespace NumberTokens

open NumberText (atoll strtoul)
open DecimalText (value)

/-- The text that `[0-9]+` matches. -/
structure Digits where
  chars : List Char
  nonempty : chars ≠ []
  digits : ∀ char ∈ chars, char.isDigit = true

def isHexDigit (char : Char) : Bool := char.isDigit || decide ('a' ≤ char ∧ char ≤ 'f')

/-- The text that `[0-9a-f]+` matches. -/
structure HexDigits where
  chars : List Char
  nonempty : chars ≠ []
  digits : ∀ char ∈ chars, isHexDigit char = true

/-- The text that `[0-9]+[.][0-9]+[.][0-9]+[.][0-9]+` matches. -/
structure DottedQuad where
  first : Digits
  second : Digits
  third : Digits
  fourth : Digits

def DottedQuad.text (quad : DottedQuad) : List Char :=
  quad.first.chars ++ '.' :: quad.second.chars ++ '.' :: quad.third.chars ++ '.' :: quad.fourth.chars

inductive Token
  | number (ival : Int)
  | hexNumber (ival : Int)
  | name (string : List Char)
deriving DecidableEq

/-- `0x[0-9a-f]+` -/
def hexRule (yytext : List Char) : Token := .hexNumber (atoll yytext)

/-- `[0-9]+` and `-[0-9]+` -/
def decimalRule (yytext : List Char) : Token := .number (atoll yytext)

abbrev Errors := List (List Char × String)

/-- The loop of `ip_number`. The memory is read from `ptr1` on; there is no result when it
ends before a number does. The number itself is not returned. -/
def ipNumberLoop (inputStr : List Char) : Nat → List Char → Errors → Option Errors
  | 0, _, errors => some errors
  | count + 1, ptr1, errors => do
      let (tNum, ptr1) ← strtoul ptr1
      let errors := if tNum > 255 then errors ++ [(inputStr, "ip_number")] else errors
      ipNumberLoop inputStr count (ptr1.drop 1) errors

/-- `ip_number (yytext, count)`, with the end of a string put over the character behind the token;
`behind` is the rest of the scanner's buffer. -/
def ipNumber (yytext : List Char) (count : Nat) (behind : List Char) : Option (List Char × Errors) := do
  let errors ← ipNumberLoop yytext count (yytext ++ '\x00' :: behind) []
  return (yytext, errors)

/-- `[0-9]+[.][0-9]+[.][0-9]+[.][0-9]+` -/
def quadRule (yytext behind : List Char) : Option (Token × Errors) := do
  let (string, errors) ← ipNumber yytext 8 behind
  return (.name string, errors)

def addressDescription : Token → Int ⊕ List Char
  | .number ival => .inl ival
  | .hexNumber ival => .inl ival
  | .name string => .inr string

def lineno : Token → Option Int
  | .number ival => some ival
  | .hexNumber ival => some ival
  | .name _ => none

end NumberTokens

/-!
Which number tokens denote their value: a hexadecimal one is read as the zero in front of
its x, and for a dotted quad four more numbers are read behind it.
-/

namespace NumberTokens

open NumberText
open DecimalText (value)

def hexDigit (char : Char) : Nat :=
  if char.isDigit then char.toNat - '0'.toNat else char.toNat - 'a'.toNat + 10

def hexValue (digits : List Char) : Nat :=
  digits.foldl (fun number digit => 16 * number + hexDigit digit) 0

def Fits (number : Int) : Prop :=
  -9223372036854775808 ≤ number ∧ number ≤ 9223372036854775807

def DottedQuad.octets (quad : DottedQuad) : List Nat :=
  [value quad.first.chars, value quad.second.chars, value quad.third.chars, value quad.fourth.chars]

def DottedQuad.HasLargeOctet (quad : DottedQuad) : Prop := ∃ octet ∈ quad.octets, 255 < octet

inductive Matched
  | decimal (negative : Bool) (digits : Digits)
  | hex (digits : HexDigits)
  | dotted (quad : DottedQuad) (behind : List Char)

def decimalText (negative : Bool) (digits : Digits) : List Char :=
  if negative then '-' :: digits.chars else digits.chars

def decimalNumber (negative : Bool) (digits : Digits) : Int :=
  if negative then -value digits.chars else value digits.chars

def hexText (digits : HexDigits) : List Char := '0' :: 'x' :: digits.chars

def Matched.DenotesValue : Matched → Prop
  | decimal negative digits => Fits (decimalNumber negative digits) →
      decimalRule (decimalText negative digits) = .number (decimalNumber negative digits)
  | hex digits => Fits (hexValue digits.chars) →
      hexRule (hexText digits) = .hexNumber (hexValue digits.chars) ∧
        addressDescription (hexRule (hexText digits)) = .inl (hexValue digits.chars : Int) ∧
        lineno (hexRule (hexText digits)) = some (hexValue digits.chars : Int)
  | dotted quad behind => ∃ errors, quadRule quad.text behind = some (.name quad.text, errors) ∧
      (errors ≠ [] ↔ quad.HasLargeOctet)

/-- The numbers that so many conversions read one after the other, with a character left
out behind each of them. -/
def numbersFrom : Nat → List Char → Option (List Nat)
  | 0, _ => some []
  | count + 1, memory => do
      let (number, rest) ← strtoul memory
      let numbers ← numbersFrom count (rest.drop 1)
      return number :: numbers

def errorsFor (inputStr : List Char) (numbers : List Nat) : Errors :=
  (numbers.filter (255 < ·)).map fun _ => (inputStr, "ip_number")

theorem ipNumberLoop_eq (inputStr : List Char) (count : Nat) (memory : List Char) (errors : Errors) :
    ipNumberLoop inputStr count memory errors =
      (numbersFrom count memory).map fun numbers => errors ++ errorsFor inputStr numbers := by
  induction count generalizing memory errors with
  | zero => exact congrArg some (List.append_nil errors).symm
  | succ count ih =>
    rw [ipNumberLoop, numbersFrom]
    cases strtoul memory with
    | none => rfl
    | some reading =>
      obtain ⟨number, rest⟩ := reading
      simp only [Option.bind_eq_bind, Option.bind_some, ih]
      cases numbersFrom count (rest.drop 1) with
      | none => rfl
      | some numbers =>
        by_cases large : number > 255
        · simp [errorsFor, large, List.replicate_succ]
        · simp [errorsFor, large]

theorem numbersFrom_digits (digits : Digits) {next : Char} (ends : next.isDigit = false)
    (count : Nat) (rest : List Char) : numbersFrom (count + 1) (digits.chars ++ next :: rest) =
      (numbersFrom count rest).map (unsignedOf false (value digits.chars) :: ·) := by
  rw [numbersFrom, strtoul_digits digits.nonempty digits.digits ends]
  simp only [Option.bind_eq_bind, Option.bind_some, List.drop_succ_cons, List.drop_zero]
  cases numbersFrom count rest <;> rfl

theorem numbersFrom_quad (quad : DottedQuad) (behind : List Char) :
    numbersFrom 8 (quad.text ++ '\x00' :: behind) =
      (numbersFrom 4 behind).map (quad.octets.map (unsignedOf false) ++ ·) := by
  have parts : quad.text ++ '\x00' :: behind =
      quad.first.chars ++ '.' :: (quad.second.chars ++ '.' :: (quad.third.chars ++
        '.' :: (quad.fourth.chars ++ '\x00' :: behind))) := by
    simp only [DottedQuad.text, List.append_assoc, List.cons_append]
  have dot : '.'.isDigit = false := rfl
  rw [parts, numbersFrom_digits _ dot, numbersFrom_digits _ dot, numbersFrom_digits _ dot,
    numbersFrom_digits _ rfl]
  simp only [Option.map_map]
  rfl

theorem errorsFor_ne_nil {inputStr : List Char} {numbers : List Nat} :
    errorsFor inputStr numbers ≠ [] ↔ ∃ number ∈ numbers, 255 < number := by
  simp [errorsFor, List.filter_eq_nil_iff]

theorem quadRule_eq (quad : DottedQuad) (behind : List Char) :
    quadRule quad.text behind = (numbersFrom 4 behind).map fun further =>
      (.name quad.text, errorsFor quad.text (quad.octets.map (unsignedOf false) ++ further)) := by
  rw [quadRule, ipNumber, ipNumberLoop_eq, numbersFrom_quad]
  cases numbersFrom 4 behind <;> rfl

theorem large_octet_iff {quad : DottedQuad} :
    (∃ number ∈ quad.octets.map (unsignedOf false), 255 < number) ↔ quad.HasLargeOctet := by
  have large (number : Nat) : 255 < unsignedOf false number ↔ 255 < number :=
    lt_unsignedOf (by decide)
  simp only [List.mem_map, exists_exists_and_eq_and, large, DottedQuad.HasLargeOctet]

/-- A hexadecimal number of 63 bits is zero; behind a dotted quad four more numbers can be
read, and without a large octet these do not exceed 255. -/
def Matched.ReadsRight : Matched → Prop
  | decimal _ _ => True
  | hex digits => hexValue digits.chars = 0 ∨ ¬Fits (hexValue digits.chars)
  | dotted quad behind => ∃ further, numbersFrom 4 behind = some further ∧
      (quad.HasLargeOctet ∨ ∀ number ∈ further, number ≤ 255)

theorem atoll_hexText (digits : HexDigits) : atoll (hexText digits) = 0 := by
  have zero : sign ((hexText digits).dropWhile isSpace) = (false, hexText digits) :=
    @sign_dropWhile ['0'] _ (by decide) (List.all_eq_true.mp rfl)
  have stops : (hexText digits).takeWhile Char.isDigit = ['0'] :=
    @takeWhile_digits ['0'] digits.chars 'x' (List.all_eq_true.mp rfl) (by decide)
  simp only [atoll, zero, stops]
  decide

theorem atoll_decimalText {negative : Bool} {digits : Digits} (fits : Fits (decimalNumber negative digits)) :
    atoll (decimalText negative digits) = decimalNumber negative digits := by
  obtain ⟨low, high⟩ := fits
  cases negative with
  | false => exact atoll_digits digits.nonempty digits.digits (Int.ofNat_le.mp high)
  | true =>
    refine atoll_minus digits.digits (Int.ofNat_le.mp ?_)
    change -9223372036854775808 ≤ -(value digits.chars : Int) at low
    omega

theorem denotesValue_iff (token : Matched) : token.DenotesValue ↔ token.ReadsRight := by
  cases token with
  | decimal negative digits =>
    exact iff_of_true (fun fits => congrArg Token.number (atoll_decimalText fits)) trivial
  | hex digits =>
    simp only [Matched.DenotesValue, Matched.ReadsRight, hexRule, atoll_hexText, addressDescription, lineno]
    constructor
    · intro denotes
      by_cases fits : Fits (hexValue digits.chars)
      · have same : (0 : Int) = hexValue digits.chars := Token.hexNumber.inj (denotes fits).1
        exact Or.inl (by omega)
      · exact Or.inr fits
    · rintro (zero | large) fits
      · simp [zero]
      · exact absurd fits large
  | dotted quad behind =>
    simp only [Matched.DenotesValue, Matched.ReadsRight, quadRule_eq]
    cases numbersFrom 4 behind with
    | none => simp
    | some further =>
      have recorded : errorsFor quad.text (quad.octets.map (unsignedOf false) ++ further) ≠ [] ↔
          quad.HasLargeOctet ∨ ∃ number ∈ further, 255 < number := by
        rw [errorsFor_ne_nil, ← large_octet_iff]
        simp only [List.mem_append, or_and_right, exists_or]
      simp only [Option.map_some, Option.some.injEq, Prod.mk.injEq, true_and, exists_eq_left', recorded]
      constructor
      · intro right
        by_cases large : quad.HasLargeOctet
        · exact Or.inl large
        · exact Or.inr fun number inside =>
            Nat.le_of_not_lt fun exceeds => large (right.mp (Or.inr ⟨number, inside, exceeds⟩))
      · rintro (large | small)
        · exact iff_of_true (Or.inl large) large
        · refine or_iff_left ?_
          rintro ⟨number, inside, exceeds⟩
          exact absurd (small number inside) (Nat.not_le_of_lt exceeds)

def hexToken : Matched := .hex ⟨['1', 'f'], by decide, List.all_eq_true.mp rfl⟩

/-- `10.0.0.1` in the line `expView -h 10.0.0.1 -x 300`, with the two ends of the scanner's
buffer behind the line. -/
def quadToken : Matched :=
  .dotted ⟨⟨['1', '0'], by decide, List.all_eq_true.mp rfl⟩,
    ⟨['0'], by decide, List.all_eq_true.mp rfl⟩, ⟨['0'], by decide, List.all_eq_true.mp rfl⟩,
    ⟨['1'], by decide, List.all_eq_true.mp rfl⟩⟩
    ['-', 'x', ' ', '3', '0', '0', '\n', '\x00', '\x00']

theorem tokens_read_wrongly : ¬hexToken.DenotesValue ∧ ¬quadToken.DenotesValue := by
  rw [denotesValue_iff, denotesValue_iff]
  constructor
  · rintro (zero | large)
    · exact absurd zero (by decide)
    · exact large ⟨by decide, by decide⟩
  · rintro ⟨further, reads, large | small⟩
    · obtain ⟨octet, inside, exceeds⟩ := large
      have all : ∀ octet ∈ [10, 0, 0, 1], octet ≤ 255 := by decide
      exact absurd (all octet inside) (Nat.not_le_of_lt exceeds)
    · obtain rfl : [0, 0, 300, 0] = further := Option.some.inj reads
      exact absurd (small 300 (by decide)) (by decide)

end NumberTokens

end OpenSpeedShop
