import OpenSpeedShop.Cli.MetricArithmeticCore
import Mathlib.Data.Rat.Cast.Defs

/-!
What the operators of metric expressions denote, and when the calculations return it.
-/

namespace OpenSpeedShop.MetricArithmetic

open ArithmeticConversions
open MetricExpressions (ExpressionOperation)
open Word (isSigned)

variable {D Object Number : Type} [IntCast Number]

def Value.word : Value D Object → Option Word
  | uint value => some (.unsigned value)
  | int value => some (.signed value)
  | duration value => some (.signed value)
  | _ => none

def Value.isDuration : Value D Object → Bool
  | duration _ => true
  | _ => false

def Value.number (value : D → Number) : Value D Object → Option Number
  | address word => some ((word.toNat : Int) : Number)
  | uint word => some ((word.toNat : Int) : Number)
  | int word => some (word.toInt : Number)
  | float double => some (value double)
  | duration word => some (word.toInt : Number)
  | interval double => some (value double)
  | other _ => none

def Value.Nonzero (value : D → Number) (result : Value D Object) : Prop :=
  ∃ number, result.number value = some number ∧ number ≠ (0 : Int)

def Returns (value : D → Number) (outcome : Except Undefined (Pointer D Object)) (number : Number) : Prop :=
  ∃ result, outcome = .ok (some result) ∧ result.value.number value = some number

def Yields (value : D → Number) (outcome : Except Undefined (Pointer D Object))
    (operand : Value D Object) : Prop :=
  ∃ number, operand.number value = some number ∧ Returns value outcome number

def exactUnary : ExpressionOperation → Int → Option Int
  | .uminus, number => some (-number)
  | .abs, number => some number.natAbs
  | .uint, number => some number
  | .int, number => some number
  | .float, number => some number
  | _, _ => none

def exactBinary : ExpressionOperation → Int → Int → Option Int
  | .add, first, second => some (first + second)
  | .sub, first, second => some (first - second)
  | .mult, first, second => some (first * second)
  | .mod, first, second => if second = 0 then none else some (first.tmod second)
  | .min, first, second => some (min first second)
  | .max, first, second => some (max first second)
  | .aAdd, first, second => some (first + second)
  | .aMult, first, second => some (first * second)
  | .aMin, first, second => some (min first second)
  | .aMax, first, second => some (max first second)
  | _, _, _ => none

def UnaryExact (value : D → Number) (op : ExpressionOperation) (A : Value D Object)
    (first : Word) (number : Int) : Prop :=
  match op with
  | .uminus => FitsAs first.isSigned number
  | .abs => FitsAs first.isSigned number
  | .uint => A.isDuration = false ∧ FitsAs false number
  | .int => A.isDuration = false ∧ FitsAs true number
  | .float => A.isDuration = false ∧ ∃ double, value double = number
  | _ => False

def RemainderExact (first second : Word) : Prop :=
  match first.isSigned, second.isSigned with
  | false, false => True
  | false, true =>
    0 < second.value ∨ first.value < -second.value ∨
      2 ^ 64 + second.value ≤ first.value ∧ second.value ∣ 2 ^ 64
  | true, false => False
  | true, true => ¬ (first.value = -2 ^ 63 ∧ second.value = -1)

def BinaryExact (objects : Objects Object) (op : ExpressionOperation)
    (A B : CommandResult D Object) (first second : Word) (number : Int) : Prop :=
  match op with
  | .add => FitsAs (bothSigned first second) number
  | .sub => FitsAs (bothSigned first second) number
  | .mult => FitsAs (bothSigned first second) number
  | .mod => RemainderExact first second
  | .min => first.isSigned = second.isSigned ∨ 0 ≤ min first.value second.value
  | .max =>
    first.isSigned = second.isSigned ∨ 0 ≤ min first.value second.value ∨
      2 ^ 64 + min first.value second.value ≤ max first.value second.value
  | .aAdd =>
    if A.value.sameType objects B.value && A.valueIsID then second.value = 0
    else FitsAs (bothSigned first second) number
  | .aMult =>
    first.value + second.value = number ∧ FitsAs (bothSigned first second) number
  | .aMin => first.isSigned = second.isSigned ∨ 0 ≤ min first.value second.value
  | .aMax =>
    first.isSigned = second.isSigned ∨ 0 ≤ min first.value second.value ∨
      2 ^ 64 + min first.value second.value ≤ max first.value second.value
  | _ => False

def Keeps (value : D → Number) (chosen : Value D Object) (other : Option (Numeral D)) : Prop :=
  match chosen.numeral, other with
  | some (.integer word), some (.integer beside) => FitsAs (bothSigned word beside) word.value
  | some (.integer word), _ => ∃ double, value double = word.value
  | some (.double _), _ => True
  | none, _ => chosen.number value = some ((0 : Int) : Number)

def CondexpExact (doubles : Doubles D) (value : D → Number) (A B C : Value D Object) : Prop :=
  ∃ third, C.numeral = some third ∧
    match A with
    | .address word =>
      if word = 0 then Keeps value C B.numeral
      else B.number value = some (converted doubles value third (B.copyFor doubles third))
    | _ =>
      (A.Nonzero value → Keeps value B (some third)) ∧ (¬ A.Nonzero value → Keeps value C B.numeral)

@[simp] theorem number_crptr (value : D → Number) (word : Word) :
    (crptr (.integer word) : CommandResult D Object).value.number value = some (word.value : Number) := by
  cases word <;> rfl

variable {operand : Value D Object}

theorem word_cases {word : Word} (integer : operand.word = some word) :
    (∃ number, operand = .uint number ∧ word = .unsigned number) ∨
      (∃ number, operand = .int number ∧ word = .signed number) ∨
        ∃ number, operand = .duration number ∧ word = .signed number := by
  cases operand <;> simp_all [Value.word]

theorem numeral_of_word {word : Word}
    (integer : operand.word = some word) : operand.numeral = some (.integer word) := by
  cases operand <;> simp_all [Value.word, Value.numeral]

variable {numeral : Numeral D}

theorem number_of_numeral (value : D → Number) (arithmetic : operand.numeral = some numeral) :
    operand.number value = some (numeral.number value) := by
  cases operand <;> simp_all [Value.numeral] <;> subst arithmetic <;> rfl

variable {doubles : Doubles D} {objects : Objects Object} {value : D → Number}

@[simp] theorem returns_ok {result : CommandResult D Object} {number : Number} :
    Returns value (.ok (some result)) number ↔ result.value.number value = some number := by
  simp [Returns]

@[simp] theorem returns_error {undefined : Undefined} {number : Number} :
    ¬ Returns value (.error undefined : Except Undefined (Pointer D Object)) number := by
  simp [Returns]

variable {number : Int} {outcome : Except Undefined Word}

theorem returns_returnWord (denotes : doubles.Denotes value) :
    Returns value (returnWord outcome : Except Undefined (Pointer D Object)) (number : Number) ↔
      Reads outcome number := by
  cases outcome with
  | error undefined => simp [returnWord, Functor.map, Except.map]
  | ok word =>
    simp only [returnWord, Functor.map, Except.map, returns_ok, number_crptr, reads_ok, Option.some.injEq]
    exact ⟨denotes.injective _ _, congrArg _⟩

variable {first second : Word} {A B : CommandResult D Object}

variable {operation : Operation D}

theorem calculate_words (firstWord : A.value.word = some first) (secondWord : B.value.word = some second) :
    calculate doubles operation A B = returnWord (evaluate operation.onIntegers first second) := by
  unfold calculate Value.copyFor
  rw [numeral_of_word firstWord, numeral_of_word secondWord]
  cases evaluated : evaluate operation.onIntegers first second <;>
    simp [Operation.apply, evaluated, returnWord, Functor.map, Except.map]

variable {A : CommandResult D Object}

theorem onNumeral_word {calculation : Numeral D → Except Undefined (Numeral D)}
    {first : Word} (firstWord : A.value.word = some first)
    (onWord : calculation (.integer first) = .integer <$> outcome) :
    onNumeral calculation (some A) = returnWord outcome := by
  cases outcome <;>
    simp [onNumeral, numeral_of_word firstWord, onWord, returnWord, Functor.map, Except.map]

theorem modulo_words (firstWord : A.value.word = some first) (secondWord : B.value.word = some second)
    (nonzero : second.value ≠ 0) : modulo doubles A B =
      if first.isSigned && !second.isSigned then pure none else returnWord (remainder first second) := by
  unfold modulo
  rw [numeral_of_word firstWord, numeral_of_word secondWord]
  cases first <;> cases second
  · rfl
  · simp [dividend, divisor, isSigned, nonzero, pure, Except.pure, bind, Except.bind]
  · simp [dividend, divisor, isSigned, Word.value, pure, Except.pure, bind, Except.bind]
  · simp [dividend, divisor, isSigned, nonzero, pure, Except.pure, bind, Except.bind]

theorem wrapped_sum_eq_product (mixed : bothSigned first second = false) :
    (first.value + second.value) % 2 ^ 64 = first.value * second.value ↔
      first.value + second.value = first.value * second.value ∧ FitsAs false (first.value * second.value) := by
  have ranges := mixed_ranges mixed
  simp only [FitsAs, Bool.false_eq_true, if_false]
  constructor
  · intro wrapped
    have signs : first.value * second.value ≤ 0 ∨ 0 ≤ first.value ∧ 0 ≤ second.value := by
      by_cases firstNonneg : 0 ≤ first.value
      · by_cases secondNonneg : 0 ≤ second.value
        · exact .inr ⟨firstNonneg, secondNonneg⟩
        · exact .inl (Int.mul_nonpos_of_nonneg_of_nonpos firstNonneg (by omega))
      · exact .inl (Int.mul_nonpos_of_nonpos_of_nonneg (by omega) (by omega))
    have large : first.value < 1 ∨ second.value < 1 ∨
        first.value + second.value ≤ first.value * second.value + 1 := by
      by_cases positive : 1 ≤ first.value ∧ 1 ≤ second.value
      · have product := Int.mul_nonneg (Int.sub_nonneg_of_le positive.1) (Int.sub_nonneg_of_le positive.2)
        rw [Int.sub_mul, Int.mul_sub] at product
        omega
      · omega
    have zero : first.value ≠ 0 ∧ second.value ≠ 0 ∨ first.value * second.value = 0 := by
      by_cases none : first.value = 0 ∨ second.value = 0
      · exact .inr (Int.mul_eq_zero.mpr none)
      · exact .inl (not_or.mp none)
    omega
  · rintro ⟨same, fits⟩
    omega

def Accumulation.onWords (accumulation : Accumulation D Object) : Word → Word → Except Undefined Word
  | .unsigned first, .unsigned second => pure (.unsigned (accumulation.onUnsigned first second))
  | .signed first, .signed second => .signed <$> accumulation.onSigned first second
  | first, _ => pure first

theorem reads_sum (same : first.isSigned = second.isSigned) :
    Reads ((sum doubles objects).onWords first second) (first.value + second.value) ↔
      FitsAs (bothSigned first second) (first.value + second.value) := by
  cases first with
  | unsigned first =>
    cases second with
    | signed second => simp [isSigned] at same
    | unsigned second =>
      simp only [Accumulation.onWords, sum, pure, Except.pure, reads_ok, Word.value,
        UInt64.toNat_add, bothSigned, isSigned, Bool.and_self, FitsAs,
        Bool.false_eq_true, if_false]
      omega
  | signed first =>
    cases second with
    | unsigned second => simp [isSigned] at same
    | signed second =>
      by_cases fits : FitsAs true (first.toInt + second.toInt)
      · have exact : (first + second).toInt = first.toInt + second.toInt := by
          simp only [FitsAs, if_true] at fits
          rw [Int64.toInt_add, Int.bmod_eq_of_le] <;> omega
        simp [Accumulation.onWords, sum, fits, Word.value, exact, bothSigned, isSigned,
          pure, Except.pure, Functor.map, Except.map]
      · simp [Accumulation.onWords, sum, fits, Word.value, bothSigned, isSigned, throw,
          throwThe, MonadExceptOf.throw, Functor.map, Except.map]

theorem reads_smaller (same : first.isSigned = second.isSigned) :
    Reads ((smaller doubles objects).onWords first second) (min first.value second.value) := by
  cases first with
  | unsigned first =>
    cases second with
    | signed second => simp [isSigned] at same
    | unsigned second =>
      simp only [Accumulation.onWords, smaller, pure, Except.pure, reads_ok, Word.value,
        UInt64.lt_iff_toNat_lt]
      split <;> omega
  | signed first =>
    cases second with
    | unsigned second => simp [isSigned] at same
    | signed second =>
      simp only [Accumulation.onWords, smaller, pure, Except.pure, Functor.map, Except.map,
        reads_ok, Word.value, Int64.lt_iff_toInt_lt]
      split <;> omega

theorem reads_larger (same : first.isSigned = second.isSigned) :
    Reads ((larger doubles objects).onWords first second) (max first.value second.value) := by
  cases first with
  | unsigned first =>
    cases second with
    | signed second => simp [isSigned] at same
    | unsigned second =>
      simp only [Accumulation.onWords, larger, pure, Except.pure, reads_ok, Word.value, UInt64.lt_iff_toNat_lt]
      split <;> omega
  | signed first =>
    cases second with
    | unsigned second => simp [isSigned] at same
    | signed second =>
      simp only [Accumulation.onWords, larger, pure, Except.pure, Functor.map, Except.map,
        reads_ok, Word.value, Int64.lt_iff_toInt_lt]
      split <;> omega

variable (denotes : doubles.Denotes value) {A : CommandResult D Object} {first : Word}
  (firstWord : A.value.word = some first)

include denotes firstWord

theorem uminus_exact_iff : Returns value (calculateUminus doubles (some A)) ((-first.value : Int) : Number) ↔
      FitsAs first.isSigned (-first.value) := by
  rw [calculateUminus, onNumeral_word firstWord rfl, returns_returnWord denotes, reads_ofExact]

theorem abs_exact_iff : Returns value (calculateAbs doubles (some A)) ((first.value.natAbs : Int) : Number) ↔
      FitsAs first.isSigned first.value.natAbs := by
  rw [← reads_abs, ← returns_returnWord denotes, calculateAbs, onNumeral_word firstWord]
  by_cases nonneg : first.value ≥ 0 <;> simp [nonneg]

theorem uint_exact_iff : Returns value (convertToUint doubles (some A)) (first.value : Number) ↔
      A.value.isDuration = false ∧ FitsAs false first.value := by
  unfold convertToUint
  rw [returns_returnWord denotes]
  rcases word_cases firstWord with ⟨word, kind, rfl⟩ | ⟨word, kind, rfl⟩ | ⟨word, kind, rfl⟩
  · rw [kind]
    exact iff_of_true (reads_ok.mpr rfl) ⟨rfl, Word.fits (.unsigned word)⟩
  · have unsigned := value_toUInt64 word
    have bounds := @Word.signed_bounds (.signed word) rfl
    simp only [kind, pure, Except.pure, reads_ok, Word.value, Value.isDuration, FitsAs,
      Bool.false_eq_true, if_false, true_and] at *
    omega
  · simp [kind, Value.isDuration, throw, throwThe, MonadExceptOf.throw]

theorem int_exact_iff : Returns value (convertToInt doubles (some A)) (first.value : Number) ↔
      A.value.isDuration = false ∧ FitsAs true first.value := by
  unfold convertToInt
  rw [returns_returnWord denotes]
  rcases word_cases firstWord with ⟨word, kind, rfl⟩ | ⟨word, kind, rfl⟩ | ⟨word, kind, rfl⟩
  · have bounds := @Word.unsigned_bounds (.unsigned word) rfl
    simp only [kind, pure, Except.pure, reads_ok, Word.value, Value.isDuration, FitsAs, if_true,
      true_and, value_toInt64] at *
    omega
  · rw [kind]
    exact iff_of_true (reads_ok.mpr rfl) ⟨rfl, Word.fits (.signed word)⟩
  · simp [kind, Value.isDuration, throw, throwThe, MonadExceptOf.throw]

theorem float_exact_iff : Returns value (convertToFloat doubles (some A)) (first.value : Number) ↔
      A.value.isDuration = false ∧ ∃ double, value double = first.value := by
  unfold convertToFloat
  rw [← denotes.ofInt_iff]
  rcases word_cases firstWord with ⟨word, kind, rfl⟩ | ⟨word, kind, rfl⟩ | ⟨word, kind, rfl⟩
  · simp [kind, Value.isDuration, Value.number, crptr, Word.value, pure, Except.pure, Functor.map, Except.map]
  · simp [kind, Value.isDuration, Value.number, crptr, Word.value, pure, Except.pure, Functor.map, Except.map]
  · simp [kind, Value.isDuration, throw, throwThe, MonadExceptOf.throw, Functor.map, Except.map]

variable {B : CommandResult D Object} {second : Word} (secondWord : B.value.word = some second)

include secondWord

theorem calculate_returns_iff : Returns value (calculate doubles operation A B) (number : Number) ↔
      Reads (evaluate operation.onIntegers first second) number := by
  rw [calculate_words firstWord secondWord, returns_returnWord denotes]

theorem add_exact_iff :
    Returns value (calculate doubles (addition doubles) A B) ((first.value + second.value : Int) : Number) ↔
      FitsAs (bothSigned first second) (first.value + second.value) := by
  rw [calculate_returns_iff denotes firstWord secondWord]
  exact reads_evaluate_congruent fun first second => (Int.add_emod first second _).symm

theorem sub_exact_iff :
    Returns value (calculate doubles (subtraction doubles) A B) ((first.value - second.value : Int) : Number) ↔
      FitsAs (bothSigned first second) (first.value - second.value) := by
  rw [calculate_returns_iff denotes firstWord secondWord]
  exact reads_evaluate_congruent fun first second => (Int.sub_emod first second _).symm

theorem mult_exact_iff : Returns value (calculate doubles (multiplication doubles) A B)
        ((first.value * second.value : Int) : Number) ↔
      FitsAs (bothSigned first second) (first.value * second.value) := by
  rw [calculate_returns_iff denotes firstWord secondWord]
  exact reads_evaluate_congruent fun first second => (Int.mul_emod first second _).symm

theorem min_exact_iff :
    Returns value (calculate doubles (minimum doubles) A B) ((min first.value second.value : Int) : Number) ↔
      first.isSigned = second.isSigned ∨ 0 ≤ min first.value second.value := by
  rw [calculate_returns_iff denotes firstWord secondWord]
  exact reads_minimum

theorem max_exact_iff :
    Returns value (calculate doubles (maximum doubles) A B) ((max first.value second.value : Int) : Number) ↔
      first.isSigned = second.isSigned ∨ 0 ≤ min first.value second.value ∨
        2 ^ 64 + min first.value second.value ≤ max first.value second.value := by
  rw [calculate_returns_iff denotes firstWord secondWord]
  exact reads_maximum

theorem aMult_exact_iff :
    Returns value (calculate doubles (addition doubles) A B) ((first.value * second.value : Int) : Number) ↔
      first.value + second.value = first.value * second.value ∧
        FitsAs (bothSigned first second) (first.value * second.value) := by
  rw [calculate_returns_iff denotes firstWord secondWord]
  cases signed : bothSigned first second with
  | true =>
    refine (reads_evaluate_signed signed).trans ?_
    constructor
    · rintro ⟨fits, same⟩
      exact ⟨same, same ▸ fits⟩
    · rintro ⟨same, fits⟩
      exact ⟨same ▸ fits, same⟩
  | false =>
    refine (reads_evaluate_unsigned signed).trans ?_
    rw [← Int.add_emod, wrapped_sum_eq_product signed]

theorem mod_exact_iff (nonzero : second.value ≠ 0) :
    Returns value (modulo doubles A B) ((first.value.tmod second.value : Int) : Number) ↔
      RemainderExact first second := by
  rw [modulo_words firstWord secondWord nonzero]
  cases firstSigned : first.isSigned with
  | false =>
    simp only [Bool.false_and, Bool.false_eq_true, if_false]
    rw [returns_returnWord denotes, reads_remainder_unsigned firstSigned nonzero]
    cases secondSigned : second.isSigned with
    | true => simp only [RemainderExact, firstSigned, secondSigned]
    | false =>
      have bounds := Word.unsigned_bounds secondSigned
      simp only [RemainderExact, firstSigned, secondSigned, iff_true]
      omega
  | true =>
    cases secondSigned : second.isSigned with
    | false => simp [RemainderExact, firstSigned, secondSigned, Returns, pure, Except.pure]
    | true =>
      have signed := bothSigned_iff.mpr ⟨firstSigned, secondSigned⟩
      simp only [RemainderExact, firstSigned, secondSigned, Bool.not_true, Bool.and_false,
        Bool.false_eq_true, if_false]
      rw [returns_returnWord denotes, reads_remainder_signed signed nonzero]

omit denotes in
theorem isSigned_of_sameType (same : A.value.sameType objects B.value = true) :
    first.isSigned = second.isSigned := by
  rcases word_cases firstWord with ⟨_, firstKind, rfl⟩ | ⟨_, firstKind, rfl⟩ | ⟨_, firstKind, rfl⟩ <;>
    rcases word_cases secondWord with ⟨_, secondKind, rfl⟩ | ⟨_, secondKind, rfl⟩ |
      ⟨_, secondKind, rfl⟩ <;>
    simp_all [Value.sameType, Word.isSigned]

theorem accumulate_returns_iff {accumulation : Accumulation D Object}
    (same : A.value.sameType objects B.value = true) :
    Returns value (A.accumulate accumulation B) (number : Number) ↔
      Reads (accumulation.onWords first second) number := by
  have injective : ∀ word : Int, (word : Number) = number ↔ word = number :=
    fun word => ⟨denotes.injective word number, congrArg _⟩
  rcases word_cases firstWord with ⟨left, firstKind, rfl⟩ | ⟨left, firstKind, rfl⟩ |
      ⟨left, firstKind, rfl⟩ <;>
    rcases word_cases secondWord with ⟨right, secondKind, rfl⟩ | ⟨right, secondKind, rfl⟩ |
      ⟨right, secondKind, rfl⟩ <;>
    simp only [firstKind, secondKind, Value.sameType, Bool.false_eq_true] at same
  · simp [CommandResult.accumulate, firstKind, secondKind, Accumulation.apply,
      Accumulation.onWords, pure, Except.pure, Functor.map, Except.map, Value.number, Word.value,
      injective]
  · cases outcome : accumulation.onSigned left right <;>
      simp [CommandResult.accumulate, firstKind, secondKind, Accumulation.apply,
        Accumulation.onWords, outcome, Functor.map, Except.map, Value.number, Word.value, injective]
  · cases outcome : accumulation.onSigned left right <;>
      simp [CommandResult.accumulate, firstKind, secondKind, Accumulation.apply,
        Accumulation.onWords, outcome, Functor.map, Except.map, Value.number, Word.value, injective]

theorem aAdd_exact_iff : Returns value (calculateAAdd doubles objects (some A) (some B))
        ((first.value + second.value : Int) : Number) ↔
      if A.value.sameType objects B.value && A.valueIsID then second.value = 0
      else FitsAs (bothSigned first second) (first.value + second.value) := by
  cases same : A.value.sameType objects B.value with
  | false =>
    simpa [calculateAAdd, onBoth, same] using add_exact_iff denotes firstWord secondWord
  | true =>
    have sum : Returns value (A.accumulate (sum doubles objects) B)
        ((first.value + second.value : Int) : Number) ↔ _ :=
      accumulate_returns_iff denotes firstWord secondWord same
    cases isID : A.valueIsID with
    | false =>
      rw [reads_sum (isSigned_of_sameType firstWord secondWord same)] at sum
      simpa [calculateAAdd, onBoth, same, isID] using sum
    | true =>
      have kept : A.value.number value = some (first.value : Number) := by
        rcases word_cases firstWord with ⟨_, kind, rfl⟩ | ⟨_, kind, rfl⟩ | ⟨_, kind, rfl⟩ <;>
          rw [kind] <;> rfl
      have dropped : (first.value : Number) = ((first.value + second.value : Int) : Number) ↔
          second.value = 0 := by
        constructor
        · intro equal
          have := denotes.injective _ _ equal
          omega
        · intro zero
          rw [zero, Int.add_zero]
      simp [calculateAAdd, onBoth, same, isID, kept, dropped, pure, Except.pure]

theorem aMin_exact_iff : Returns value (calculateAMin doubles objects (some A) (some B))
        ((min first.value second.value : Int) : Number) ↔
      first.isSigned = second.isSigned ∨ 0 ≤ min first.value second.value := by
  cases same : A.value.sameType objects B.value with
  | false =>
    have plain := min_exact_iff denotes firstWord secondWord
    simpa [calculateAMin, onBoth, same] using plain
  | true =>
    have signs := isSigned_of_sameType firstWord secondWord same
    have read : Reads ((smaller doubles objects).onWords first second)
        (min first.value second.value) := reads_smaller signs
    have returned := (accumulate_returns_iff denotes firstWord secondWord same).mpr read
    simpa [calculateAMin, onBoth, same, signs] using returned

theorem aMax_exact_iff : Returns value (calculateAMax doubles objects (some A) (some B))
        ((max first.value second.value : Int) : Number) ↔
      first.isSigned = second.isSigned ∨ 0 ≤ min first.value second.value ∨
        2 ^ 64 + min first.value second.value ≤ max first.value second.value := by
  cases same : A.value.sameType objects B.value with
  | false =>
    have plain := max_exact_iff denotes firstWord secondWord
    simpa [calculateAMax, onBoth, same] using plain
  | true =>
    have signs := isSigned_of_sameType firstWord secondWord same
    have read : Reads ((larger doubles objects).onWords first second)
        (max first.value second.value) := reads_larger signs
    have returned := (accumulate_returns_iff denotes firstWord secondWord same).mpr read
    simpa [calculateAMax, onBoth, same, signs] using returned

omit firstWord secondWord

theorem condition_iff (arithmetic : operand.numeral = some numeral) :
    operand.condition doubles = true ↔ operand.Nonzero value := by
  have nonzero : operand.Nonzero value ↔ numeral.number value ≠ ((0 : Int) : Number) := by
    simp [Value.Nonzero, number_of_numeral value arithmetic]
  rw [nonzero]
  unfold Value.condition
  rw [arithmetic]
  cases numeral with
  | integer word =>
    have zero : word.value = 0 ↔ (word.value : Number) = ((0 : Int) : Number) :=
      ⟨congrArg _, denotes.injective word.value 0⟩
    simp [Numeral.number, ← zero]
  | double number => simp [Numeral.number, ← denotes.isZero]

variable {B C : CommandResult D Object} {third : Numeral D}

omit denotes in
theorem returns_choice {condition : Bool} (arithmetic : C.value.numeral = some third) {number : Number} :
    Returns value (calculate doubles (choice condition) B C) number ↔
      (if condition then converted doubles value (B.value.copyFor doubles third) third
        else converted doubles value third (B.value.copyFor doubles third)) = number := by
  have calculated : calculate doubles (choice condition) B C =
      (fun numeral => some (crptr numeral)) <$>
        (choice condition).apply doubles (B.value.copyFor doubles third) third := by
    unfold calculate
    rw [arithmetic]
  rw [calculated]
  generalize B.value.copyFor doubles third = first
  cases first with
  | integer first =>
    cases third with
    | integer third =>
      obtain ⟨word, outcome, read⟩ := reads_choice condition first third
      have returned : (choice condition).apply doubles (.integer first) (.integer third) =
          .ok (.integer word) := by
        simp [Operation.apply, choice, outcome, Functor.map, Except.map]
      rw [returned]
      cases condition <;>
        simp_all [Functor.map, Except.map, converted, bothSigned_comm third first]
    | double third =>
      cases condition <;> simp [Operation.apply, choice, Numeral.toDouble, converted, crptr,
        Value.number, pure, Except.pure, Functor.map, Except.map]
  | double first =>
    cases condition <;> cases third <;> simp [Operation.apply, choice, Numeral.toDouble,
      converted, crptr, Value.number, pure, Except.pure, Functor.map, Except.map]

theorem converted_iff (chosen : Numeral D) (beside : Numeral D) :
    converted doubles value chosen beside = chosen.number value ↔ match chosen, beside with
      | .integer word, .integer beside => FitsAs (bothSigned word beside) word.value
      | .integer word, .double _ => ∃ double, value double = word.value
      | .double _, _ => True := by
  cases chosen with
  | double number => simp [converted, Numeral.number]
  | integer word =>
    cases beside with
    | double number => exact denotes.ofInt_iff
    | integer beside =>
      simp only [converted, Numeral.number, ← valueAs_bothSigned]
      exact ⟨denotes.injective _ _, congrArg _⟩

omit denotes in
theorem copyFor_of_numeral (arithmetic : operand.numeral = some numeral) (second : Numeral D) :
    operand.copyFor doubles second = numeral := by
  unfold Value.copyFor
  rw [arithmetic]

theorem converted_copyFor_none (unread : operand.numeral = none) (second : Numeral D) :
    converted doubles value (operand.copyFor doubles second) second = ((0 : Int) : Number) := by
  unfold Value.copyFor
  rw [unread]
  cases second <;> exact denotes.zero

theorem yields_second_operand (arithmetic : C.value.numeral = some third) :
    Yields value (calculate doubles (choice true) B C) B.value ↔ Keeps value B.value (some third) := by
  simp only [Yields, returns_choice arithmetic, if_true]
  cases kind : B.value.numeral with
  | none => simp [converted_copyFor_none denotes kind, Keeps, kind]
  | some first =>
    have kept := converted_iff denotes first third
    rw [number_of_numeral value kind, copyFor_of_numeral kind]
    simp only [Option.some.injEq, exists_eq_left', kept, Keeps, kind]
    cases first <;> cases third <;> rfl

theorem yields_third_operand (arithmetic : C.value.numeral = some third) :
    Yields value (calculate doubles (choice false) B C) C.value ↔ Keeps value C.value B.value.numeral := by
  simp only [Yields, returns_choice arithmetic, Bool.false_eq_true, if_false,
    number_of_numeral value arithmetic, Option.some.injEq, exists_eq_left', converted_iff denotes]
  cases kind : B.value.numeral with
  | none =>
    cases third <;> simp [Value.copyFor, kind, Keeps, arithmetic]
  | some first =>
    rw [copyFor_of_numeral kind]
    simp only [Keeps, arithmetic]
    cases first <;> cases third <;> rfl

theorem condexp_of_condition {A B C : CommandResult D Object} (arithmetic : C.value.numeral = some third)
    (chosen : A.value.condition doubles = true ↔ A.value.Nonzero value) :
    ((A.value.Nonzero value → Yields value (calculateCondexp doubles (some A) (some B) (some C)) B.value) ∧
      (¬ A.value.Nonzero value → Yields value (calculateCondexp doubles (some A) (some B) (some C)) C.value)) ↔
      (A.value.Nonzero value → Keeps value B.value (some third)) ∧
        (¬ A.value.Nonzero value → Keeps value C.value B.value.numeral) := by
  unfold calculateCondexp
  by_cases nonzero : A.value.Nonzero value
  · simp [nonzero, chosen.mpr nonzero, yields_second_operand denotes arithmetic]
  · have zero : A.value.condition doubles = false := by simpa using mt chosen.mp nonzero
    simp [nonzero, zero, yields_third_operand denotes arithmetic]

theorem condexp_exact_iff (A B C : CommandResult D Object) :
    ((A.value.Nonzero value → Yields value (calculateCondexp doubles (some A) (some B) (some C)) B.value) ∧
      (¬ A.value.Nonzero value → Yields value (calculateCondexp doubles (some A) (some B) (some C)) C.value)) ↔
      CondexpExact doubles value A.value B.value C.value := by
  cases arithmetic : C.value.numeral with
  | none =>
    have nothing (operand : Value D Object) :
        ¬ Yields value (calculateCondexp doubles (some A) (some B) (some C)) operand := by
      simp [calculateCondexp, calculate, arithmetic, Yields, Returns, pure, Except.pure]
    simp [nothing, CondexpExact, arithmetic]
  | some third =>
    simp only [CondexpExact, arithmetic, Option.some.injEq, exists_eq_left']
    obtain ⟨operand, isID⟩ := A
    cases operand with
    | uint word => exact condexp_of_condition denotes arithmetic (condition_iff denotes rfl)
    | int word => exact condexp_of_condition denotes arithmetic (condition_iff denotes rfl)
    | float number => exact condexp_of_condition denotes arithmetic (condition_iff denotes rfl)
    | duration word => exact condexp_of_condition denotes arithmetic (condition_iff denotes rfl)
    | interval number => exact condexp_of_condition denotes arithmetic (condition_iff denotes rfl)
    | other object =>
      apply condexp_of_condition denotes arithmetic
      simp [Value.condition, Value.numeral, Value.Nonzero, Value.number]
    | address word =>
      have condition : (Value.address word : Value D Object).condition doubles = false := rfl
      have zero : word = 0 ↔ ((word.toNat : Int) : Number) = ((0 : Int) : Number) := by
        rw [← UInt64.toNat_inj]
        constructor
        · intro equal
          rw [equal]
          rfl
        · intro equal
          have number := denotes.injective _ _ equal
          simpa using number
      have nonzero : (Value.address word : Value D Object).Nonzero value ↔ word ≠ 0 := by
        simp [Value.Nonzero, Value.number, zero]
      simp only [nonzero, calculateCondexp, condition, yields_third_operand denotes arithmetic]
      by_cases isZero : word = 0
      · simp [isZero]
      · simp [isZero, Yields, returns_choice arithmetic, eq_comm]

variable {op : ExpressionOperation}

theorem unary_exact_iff {B C : Pointer D Object} {first : Word} (statistics : Statistics D Object)
    (firstWord : A.value.word = some first) (exact : exactUnary op first.value = some number) :
    Returns value (calculateExpression doubles objects statistics op (some A) B C)
        (number : Number) ↔ UnaryExact value op A.value first number := by
  cases op <;> simp only [exactUnary, Option.some.injEq, reduceCtorEq] at exact <;> subst exact
  · exact uminus_exact_iff denotes firstWord
  · exact abs_exact_iff denotes firstWord
  · exact uint_exact_iff denotes firstWord
  · exact int_exact_iff denotes firstWord
  · exact float_exact_iff denotes firstWord

theorem binary_exact_iff {C : Pointer D Object}
    (statistics : Statistics D Object) (firstWord : A.value.word = some first)
    (secondWord : B.value.word = some second)
    (exact : exactBinary op first.value second.value = some number) :
    Returns value (calculateExpression doubles objects statistics op (some A) (some B) C)
        (number : Number) ↔ BinaryExact objects op A B first second number := by
  by_cases isMod : op = .mod
  · subst isMod
    by_cases zero : second.value = 0
    · simp [exactBinary, zero] at exact
    · obtain rfl : first.value.tmod second.value = number := by simpa [exactBinary, zero] using exact
      exact mod_exact_iff denotes firstWord secondWord zero
  · cases op <;> simp only [exactBinary, Option.some.injEq, reduceCtorEq, not_true] at exact isMod <;>
      subst exact
    · exact add_exact_iff denotes firstWord secondWord
    · exact sub_exact_iff denotes firstWord secondWord
    · exact mult_exact_iff denotes firstWord secondWord
    · exact min_exact_iff denotes firstWord secondWord
    · exact max_exact_iff denotes firstWord secondWord
    · exact aAdd_exact_iff denotes firstWord secondWord
    · exact aMult_exact_iff denotes firstWord secondWord
    · exact aMin_exact_iff denotes firstWord secondWord
    · exact aMax_exact_iff denotes firstWord secondWord

/-- The operators return what they denote, and a conditional expression yields the operand that
its condition chooses, in these cases and no others. -/
theorem calculateExpression_exact_iff (statistics : Statistics D Object) :
    (∀ (op : ExpressionOperation) (A : CommandResult D Object) (B C : Pointer D Object)
      (first : Word) (number : Int), A.value.word = some first →
      exactUnary op first.value = some number →
      (Returns value (calculateExpression doubles objects statistics op (some A) B C)
        (number : Number) ↔ UnaryExact value op A.value first number)) ∧
    (∀ (op : ExpressionOperation) (A B : CommandResult D Object) (C : Pointer D Object)
      (first second : Word) (number : Int), A.value.word = some first →
      B.value.word = some second → exactBinary op first.value second.value = some number →
      (Returns value (calculateExpression doubles objects statistics op (some A) (some B) C)
        (number : Number) ↔ BinaryExact objects op A B first second number)) ∧
    ∀ A B C : CommandResult D Object,
      ((A.value.Nonzero value →
          Yields value (calculateExpression doubles objects statistics .condexp (some A) (some B)
            (some C)) B.value) ∧
        (¬ A.value.Nonzero value →
          Yields value (calculateExpression doubles objects statistics .condexp (some A) (some B)
            (some C)) C.value)) ↔
        CondexpExact doubles value A.value B.value C.value := by
  refine ⟨?_, ?_, ?_⟩
  · intro op A B C first number firstWord exact
    exact unary_exact_iff denotes statistics firstWord exact
  · intro op A B C first second number firstWord secondWord exact
    exact binary_exact_iff denotes statistics firstWord secondWord exact
  · intro A B C
    exact condexp_exact_iff denotes A B C

omit denotes

def rationals : Doubles ℚ where
  ofInt number := number
  add := (· + ·)
  sub := (· - ·)
  mul := (· * ·)
  div := (· / ·)
  neg := (- ·)
  le first second := decide (first ≤ second)
  lt first second := decide (first < second)
  isZero number := decide (number = 0)
  truncated number := some (number.num.tdiv number.den)

theorem rationals_denotes : rationals.Denotes (id : ℚ → ℚ) where
  injective _ _ := Rat.intCast_inj.mp
  exact _ _ _ := rfl
  zero := rfl
  isZero _ := decide_eq_true_iff

def noObjects : Objects Empty where
  valueIsNull _ := false
  sameType _ _ := true
  accumulateValue first _ := first
  accumulateMin first _ := first
  accumulateMax first _ := first

def noStatistics : Statistics ℚ Empty where
  calculateSqrt _ := pure none
  calculateStdDev _ _ _ := pure none
  calculatePercent _ _ := pure none
  calculateRatio _ _ := pure none

theorem calculateExpression_exact_difference :
    Returns id (calculateExpression rationals noObjects noStatistics .sub
      (some ⟨.int (-1), false⟩) (some ⟨.duration 4, false⟩) none) ((-5 : Int) : ℚ) :=
  ((calculateExpression_exact_iff rationals_denotes noStatistics).2.1 .sub ⟨.int (-1), false⟩
    ⟨.duration 4, false⟩ none (.signed (-1)) (.signed 4) (-5) rfl rfl rfl).mpr
    (show FitsAs true (-5) by decide)

theorem product_is_sum :
    exactBinary .aMult 2 3 = some 6 ∧
      calculateExpression rationals noObjects noStatistics .aMult (some ⟨.uint 2, false⟩)
        (some ⟨.uint 3, false⟩) none = .ok (some ⟨.uint 5, false⟩) :=
  ⟨rfl, rfl⟩

end OpenSpeedShop.MetricArithmetic
