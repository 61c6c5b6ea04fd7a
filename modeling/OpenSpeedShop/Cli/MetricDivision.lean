import OpenSpeedShop.Cli.MetricArithmetic

/-!
Divisions and remainders of metric expressions with a divisor of zero.
-/

namespace OpenSpeedShop.MetricArithmetic

open ArithmeticConversions

variable {D Object : Type} {doubles : Doubles D} {objects : Objects Object}

def Guarded (outcome : Except Undefined (Pointer D Object)) (zeroDivisor : Prop) : Prop :=
  outcome ≠ .error .divideByZero ∧ (zeroDivisor → outcome = .ok none)

def ZeroDivisor (A B : CommandResult D Object) : Prop :=
  ∃ first second, A.value.word = some first ∧ B.value.word = some second ∧ second.value = 0

def ZeroModulus (doubles : Doubles D) (A B : CommandResult D Object) : Prop :=
  ∃ first second dividing divided, A.value.numeral = some first ∧
    B.value.numeral = some second ∧ dividend doubles first = .ok divided ∧
      dividend doubles second = .ok dividing ∧ dividing.value = 0

def CommandResult.ZeroID (result : CommandResult D Object) : Prop :=
  result.valueIsID = true ∧ (result.value = .uint 0 ∨ result.value = .int 0)

variable {operand : Value D Object}

theorem word_of_numeral {word : Word}
    (integer : operand.numeral = some (.integer word)) : operand.word = some word := by
  cases operand <;> simp_all [Value.word, Value.numeral]

theorem value_unsigned_eq_zero {word : UInt64} : (Word.unsigned word).value = 0 ↔ word = 0 := by
  rw [← UInt64.toNat_inj]
  exact Int.natCast_eq_zero

theorem value_signed_eq_zero {word : Int64} : (Word.signed word).value = 0 ↔ word = 0 := by
  rw [← Int64.toInt_inj]
  rfl

variable {B : CommandResult D Object}

theorem valueIsNull_of_word {second : Word} (secondWord : B.value.word = some second) :
    B.valueIsNull doubles objects = (decide (second.value = 0) && (B.value.isDuration || !B.valueIsID)) := by
  unfold CommandResult.valueIsNull
  rcases word_cases secondWord with ⟨word, kind, rfl⟩ | ⟨word, kind, rfl⟩ | ⟨word, kind, rfl⟩
  · simp [kind, value_unsigned_eq_zero, Value.isDuration, ← Bool.beq_eq_decide_eq]
  · simp [kind, value_signed_eq_zero, Value.isDuration, ← Bool.beq_eq_decide_eq]
  · simp [kind, value_signed_eq_zero, Value.isDuration, ← Bool.beq_eq_decide_eq]

theorem zeroID_iff {second : Word} (secondWord : B.value.word = some second) :
    B.ZeroID ↔ second.value = 0 ∧ B.value.isDuration = false ∧ B.valueIsID = true := by
  rcases word_cases secondWord with ⟨word, kind, rfl⟩ | ⟨word, kind, rfl⟩ | ⟨word, kind, rfl⟩
  · simp [CommandResult.ZeroID, kind, Value.isDuration, value_unsigned_eq_zero, and_comm]
  · simp [CommandResult.ZeroID, kind, Value.isDuration, value_signed_eq_zero, and_comm]
  · simp [CommandResult.ZeroID, kind, Value.isDuration]

variable {A B : CommandResult D Object}

theorem word_of_copyFor {first second : Word} (integer : B.value.numeral = some (.integer second))
    (copy : A.value.copyFor doubles (.integer second) = .integer first) :
    A.value.word = some first ∧ B.value.word = some second := by
  refine ⟨word_of_numeral ?_, word_of_numeral integer⟩
  unfold Value.copyFor at copy
  cases kind : A.value.numeral with
  | none => simp [kind] at copy
  | some numeral => simpa [kind] using copy

@[simp] theorem returnWord_eq_error {outcome : Except Undefined Word} {undefined : Undefined} :
    (returnWord outcome : Except Undefined (Pointer D Object)) = .error undefined ↔
      outcome = .error undefined := by
  cases outcome <;> simp [returnWord, Functor.map, Except.map]

theorem words_of_undefined {operation : Operation D}
    {undefined : Undefined} (failed : calculate doubles operation A B = .error undefined) :
    ∃ first second, A.value.word = some first ∧ B.value.word = some second ∧
      evaluate operation.onIntegers first second = .error undefined := by
  cases integer : B.value.numeral with
  | none => simp [calculate, integer, pure, Except.pure] at failed
  | some numeral =>
    cases numeral with
    | double second =>
      simp [calculate, integer, Operation.apply, pure, Except.pure, Functor.map, Except.map] at failed
    | integer second =>
      cases copy : A.value.copyFor doubles (.integer second) with
      | double first =>
        simp [calculate, integer, copy, Operation.apply, pure, Except.pure, Functor.map, Except.map] at failed
      | integer first =>
        obtain ⟨firstWord, secondWord⟩ := word_of_copyFor integer copy
        rw [calculate_words firstWord secondWord, returnWord_eq_error] at failed
        exact ⟨first, second, firstWord, secondWord, failed⟩

theorem division_eq_divideByZero :
    calculate doubles (division doubles) A B = .error .divideByZero ↔ ZeroDivisor A B := by
  constructor
  · intro divided
    obtain ⟨first, second, firstWord, secondWord, failed⟩ := words_of_undefined divided
    exact ⟨first, second, firstWord, secondWord, quotient_eq_divideByZero.mp failed⟩
  · rintro ⟨first, second, firstWord, secondWord, zero⟩
    rw [calculate_words firstWord secondWord, returnWord_eq_error]
    exact quotient_eq_divideByZero.mpr zero

theorem CommandResult.ZeroID.word (zeroID : B.ZeroID) :
    ∃ second, B.value.word = some second ∧ second.value = 0 := by
  rcases zeroID.2 with kind | kind <;> rw [kind] <;> exact ⟨_, rfl, rfl⟩

theorem calculateDiv_guarded_iff (A B : CommandResult D Object) :
    Guarded (calculateDiv doubles objects (some A) (some B)) (ZeroDivisor A B) ↔
      ¬ (A.value.word ≠ none ∧ B.ZeroID) := by
  simp only [calculateDiv, onBoth]
  by_cases zero : ZeroDivisor A B
  · have divided : calculate doubles (division doubles) A B = .error .divideByZero :=
      division_eq_divideByZero.mpr zero
    obtain ⟨first, second, firstWord, secondWord, isZero⟩ := zero
    have isNull : B.valueIsNull doubles objects = true ↔ ¬ B.ZeroID := by
      rw [valueIsNull_of_word secondWord, zeroID_iff secondWord]
      cases B.value.isDuration <;> cases B.valueIsID <;> simp [isZero]
    by_cases zeroID : B.ZeroID
    · have present : ¬ B.valueIsNull doubles objects = true := fun null => isNull.mp null zeroID
      simp [Guarded, present, divided, firstWord, zeroID]
    · simp [Guarded, isNull.mpr zeroID, zeroID, pure, Except.pure]
  · have undivided : calculate doubles (division doubles) A B ≠ .error .divideByZero :=
      mt division_eq_divideByZero.mp zero
    have other : ¬ (A.value.word ≠ none ∧ B.ZeroID) := by
      rintro ⟨integer, zeroID⟩
      obtain ⟨first, firstWord⟩ := Option.ne_none_iff_exists'.mp integer
      obtain ⟨second, secondWord, isZero⟩ := zeroID.word
      exact zero ⟨first, second, firstWord, secondWord, isZero⟩
    refine iff_of_true ⟨?_, fun divisor => absurd divisor zero⟩ other
    split
    · simp [pure, Except.pure]
    · exact undivided

theorem toWord_ne_divideByZero {signed : Bool} {number : D} :
    doubles.toWord signed number ≠ .error .divideByZero := by
  unfold Doubles.toWord
  split
  · split
    · exact ofExact_ne_divideByZero
    · simp [throw, throwThe, MonadExceptOf.throw]
  · simp [throw, throwThe, MonadExceptOf.throw]

theorem divisor_ne_divideByZero {second : Numeral D} : divisor doubles second ≠ .error .divideByZero := by
  cases second with
  | integer word => cases word <;> simp [divisor, pure, Except.pure]
  | double number => exact toWord_ne_divideByZero

theorem dividend_ne_divideByZero {first : Numeral D} : dividend doubles first ≠ .error .divideByZero := by
  cases first with
  | integer word => simp [dividend, pure, Except.pure]
  | double number => exact toWord_ne_divideByZero

theorem divisor_of_dividend {second : Numeral D} {dividing : Word}
    (integer : dividend doubles second = .ok dividing) (zero : dividing.value = 0) :
    ∃ divisor', divisor doubles second = .ok divisor' ∧ divisor'.value = 0 := by
  cases second with
  | double number => exact ⟨dividing, integer, zero⟩
  | integer word =>
    cases word with
    | unsigned word => exact ⟨.signed 0, rfl, rfl⟩
    | signed word =>
      cases integer
      exact ⟨.signed word, rfl, zero⟩

theorem guarded_tested {first : Word} {second : Numeral D} {zeroDivisor : Prop}
    (zero : zeroDivisor → ∃ dividing, dividend doubles second = .ok dividing ∧ dividing.value = 0) :
    Guarded (do
      let second ← divisor doubles second
      if second.value = 0 then pure none else returnWord (remainder first second) :
        Except Undefined (Pointer D Object)) zeroDivisor := by
  cases read : divisor doubles second with
  | error undefined =>
    constructor
    · intro divided
      cases divided
      exact divisor_ne_divideByZero read
    · intro divisor
      obtain ⟨dividing, integer, isZero⟩ := zero divisor
      obtain ⟨word, same, _⟩ := divisor_of_dividend integer isZero
      rw [read] at same
      cases same
  | ok word =>
    by_cases isZero : word.value = 0
    · simp [Guarded, isZero, bind, Except.bind, pure, Except.pure]
    · constructor
      · simpa [isZero, bind, Except.bind] using mt remainder_eq_divideByZero.mp isZero
      · intro divisor
        obtain ⟨dividing, integer, dividingZero⟩ := zero divisor
        obtain ⟨other, same, otherZero⟩ := divisor_of_dividend integer dividingZero
        rw [read] at same
        cases same
        exact absurd otherZero isZero

theorem isSigned_of_toWord {number : D} {word : Word}
    (converts : doubles.toWord true number = .ok word) : word.isSigned = true := by
  unfold Doubles.toWord at converts
  split at converts
  · split at converts
    · exact isSigned_of_ofExact converts
    · cases converts
  · cases converts

theorem uint_of_numeral {word : UInt64}
    (unsigned : operand.numeral = some (.integer (.unsigned word))) : operand = .uint word := by
  cases operand <;> simp_all [Value.numeral]

theorem uint_of_dividend {numeral : Numeral D} {word : UInt64} (reads : operand.numeral = some numeral)
    (unsigned : dividend doubles numeral = .ok (.unsigned word)) : operand = .uint word := by
  cases numeral with
  | integer divided =>
    cases unsigned
    exact uint_of_numeral reads
  | double number => exact absurd (isSigned_of_toWord unsigned) Bool.false_ne_true

theorem modulo_guarded (mixed : ∀ divided dividing, A.value = .uint divided → B.value ≠ .uint dividing) :
    Guarded (modulo doubles A B) (ZeroModulus doubles A B) := by
  unfold modulo
  cases firstKind : A.value.numeral with
  | none => simp [Guarded, pure, Except.pure]
  | some first =>
    dsimp only
    cases divides : dividend doubles first with
    | error undefined =>
      constructor
      · intro divided
        cases divided
        exact dividend_ne_divideByZero divides
      · rintro ⟨same, _, _, word, reads, _, integer, _⟩
        rw [firstKind] at reads
        cases reads
        rw [divides] at integer
        cases integer
    | ok word =>
      cases secondKind : B.value.numeral with
      | none => simp [Guarded, bind, Except.bind, pure, Except.pure]
      | some second =>
        have tested : Guarded _ (ZeroModulus doubles A B) :=
          @guarded_tested D Object doubles word second _ fun zero => by
            obtain ⟨_, other, dividing, _, _, reads, _, integer, isZero⟩ := zero
            rw [secondKind] at reads
            cases reads
            exact ⟨dividing, integer, isZero⟩
        cases word with
        | signed divided => exact tested
        | unsigned divided =>
          have unsigned := uint_of_dividend firstKind divides
          cases second with
          | double number => exact tested
          | integer word =>
            cases word with
            | signed dividing => exact tested
            | unsigned dividing =>
              exact absurd (uint_of_numeral secondKind) (mixed _ _ unsigned)

theorem calculateMod_guarded_iff (A B : CommandResult D Object) :
    Guarded (calculateMod doubles (some A) (some B)) (ZeroModulus doubles A B) ↔
      ¬ ((∃ divided, A.value = .uint divided) ∧ B.value = .uint 0) := by
  by_cases unsigned : ∃ divided dividing, A.value = .uint divided ∧ B.value = .uint dividing
  · obtain ⟨divided, dividing, firstKind, secondKind⟩ := unsigned
    have computed : calculateMod doubles (some A) (some B) =
        returnWord (remainder (.unsigned divided) (.unsigned dividing)) := by
      simp only [calculateMod, onBoth, modulo, firstKind, secondKind]
      rfl
    rw [computed]
    by_cases zero : dividing = 0
    · have failed : remainder (.unsigned divided) (.unsigned dividing) = .error .divideByZero :=
        remainder_eq_divideByZero.mpr (value_unsigned_eq_zero.mpr zero)
      have unguarded : ¬ Guarded (returnWord (remainder (.unsigned divided) (.unsigned dividing)) :
          Except Undefined (Pointer D Object)) (ZeroModulus doubles A B) :=
        fun guarded => guarded.1 (returnWord_eq_error.mpr failed)
      exact iff_of_false unguarded (not_not.mpr ⟨⟨divided, firstKind⟩, zero ▸ secondKind⟩)
    · have nonzero := mt value_unsigned_eq_zero.mp zero
      refine iff_of_true ⟨?_, ?_⟩ ?_
      · exact mt returnWord_eq_error.mp (mt remainder_eq_divideByZero.mp nonzero)
      · rintro ⟨_, _, word, _, _, reads, _, integer, isZero⟩
        rw [secondKind] at reads
        cases reads
        cases integer
        exact absurd isZero nonzero
      · rintro ⟨_, isZero⟩
        rw [secondKind] at isZero
        cases isZero
        exact zero rfl
  · have mixed : ∀ divided dividing, A.value = .uint divided → B.value ≠ .uint dividing := by
      intro divided dividing firstKind secondKind
      exact unsigned ⟨divided, dividing, firstKind, secondKind⟩
    refine iff_of_true (modulo_guarded mixed) ?_
    rintro ⟨⟨divided, firstKind⟩, secondKind⟩
    exact mixed divided 0 firstKind secondKind

/-- A division is executed with a divisor of zero when that is marked as an identifier, and a
remainder when both operands are unsigned. -/
theorem never_divides_by_zero_iff (A B : Pointer D Object) :
    (Guarded (calculateDiv doubles objects A B) (∃ a ∈ A, ∃ b ∈ B, ZeroDivisor a b) ↔
      ¬ ∃ a ∈ A, ∃ b ∈ B, a.value.word ≠ none ∧ b.ZeroID) ∧
    (Guarded (calculateMod doubles A B) (∃ a ∈ A, ∃ b ∈ B, ZeroModulus doubles a b) ↔
      ¬ ∃ a ∈ A, ∃ b ∈ B, (∃ divided, a.value = .uint divided) ∧ b.value = .uint 0) := by
  cases A with
  | none => simp [Guarded, calculateDiv, calculateMod, onBoth, pure, Except.pure]
  | some A =>
    cases B with
    | none => simp [Guarded, calculateDiv, calculateMod, onBoth, pure, Except.pure]
    | some B =>
      simp only [Option.mem_some_iff, exists_eq_left']
      exact ⟨calculateDiv_guarded_iff A B, calculateMod_guarded_iff A B⟩

theorem divides_by_identifier :
    calculateDiv rationals noObjects (some ⟨.int 6, false⟩) (some ⟨.int 0, true⟩) = .error .divideByZero ∧
      @calculateMod ℚ Empty rationals (some ⟨.uint 6, false⟩) (some ⟨.uint 0, false⟩) = .error .divideByZero :=
  ⟨rfl, rfl⟩

end OpenSpeedShop.MetricArithmetic
