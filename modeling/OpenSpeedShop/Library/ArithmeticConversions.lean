import Mathlib.Algebra.Order.Ring.Int
import Mathlib.Data.Int.ModEq

/-!
Arithmetic on 64-bit integers and floating-point numbers as in C++. The operands are first converted to
one type: floating as soon as one is, unsigned unless both are signed. Unsigned results are reduced
modulo `2 ^ 64`, signed ones have to fit.
-/

namespace ArithmeticConversions

inductive Undefined
  | divideByZero | overflow | wrongClass | nullPointer
deriving DecidableEq

inductive Word
  | unsigned (word : UInt64)
  | signed (word : Int64)

namespace Word

def value : Word → Int
  | unsigned word => word.toNat
  | signed word => word.toInt

def isSigned : Word → Bool
  | unsigned _ => false
  | signed _ => true

def valueAs (toSigned : Bool) (word : Word) : Int :=
  if toSigned then word.value else word.value % 2 ^ 64

end Word

def FitsAs (signed : Bool) (number : Int) : Prop :=
  if signed then -2 ^ 63 ≤ number ∧ number < 2 ^ 63 else 0 ≤ number ∧ number < 2 ^ 64

instance (signed : Bool) (number : Int) : Decidable (FitsAs signed number) := by
  unfold FitsAs
  infer_instance

def ofExact (signed : Bool) (number : Int) : Except Undefined Word :=
  if signed then
    if FitsAs true number then pure (.signed (Int64.ofInt number)) else throw .overflow
  else pure (.unsigned (UInt64.ofInt number))

def bothSigned (first second : Word) : Bool := first.isSigned && second.isSigned

def evaluate (exact : Int → Int → Except Undefined Int) (first second : Word) : Except Undefined Word :=
  let signed := bothSigned first second
  exact (first.valueAs signed) (second.valueAs signed) >>= ofExact signed

def exactQuotient (first second : Int) : Except Undefined Int :=
  if second = 0 then throw .divideByZero else pure (first.tdiv second)

def exactRemainder (first second : Int) : Except Undefined Int :=
  if second = 0 then throw .divideByZero else pure (first.tmod second)

def remainder (first second : Word) : Except Undefined Word := do
  let _ ← evaluate exactQuotient first second
  evaluate exactRemainder first second

/-- A type of floating-point numbers, with the operators of the language on them. A number
truncates to an integer, unless it is not finite. -/
structure Doubles (D : Type) where
  ofInt : Int → D
  add : D → D → D
  sub : D → D → D
  mul : D → D → D
  div : D → D → D
  neg : D → D
  le : D → D → Bool
  lt : D → D → Bool
  isZero : D → Bool
  truncated : D → Option Int

/-- What floating-point numbers are to integers: an integer that is one of them converts to
itself, zero is one, and nothing else compares equal to it. -/
structure Doubles.Denotes {D Number : Type} [IntCast Number] (doubles : Doubles D)
    (value : D → Number) : Prop where
  injective : ∀ first second : Int, (first : Number) = second → first = second
  exact : ∀ (number : Int) (double : D), value double = number → value (doubles.ofInt number) = number
  zero : value (doubles.ofInt 0) = (0 : Int)
  isZero : ∀ double : D, doubles.isZero double = true ↔ value double = (0 : Int)

inductive Numeral (D : Type)
  | integer (word : Word)
  | double (number : D)

def Numeral.number {D Number : Type} [IntCast Number] (value : D → Number) : Numeral D → Number
  | integer word => (word.value : Number)
  | double number => value number

def converted {D Number : Type} [IntCast Number] (doubles : Doubles D) (value : D → Number) :
    Numeral D → Numeral D → Number
  | .integer word, .integer beside => (word.valueAs (bothSigned word beside) : Number)
  | .integer word, .double _ => value (doubles.ofInt word.value)
  | .double number, _ => value number

structure Operation (D : Type) where
  onIntegers : Int → Int → Except Undefined Int
  onDoubles : D → D → D

variable {number : Int}

theorem Doubles.Denotes.ofInt_iff {D Number : Type} [IntCast Number] {doubles : Doubles D}
    {value : D → Number} (denotes : doubles.Denotes value) :
    value (doubles.ofInt number) = number ↔ ∃ double, value double = number :=
  ⟨fun exact => ⟨_, exact⟩, fun ⟨double, exact⟩ => denotes.exact number double exact⟩

variable {D : Type} (doubles : Doubles D)

def Numeral.toDouble : Numeral D → D
  | integer word => doubles.ofInt word.value
  | double number => number

def Operation.apply (operation : Operation D) : Numeral D → Numeral D → Except Undefined (Numeral D)
  | .integer first, .integer second => .integer <$> evaluate operation.onIntegers first second
  | first, second =>
    pure (.double (operation.onDoubles (first.toDouble doubles) (second.toDouble doubles)))

def Doubles.toWord (signed : Bool) (number : D) : Except Undefined Word :=
  match doubles.truncated number with
  | some integer => if FitsAs signed integer then ofExact signed integer else throw .overflow
  | none => throw .overflow

theorem Word.fits (word : Word) : FitsAs word.isSigned word.value := by
  cases word with
  | unsigned word =>
    have bound := word.toNat_lt
    simp only [FitsAs, Word.isSigned, Word.value, Bool.false_eq_true, if_false]
    omega
  | signed word =>
    have lower := word.le_toInt
    have upper := word.toInt_lt
    simp only [FitsAs, Word.isSigned, Word.value, if_true]
    omega

def Reads (outcome : Except Undefined Word) (number : Int) : Prop :=
  ∃ word, outcome = .ok word ∧ word.value = number

variable {word : Word}

@[simp] theorem reads_ok : Reads (.ok word) number ↔ word.value = number := by
  simp [Reads]

@[simp] theorem reads_error {undefined : Undefined} : ¬ Reads (.error undefined) number := by
  simp [Reads]

theorem reads_ofExact_signed {number expected : Int} :
    Reads (ofExact true number) expected ↔ FitsAs true number ∧ number = expected := by
  by_cases fits : FitsAs true number
  · have value : (Int64.ofInt number).toInt = number := by
      simp only [FitsAs, if_true] at fits
      exact Int64.toInt_ofInt_of_le fits.1 fits.2
    simp [ofExact, fits, Word.value, pure, Except.pure, value]
  · simp [ofExact, fits, throw, throwThe, MonadExceptOf.throw]

theorem reads_ofExact_unsigned {number expected : Int} :
    Reads (ofExact false number) expected ↔ number % 2 ^ 64 = expected := by
  have value : ((UInt64.ofInt number).toNat : Int) = number % 2 ^ 64 := by
    rw [UInt64.ofInt, UInt64.toNat_ofNat_of_lt']
    · omega
    · simp only [UInt64.size]
      omega
  simp [ofExact, Word.value, pure, Except.pure, value]

variable {signed : Bool}

theorem isSigned_of_ofExact (result : ofExact signed number = .ok word) : word.isSigned = signed := by
  unfold ofExact at result
  split at result
  · rename_i isSigned
    split at result
    · cases result
      exact isSigned.symm
    · cases result
  · rename_i isUnsigned
    cases result
    exact (Bool.eq_false_iff.mpr isUnsigned).symm

theorem reads_ofExact : Reads (ofExact signed number) number ↔ FitsAs signed number := by
  cases signed with
  | true => simp [reads_ofExact_signed]
  | false =>
    rw [reads_ofExact_unsigned]
    simp only [FitsAs, Bool.false_eq_true, if_false]
    omega

theorem value_toUInt64 (word : Int64) : (word.toUInt64.toNat : Int) = word.toInt % 2 ^ 64 := by
  have signed : word.toInt = word.toBitVec.toInt := rfl
  have unsigned : word.toUInt64.toNat = word.toBitVec.toNat := rfl
  have bound := word.toBitVec.isLt
  rw [signed, unsigned, BitVec.toInt_eq_toNat_cond]
  split <;> omega

theorem value_toInt64 (word : UInt64) : word.toInt64.toInt = word.toNat ↔ (word.toNat : Int) < 2 ^ 63 := by
  have bound := word.toNat_lt
  have signed : word.toInt64.toInt = word.toBitVec.toInt := rfl
  have same : word.toBitVec.toNat = word.toNat := rfl
  rw [signed, BitVec.toInt_eq_toNat_cond, same]
  split <;> omega

theorem reads_abs : Reads (if word.value ≥ 0 then pure word else ofExact word.isSigned (-word.value))
      word.value.natAbs ↔ FitsAs word.isSigned word.value.natAbs := by
  by_cases nonneg : 0 ≤ word.value
  · have same : (word.value.natAbs : Int) = word.value := by omega
    rw [same, if_pos nonneg]
    exact iff_of_true (reads_ok.mpr rfl) word.fits
  · have negated : (word.value.natAbs : Int) = -word.value := by omega
    rw [negated, if_neg nonneg, reads_ofExact]

theorem bothSigned_iff {first second : Word} :
    bothSigned first second = true ↔ first.isSigned = true ∧ second.isSigned = true := by
  simp [bothSigned]

theorem bothSigned_comm (first second : Word) : bothSigned first second = bothSigned second first :=
  Bool.and_comm _ _

theorem Word.unsigned_bounds (isUnsigned : word.isSigned = false) : 0 ≤ word.value ∧ word.value < 2 ^ 64 := by
  simpa [FitsAs, isUnsigned] using word.fits

theorem Word.signed_bounds (isSigned : word.isSigned = true) : -2 ^ 63 ≤ word.value ∧ word.value < 2 ^ 63 := by
  simpa [FitsAs, isSigned] using word.fits

theorem mixed_ranges {first second : Word} (mixed : bothSigned first second = false) :
    (first.isSigned = second.isSigned ∧ (0 ≤ first.value ∧ first.value < 2 ^ 64) ∧
        0 ≤ second.value ∧ second.value < 2 ^ 64) ∨ first.isSigned ≠ second.isSigned ∧
        ((0 ≤ first.value ∧ first.value < 2 ^ 64) ∧ (-2 ^ 63 ≤ second.value ∧ second.value < 2 ^ 63) ∨
          (-2 ^ 63 ≤ first.value ∧ first.value < 2 ^ 63) ∧ (0 ≤ second.value ∧ second.value < 2 ^ 64)) := by
  cases firstSigned : first.isSigned with
  | false =>
    have firstBounds := Word.unsigned_bounds firstSigned
    cases secondSigned : second.isSigned with
    | false => exact .inl ⟨rfl, firstBounds, Word.unsigned_bounds secondSigned⟩
    | true => exact .inr ⟨nofun, .inl ⟨firstBounds, Word.signed_bounds secondSigned⟩⟩
  | true =>
    have firstBounds := Word.signed_bounds firstSigned
    cases secondSigned : second.isSigned with
    | false => exact .inr ⟨nofun, .inr ⟨firstBounds, Word.unsigned_bounds secondSigned⟩⟩
    | true => simp [bothSigned, firstSigned, secondSigned] at mixed

theorem valueAs_bothSigned (word beside : Word) :
    word.valueAs (bothSigned word beside) = word.value ↔ FitsAs (bothSigned word beside) word.value := by
  cases signed : bothSigned word beside with
  | true =>
    have fits := word.fits
    rw [(bothSigned_iff.mp signed).1] at fits
    exact iff_of_true rfl fits
  | false =>
    simp only [Word.valueAs, FitsAs, Bool.false_eq_true, if_false]
    omega

variable {result : Int → Int → Int} {first second : Word}

theorem reads_evaluate_signed (signed : bothSigned first second = true) {expected : Int} :
    Reads (evaluate (fun first second => pure (result first second)) first second) expected ↔
      FitsAs true (result first.value second.value) ∧ result first.value second.value = expected := by
  rw [← reads_ofExact_signed]
  simp [evaluate, signed, Word.valueAs]

theorem reads_evaluate_unsigned (mixed : bothSigned first second = false) {expected : Int} :
    Reads (evaluate (fun first second => pure (result first second)) first second) expected ↔
      result (first.value % 2 ^ 64) (second.value % 2 ^ 64) % 2 ^ 64 = expected := by
  rw [← reads_ofExact_unsigned]
  simp [evaluate, mixed, Word.valueAs]

theorem reads_evaluate_congruent (congruent : ∀ first second : Int,
      result (first % 2 ^ 64) (second % 2 ^ 64) % 2 ^ 64 = result first second % 2 ^ 64) :
    Reads (evaluate (fun first second => pure (result first second)) first second)
        (result first.value second.value) ↔
      FitsAs (bothSigned first second) (result first.value second.value) := by
  cases signed : bothSigned first second with
  | true => rw [reads_evaluate_signed signed, and_iff_left rfl]
  | false =>
    rw [reads_evaluate_unsigned signed, congruent, ← reads_ofExact_unsigned, reads_ofExact]

theorem reads_choice (condition : Bool) (first second : Word) :
    Reads (evaluate (fun first second => pure (if condition then first else second)) first second)
      (if condition then first.valueAs (bothSigned first second)
        else second.valueAs (bothSigned first second)) := by
  have firstFits := first.fits
  have secondFits := second.fits
  cases signed : bothSigned first second with
  | true =>
    obtain ⟨firstSigned, secondSigned⟩ := bothSigned_iff.mp signed
    refine (reads_evaluate_signed signed).mpr ?_
    cases condition <;> simp_all [Word.valueAs]
  | false =>
    refine (reads_evaluate_unsigned signed).mpr ?_
    cases condition <;> simp [Word.valueAs]

theorem reads_minimum : Reads (evaluate (fun first second => pure (if first ≤ second then first else second))
        first second) (min first.value second.value) ↔
      first.isSigned = second.isSigned ∨ 0 ≤ min first.value second.value := by
  cases signed : bothSigned first second with
  | true =>
    obtain ⟨firstSigned, secondSigned⟩ := bothSigned_iff.mp signed
    have firstBounds := Word.signed_bounds firstSigned
    have secondBounds := Word.signed_bounds secondSigned
    rw [reads_evaluate_signed signed, firstSigned, secondSigned]
    simp only [FitsAs, if_true, true_or, iff_true]
    split <;> omega
  | false =>
    rw [reads_evaluate_unsigned signed]
    rcases mixed_ranges signed with ⟨same, ranges⟩ | ⟨different, ranges⟩
    · simp only [same, true_or, iff_true]
      split <;> omega
    · simp only [different, false_or]
      split <;> omega

theorem reads_maximum : Reads (evaluate (fun first second => pure (if first > second then first else second))
        first second) (max first.value second.value) ↔
      first.isSigned = second.isSigned ∨ 0 ≤ min first.value second.value ∨
        2 ^ 64 + min first.value second.value ≤ max first.value second.value := by
  cases signed : bothSigned first second with
  | true =>
    obtain ⟨firstSigned, secondSigned⟩ := bothSigned_iff.mp signed
    have firstBounds := Word.signed_bounds firstSigned
    have secondBounds := Word.signed_bounds secondSigned
    rw [reads_evaluate_signed signed, firstSigned, secondSigned]
    simp only [FitsAs, if_true, true_or, iff_true]
    split <;> omega
  | false =>
    rw [reads_evaluate_unsigned signed]
    rcases mixed_ranges signed with ⟨same, ranges⟩ | ⟨different, ranges⟩
    · simp only [same, true_or, iff_true]
      split <;> omega
    · simp only [different, false_or]
      split <;> omega

theorem ofExact_ne_divideByZero : ofExact signed number ≠ .error .divideByZero := by
  unfold ofExact
  split
  · split <;> simp [pure, Except.pure, throw, throwThe, MonadExceptOf.throw]
  · simp [pure, Except.pure]

theorem Word.valueAs_eq_zero : word.valueAs signed = 0 ↔ word.value = 0 := by
  have fits := word.fits
  unfold FitsAs at fits
  unfold Word.valueAs
  split at fits <;> split <;> omega

theorem quotient_eq_divideByZero :
    evaluate exactQuotient first second = .error .divideByZero ↔ second.value = 0 := by
  by_cases zero : second.value = 0
  · simp [evaluate, exactQuotient, Word.valueAs_eq_zero, zero, throw, throwThe,
      MonadExceptOf.throw, bind, Except.bind]
  · simp [evaluate, exactQuotient, Word.valueAs_eq_zero, zero, ofExact_ne_divideByZero]

theorem remainder_eq_divideByZero : remainder first second = .error .divideByZero ↔ second.value = 0 := by
  by_cases zero : second.value = 0
  · have quotient : evaluate exactQuotient first second = .error .divideByZero :=
      quotient_eq_divideByZero.mpr zero
    simp [remainder, quotient, zero, bind, Except.bind]
  · have quotient : evaluate exactQuotient first second ≠ .error .divideByZero :=
      mt quotient_eq_divideByZero.mp zero
    have result : evaluate exactRemainder first second ≠ .error .divideByZero := by
      simp [evaluate, exactRemainder, Word.valueAs_eq_zero, zero, ofExact_ne_divideByZero]
    cases computed : evaluate exactQuotient first second <;>
      simp_all [remainder, bind, Except.bind]

theorem fitsAs_tdiv {first second : Int} (firstFits : FitsAs true first)
    (secondFits : FitsAs true second) (nonzero : second ≠ 0) :
    FitsAs true (first.tdiv second) ↔ ¬ (first = -2 ^ 63 ∧ second = -1) := by
  simp only [FitsAs, if_true] at *
  have bound := Int.natAbs_tdiv_le_natAbs first second
  by_cases negated : second = -1
  · subst negated
    rw [Int.tdiv_neg, Int.tdiv_one]
    omega
  · have other : ¬ (first = -2 ^ 63 ∧ second = -1) := fun both => negated both.2
    simp only [other, not_false_eq_true, iff_true]
    rcases Int.lt_or_lt_of_ne nonzero with negative | positive
    · have halved : (first.tdiv second).natAbs ≤ first.natAbs / 2 := by
        rw [Int.natAbs_tdiv]
        exact Nat.div_le_div_left (by omega) (by decide)
      omega
    · rcases Int.le_total 0 first with nonneg | nonpos
      · have sign := Int.tdiv_nonneg nonneg (Int.le_of_lt positive)
        omega
      · have sign := Int.tdiv_nonneg (Int.neg_nonneg_of_nonpos nonpos) (Int.le_of_lt positive)
        rw [Int.neg_tdiv] at sign
        omega

theorem fitsAs_tmod (first : Int) {second : Int} (secondFits : FitsAs true second)
    (nonzero : second ≠ 0) : FitsAs true (first.tmod second) := by
  simp only [FitsAs, if_true] at *
  have magnitude := Int.natAbs_tmod first second
  have below : first.natAbs % second.natAbs < second.natAbs := Nat.mod_lt _ (by omega)
  omega

theorem reads_remainder_signed (signed : bothSigned first second = true) (nonzero : second.value ≠ 0) :
    Reads (remainder first second) (first.value.tmod second.value) ↔
      ¬ (first.value = -2 ^ 63 ∧ second.value = -1) := by
  obtain ⟨firstSigned, secondSigned⟩ := bothSigned_iff.mp signed
  have firstFits : FitsAs true first.value := firstSigned ▸ first.fits
  have secondFits : FitsAs true second.value := secondSigned ▸ second.fits
  have quotient : evaluate exactQuotient first second = ofExact true (first.value.tdiv second.value) := by
    simp [evaluate, exactQuotient, signed, Word.valueAs, nonzero]
  have result : evaluate exactRemainder first second = ofExact true (first.value.tmod second.value) := by
    simp [evaluate, exactRemainder, signed, Word.valueAs, nonzero]
  rw [← fitsAs_tdiv firstFits secondFits nonzero]
  by_cases fits : FitsAs true (first.value.tdiv second.value)
  · have defined := reads_ofExact.mpr (fitsAs_tmod first.value secondFits nonzero)
    simpa [remainder, quotient, result, ofExact, fits] using defined
  · simp [remainder, quotient, ofExact, fits, throw, throwThe, MonadExceptOf.throw, bind, Except.bind]

theorem emod_complement {number divisor : Int} (nonneg : 0 ≤ number) (upper : number < 2 ^ 64)
    (positive : 0 < divisor) (small : divisor ≤ 2 ^ 63) : number % (2 ^ 64 - divisor) = number % divisor ↔
      number < divisor ∨ 2 ^ 64 - divisor ≤ number ∧ divisor ∣ 2 ^ 64 := by
  by_cases below : number < 2 ^ 64 - divisor
  · rw [Int.emod_eq_of_lt nonneg below]
    constructor
    · intro same
      exact .inl (same ▸ Int.emod_lt_of_pos number positive)
    · rintro (less | ⟨more, _⟩)
      · exact (Int.emod_eq_of_lt nonneg less).symm
      · omega
  · have left : number % (2 ^ 64 - divisor) = number - (2 ^ 64 - divisor) := by
      rw [← Int.sub_emod_right, Int.emod_eq_of_lt (by omega) (by omega)]
    have right : number - (2 ^ 64 - divisor) = (number - (2 ^ 64 - divisor)) % divisor :=
      (Int.emod_eq_of_lt (by omega) (by omega)).symm
    rw [left, right, eq_comm, Int.emod_eq_emod_iff_emod_sub_eq_zero]
    have difference : number - (number - (2 ^ 64 - divisor)) = 2 ^ 64 - divisor := by omega
    rw [difference, Int.sub_emod_right, ← Int.dvd_iff_emod_eq_zero]
    constructor
    · intro divides
      exact .inr ⟨by omega, divides⟩
    · rintro (less | ⟨_, divides⟩)
      · omega
      · exact divides

theorem reads_remainder_unsigned (isUnsigned : first.isSigned = false) (nonzero : second.value ≠ 0) :
    Reads (remainder first second) (first.value.tmod second.value) ↔
      0 < second.value ∨ first.value < -second.value ∨
        2 ^ 64 + second.value ≤ first.value ∧ second.value ∣ 2 ^ 64 := by
  obtain ⟨nonneg, upper⟩ := Word.unsigned_bounds isUnsigned
  have mixed : bothSigned first second = false := by simp [bothSigned, isUnsigned]
  have secondFits := second.fits
  have same : first.valueAs false = first.value := Int.emod_eq_of_lt nonneg upper
  have converted : second.valueAs false = second.value ∧ 0 < second.value ∨
      second.valueAs false = 2 ^ 64 - -second.value ∧ 0 < -second.value ∧ -second.value ≤ 2 ^ 63 := by
    change second.value % 2 ^ 64 = _ ∧ _ ∨ second.value % 2 ^ 64 = _ ∧ _
    unfold FitsAs at secondFits
    split at secondFits <;> omega
  have positive : 0 < second.valueAs false := by
    rcases converted with ⟨unchanged, positive⟩ | ⟨complement, _, small⟩ <;> omega
  have bounded : second.valueAs false < 2 ^ 64 := Int.emod_lt_of_pos second.value (by decide)
  have computed : remainder first second = ofExact false (first.value.tmod (second.valueAs false)) := by
    simp [remainder, evaluate, exactQuotient, exactRemainder, mixed, same, ofExact, bind,
      Except.bind, pure, Except.pure, positive.ne']
  have below := Int.emod_lt_of_pos first.value positive
  have lower := Int.emod_nonneg first.value positive.ne'
  rw [computed, reads_ofExact_unsigned, Int.tmod_eq_emod_of_nonneg nonneg,
    Int.tmod_eq_emod_of_nonneg nonneg, Int.emod_eq_of_lt lower (below.trans bounded)]
  rcases converted with ⟨unchanged, positive⟩ | ⟨complement, negative, small⟩
  · rw [unchanged]
    simp only [positive, true_or]
  · rw [complement, ← Int.emod_neg first.value second.value,
      emod_complement nonneg upper negative small, Int.neg_dvd]
    omega

end ArithmeticConversions
