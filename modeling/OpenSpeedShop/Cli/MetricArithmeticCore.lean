import OpenSpeedShop.Library.ArithmeticConversions
import OpenSpeedShop.Cli.MetricExpressionsCore

/-!
The arithmetic of metric expressions on the results of a command.
-/

namespace OpenSpeedShop.MetricArithmetic

open ArithmeticConversions
open MetricExpressions (ExpressionOperation)

/-- The types of results. Those that no calculation names are `other`. -/
inductive Value (D Object : Type)
  | address (value : UInt64)
  | uint (value : UInt64)
  | int (value : Int64)
  | float (value : D)
  | duration (value : Int64)
  | interval (value : D)
  | other (object : Object)

structure CommandResult (D Object : Type) where
  value : Value D Object
  valueIsID : Bool

/-- The virtual functions of the types that no calculation names. -/
structure Objects (Object : Type) where
  valueIsNull : Object → Bool
  sameType : Object → Object → Bool
  accumulateValue : Object → Object → Object
  accumulateMin : Object → Object → Object
  accumulateMax : Object → Object → Object

abbrev Pointer (D Object : Type) := Option (CommandResult D Object)

variable {D Object : Type} (doubles : Doubles D) (objects : Objects Object)

def CommandResult.valueIsNull (result : CommandResult D Object) : Bool :=
  match result.value with
  | .address value => value == 0 && !result.valueIsID
  | .uint value => value == 0 && !result.valueIsID
  | .int value => value == 0 && !result.valueIsID
  | .float value => doubles.isZero value && !result.valueIsID
  | .duration value => value == 0
  | .interval value => doubles.isZero value && !result.valueIsID
  | .other object => objects.valueIsNull object

def Value.numeral : Value D Object → Option (Numeral D)
  | uint value => some (.integer (.unsigned value))
  | int value => some (.integer (.signed value))
  | float value => some (.double value)
  | duration value => some (.integer (.signed value))
  | interval value => some (.double value)
  | address _ => none
  | other _ => none

/-- The copy of the first operand that the branch for the second one reads, which is zero where
its switch does not name the type: `ADvalue` next to an integer, `AIvalue` next to a
floating-point number. -/
def Value.copyFor (first : Value D Object) (second : Numeral D) : Numeral D :=
  match first.numeral, second with
  | some numeral, _ => numeral
  | none, .integer _ => .double (doubles.ofInt 0)
  | none, .double _ => .integer (.signed 0)

def crptr : Numeral D → CommandResult D Object
  | .integer (.unsigned value) => ⟨.uint value, false⟩
  | .integer (.signed value) => ⟨.int value, false⟩
  | .double value => ⟨.float value, false⟩

def calculate (operation : Operation D) (A B : CommandResult D Object) : Except Undefined (Pointer D Object) :=
  match B.value.numeral with
  | none => pure none
  | some second =>
    (fun numeral => some (crptr numeral)) <$> operation.apply doubles (A.value.copyFor doubles second) second

def onBoth (calculation : CommandResult D Object → CommandResult D Object →
    Except Undefined (Pointer D Object)) :
    Pointer D Object → Pointer D Object → Except Undefined (Pointer D Object)
  | none, B => pure B
  | some A, none => pure (some A)
  | some A, some B => calculation A B

def addition : Operation D where
  onIntegers first second := pure (first + second)
  onDoubles := doubles.add

def subtraction : Operation D where
  onIntegers first second := pure (first - second)
  onDoubles := doubles.sub

def multiplication : Operation D where
  onIntegers first second := pure (first * second)
  onDoubles := doubles.mul

def division : Operation D where
  onIntegers := exactQuotient
  onDoubles := doubles.div

/-- `(AUvalue <= BUvalue) ? AUvalue : BUvalue` -/
def minimum : Operation D where
  onIntegers first second := pure (if first ≤ second then first else second)
  onDoubles first second := if doubles.le first second then first else second

/-- `(AUvalue > BUvalue) ? AUvalue : BUvalue` -/
def maximum : Operation D where
  onIntegers first second := pure (if first > second then first else second)
  onDoubles first second := if doubles.lt second first then first else second

/-- `(condition) ? BUvalue : CUvalue` -/
def choice (condition : Bool) : Operation D where
  onIntegers first second := pure (if condition then first else second)
  onDoubles first second := if condition then first else second

def calculateAdd : Pointer D Object → Pointer D Object → Except Undefined (Pointer D Object) :=
  onBoth (calculate doubles (addition doubles))

def calculateSub : Pointer D Object → Pointer D Object → Except Undefined (Pointer D Object) :=
  onBoth (calculate doubles (subtraction doubles))

def calculateMult : Pointer D Object → Pointer D Object → Except Undefined (Pointer D Object) :=
  onBoth (calculate doubles (multiplication doubles))

def calculateDiv : Pointer D Object → Pointer D Object → Except Undefined (Pointer D Object) :=
  onBoth fun A B =>
    if B.valueIsNull doubles objects then pure none
    else calculate doubles (division doubles) A B

def calculateMin : Pointer D Object → Pointer D Object → Except Undefined (Pointer D Object) :=
  onBoth (calculate doubles (minimum doubles))

def calculateMax : Pointer D Object → Pointer D Object → Except Undefined (Pointer D Object) :=
  onBoth (calculate doubles (maximum doubles))

/-- `AIvalue = ADvalue` -/
def dividend : Numeral D → Except Undefined Word
  | .integer word => pure word
  | .double number => doubles.toWord true number

def divisor : Numeral D → Except Undefined Word
  | .integer (.unsigned _) => pure (.signed 0)
  | .integer (.signed value) => pure (.signed value)
  | .double number => doubles.toWord true number

def returnWord (outcome : Except Undefined Word) : Except Undefined (Pointer D Object) :=
  (fun word => some (crptr (.integer word))) <$> outcome

def modulo (A B : CommandResult D Object) : Except Undefined (Pointer D Object) :=
  match A.value.numeral with
  | none => pure none
  | some first => do
      let first ← dividend doubles first
      match B.value.numeral with
      | none => pure none
      | some second =>
        match first, second with
        | .unsigned _, .integer (.unsigned value) =>
          returnWord (remainder first (.unsigned value))
        | _, _ => do
            let second ← divisor doubles second
            if second.value = 0 then pure none else returnWord (remainder first second)

def calculateMod : Pointer D Object → Pointer D Object → Except Undefined (Pointer D Object) :=
  onBoth (modulo doubles)

def Value.condition (value : Value D Object) : Bool :=
  match value.numeral with
  | some (.integer word) => word.value != 0
  | some (.double number) => !doubles.isZero number
  | none => false

def calculateCondexp : Pointer D Object → Pointer D Object → Pointer D Object →
    Except Undefined (Pointer D Object)
  | none, B, _ => pure B
  | some A, none, _ => pure (some A)
  | some _, some _, none => throw .nullPointer
  | some A, some B, some C => calculate doubles (choice (A.value.condition doubles)) B C

def onNumeral (calculation : Numeral D → Except Undefined (Numeral D)) :
    Pointer D Object → Except Undefined (Pointer D Object)
  | none => pure none
  | some A =>
    match A.value.numeral with
    | none => pure none
    | some numeral => (fun numeral => some (crptr numeral)) <$> calculation numeral

def calculateUminus : Pointer D Object → Except Undefined (Pointer D Object) :=
  onNumeral fun
    | .integer word => .integer <$> ofExact word.isSigned (-word.value)
    | .double number => pure (.double (doubles.neg number))

def calculateAbs : Pointer D Object → Except Undefined (Pointer D Object) :=
  onNumeral fun
    | .integer word =>
      if word.value ≥ 0 then pure (.integer word)
      else .integer <$> ofExact word.isSigned (-word.value)
    | .double number =>
      pure (.double (if doubles.le (doubles.ofInt 0) number then number
        else doubles.neg number))

def Value.sameType : Value D Object → Value D Object → Bool
  | address _, address _ => true
  | uint _, uint _ => true
  | int _, int _ => true
  | float _, float _ => true
  | duration _, duration _ => true
  | interval _, interval _ => true
  | other first, other second => objects.sameType first second
  | _, _ => false

structure Accumulation (D Object : Type) where
  onUnsigned : UInt64 → UInt64 → UInt64
  onSigned : Int64 → Int64 → Except Undefined Int64
  onDoubles : D → D → D
  onObjects : Object → Object → Object

def Accumulation.apply (accumulation : Accumulation D Object) :
    Value D Object → Value D Object → Except Undefined (Value D Object)
  | .address first, .address second => pure (.address (accumulation.onUnsigned first second))
  | .uint first, .uint second => pure (.uint (accumulation.onUnsigned first second))
  | .int first, .int second => .int <$> accumulation.onSigned first second
  | .float first, .float second => pure (.float (accumulation.onDoubles first second))
  | .duration first, .duration second => .duration <$> accumulation.onSigned first second
  | .interval first, .interval second => pure (.interval (accumulation.onDoubles first second))
  | .other first, .other second => pure (.other (accumulation.onObjects first second))
  | first, _ => pure first

def sum : Accumulation D Object where
  onUnsigned first second := first + second
  onSigned first second :=
    if FitsAs true (first.toInt + second.toInt) then pure (first + second) else throw .overflow
  onDoubles := doubles.add
  onObjects := objects.accumulateValue

def smaller : Accumulation D Object where
  onUnsigned first second := if second < first then second else first
  onSigned first second := pure (if second < first then second else first)
  onDoubles first second := if doubles.lt second first then second else first
  onObjects := objects.accumulateMin

def larger : Accumulation D Object where
  onUnsigned first second := if first < second then second else first
  onSigned first second := pure (if first < second then second else first)
  onDoubles first second := if doubles.lt first second then second else first
  onObjects := objects.accumulateMax

def CommandResult.accumulate (accumulation : Accumulation D Object)
    (A B : CommandResult D Object) : Except Undefined (Pointer D Object) :=
  (fun value => some { A with value := value }) <$> accumulation.apply A.value B.value

def calculateAAdd : Pointer D Object → Pointer D Object → Except Undefined (Pointer D Object) :=
  onBoth fun A B =>
    if A.value.sameType objects B.value then
      if !A.valueIsID then A.accumulate (sum doubles objects) B else pure (some A)
    else calculate doubles (addition doubles) A B

def calculateAMult : Pointer D Object → Pointer D Object → Except Undefined (Pointer D Object) :=
  onBoth (calculate doubles (addition doubles))

def calculateAMin : Pointer D Object → Pointer D Object → Except Undefined (Pointer D Object) :=
  onBoth fun A B =>
    if A.value.sameType objects B.value then A.accumulate (smaller doubles objects) B
    else calculate doubles (minimum doubles) A B

def calculateAMax : Pointer D Object → Pointer D Object → Except Undefined (Pointer D Object) :=
  onBoth fun A B =>
    if A.value.sameType objects B.value then A.accumulate (larger doubles objects) B
    else calculate doubles (maximum doubles) A B

def convertToUint : Pointer D Object → Except Undefined (Pointer D Object)
  | none => pure none
  | some A =>
    returnWord <| match A.value with
      | .uint value => pure (.unsigned value)
      | .int value => pure (.unsigned value.toUInt64)
      | .float value => doubles.toWord false value
      | .duration _ => throw .wrongClass
      | .interval _ => throw .wrongClass
      | .address _ => pure (.unsigned 0)
      | .other _ => pure (.unsigned 0)

def convertToInt : Pointer D Object → Except Undefined (Pointer D Object)
  | none => pure none
  | some A =>
    returnWord <| match A.value with
      | .uint value => pure (.signed value.toInt64)
      | .int value => pure (.signed value)
      | .float value => doubles.toWord true value
      | .duration _ => throw .wrongClass
      | .interval _ => throw .wrongClass
      | .address _ => pure (.signed 0)
      | .other _ => pure (.signed 0)

def convertToFloat : Pointer D Object → Except Undefined (Pointer D Object)
  | none => pure none
  | some A =>
    (fun number => some (crptr (.double number))) <$> match A.value with
      | .uint value => pure (doubles.ofInt value.toNat)
      | .int value => pure (doubles.ofInt value.toInt)
      | .float value => pure value
      | .duration _ => throw .wrongClass
      | .interval _ => throw .wrongClass
      | .address _ => pure (doubles.ofInt 0)
      | .other _ => pure (doubles.ofInt 0)

structure Statistics (D Object : Type) where
  calculateSqrt : Pointer D Object → Except Undefined (Pointer D Object)
  calculateStdDev : Pointer D Object → Pointer D Object → Pointer D Object →
    Except Undefined (Pointer D Object)
  calculatePercent : Pointer D Object → Pointer D Object → Except Undefined (Pointer D Object)
  calculateRatio : Pointer D Object → Pointer D Object → Except Undefined (Pointer D Object)

def calculateExpression (statistics : Statistics D Object) (op : ExpressionOperation)
    (A B C : Pointer D Object) : Except Undefined (Pointer D Object) :=
  match op with
  | .error => pure none
  | .uminus => calculateUminus doubles A
  | .abs => calculateAbs doubles A
  | .add => calculateAdd doubles A B
  | .sub => calculateSub doubles A B
  | .mult => calculateMult doubles A B
  | .div => calculateDiv doubles objects A B
  | .mod => calculateMod doubles A B
  | .min => calculateMin doubles A B
  | .max => calculateMax doubles A B
  | .sqrt => statistics.calculateSqrt A
  | .stdev => statistics.calculateStdDev A B C
  | .percent => statistics.calculatePercent A B
  | .condexp => calculateCondexp doubles A B C
  | .aAdd => calculateAAdd doubles objects A B
  | .aMult => calculateAMult doubles A B
  | .aMin => calculateAMin doubles objects A B
  | .aMax => calculateAMax doubles objects A B
  | .uint => convertToUint doubles A
  | .int => convertToInt doubles A
  | .float => convertToFloat doubles A
  | .ratio => statistics.calculateRatio A B
  | .const | .header => pure none

end OpenSpeedShop.MetricArithmetic
