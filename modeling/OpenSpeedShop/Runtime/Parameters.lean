import Mathlib.Algebra.Group.Nat.Defs
import Mathlib.Data.List.Basic
import Mathlib.Data.List.GetD

/-!
The text in which blobs of parameters are passed to collector runtimes: two encoders and the runtime's
decoder.
-/

namespace OpenSpeedShop

namespace Parameters

structure Contents where
  bytes : List UInt8
  size_lt : bytes.length < 2 ^ 32

def promote (charIsSigned : Bool) (byte : UInt8) : Int32 :=
  if charIsSigned then byte.toInt8.toInt32 else byte.toUInt32.toInt32

def toChar (value : Int32) : UInt8 := value.toInt8.toUInt8

def zero : Int32 := 48

def encodeByte (charIsSigned : Bool) (byte : UInt8) : List UInt8 :=
  [toChar (zero + (promote charIsSigned byte >>> 4)), toChar (zero + (promote charIsSigned byte &&& 0x0F))]

def getStringEncoding (charIsSigned : Bool) (blob : Contents) : List UInt8 :=
  blob.bytes.flatMap (encodeByte charIsSigned)

def encodingBufferSize : Nat := 15 * 1024

def encodeParameterByte (charIsSigned : Bool) (byte : UInt8) : List UInt8 :=
  [toChar (((promote charIsSigned byte >>> 4) &&& 0xF) + zero),
    toChar ((promote charIsSigned byte &&& 0xF) + zero)]

/-- `OpenSS_EncodeParameters` from the bytes of the XDR stream, which must fit the
encoding buffer. -/
def encodeParameters (charIsSigned : Bool) (buffer : List UInt8) : Option (List UInt8) :=
  if buffer.length ≤ encodingBufferSize then
    some (buffer.flatMap (encodeParameterByte charIsSigned) ++ [0])
  else none

def strlen (argument : List UInt8) : Nat := (argument.takeWhile (· != 0)).length

def digit (charIsSigned : Bool) (argument : List UInt8) (i : UInt32) : Int32 :=
  promote charIsSigned (argument.getD i.toNat 0) - zero

def decodeByte (charIsSigned : Bool) (argument : List UInt8) (i : UInt32) : UInt8 :=
  toChar (promote charIsSigned (toChar (digit charIsSigned argument i <<< 4)) |||
    digit charIsSigned argument (i + 1))

/-- `for(i = 0; i < strlen(argument); i += 2)`, where `i` is an `unsigned`. -/
def decodeLoop (charIsSigned : Bool) (argument : List UInt8) :
    (fuel : Nat) → (i : UInt32) → (buffer : List UInt8) → Option (List UInt8)
  | 0, _, _ => none
  | fuel + 1, i, buffer =>
    if i.toNat < strlen argument then
      decodeLoop charIsSigned argument fuel (i + 2)
        (buffer.set (i / 2).toNat (decodeByte charIsSigned argument i))
    else some buffer

def decodeParameters (charIsSigned : Bool) (fuel : Nat) (argument : List UInt8) : Option (List UInt8) :=
  if strlen argument % 2 = 0 then
    decodeLoop charIsSigned argument fuel 0 (List.replicate (strlen argument / 2 % 2 ^ 32) 0)
  else none

end Parameters

/-!
What the decoder makes of the text of either encoder, and where the two texts
differ.
-/

namespace Parameters

def Represents (charIsSigned : Bool) (byte : UInt8) (text : List UInt8) : Prop :=
  ∃ high low, text = [high, low] ∧ high ≠ 0 ∧ low ≠ 0 ∧
    toChar (promote charIsSigned (toChar ((promote charIsSigned high - zero) <<< 4)) |||
      (promote charIsSigned low - zero)) = byte

theorem forall_byte {property : UInt8 → Prop} (checked : ∀ n < 256, property (UInt8.ofNat n))
    (byte : UInt8) : property byte := by
  have bound : byte.toNat < 256 := byte.toNat_lt
  simpa using checked byte.toNat bound

theorem encodeByte_represents (charIsSigned : Bool) (byte : UInt8) :
    Represents charIsSigned byte (encodeByte charIsSigned byte) := by
  refine ⟨_, _, rfl, ?_⟩
  revert byte
  apply forall_byte
  cases charIsSigned <;> decide +kernel

theorem encodeParameterByte_represents (charIsSigned : Bool) (byte : UInt8) :
    Represents charIsSigned byte (encodeParameterByte charIsSigned byte) := by
  refine ⟨_, _, rfl, ?_⟩
  revert byte
  apply forall_byte
  cases charIsSigned <;> decide +kernel

theorem encodeByte_eq_iff (charIsSigned : Bool) (byte : UInt8) :
    encodeByte charIsSigned byte = encodeParameterByte charIsSigned byte ↔
      (charIsSigned = true → byte < 0x80) := by
  revert byte
  apply forall_byte
  cases charIsSigned <;> decide +kernel

section

variable {charIsSigned : Bool} {encode : UInt8 → List UInt8}
  (represents : ∀ byte, Represents charIsSigned byte (encode byte))

include represents

theorem length_text (bytes : List UInt8) : (bytes.flatMap encode).length = 2 * bytes.length := by
  induction bytes with
  | nil => rfl
  | cons byte rest ih =>
    obtain ⟨high, low, text, _⟩ := represents byte
    simp only [List.flatMap_cons, List.length_append, ih, text, List.length_cons, List.length_nil]
    omega

theorem zero_notMem_text (bytes : List UInt8) : 0 ∉ bytes.flatMap encode := by
  intro member
  obtain ⟨byte, _, found⟩ := List.mem_flatMap.mp member
  obtain ⟨high, low, text, highNonzero, lowNonzero, _⟩ := represents byte
  rw [text] at found
  rcases List.mem_cons.mp found with same | later
  · exact highNonzero same.symm
  · exact lowNonzero (List.mem_singleton.mp later).symm

theorem strlen_text (bytes : List UInt8) : strlen (bytes.flatMap encode ++ [0]) = 2 * bytes.length := by
  have nonzero : ∀ character ∈ bytes.flatMap encode, (character != 0) = true := by
    intro character member
    refine bne_iff_ne.mpr fun same => ?_
    exact zero_notMem_text represents bytes (same ▸ member)
  rw [strlen, List.takeWhile_append_of_pos nonzero]
  simpa using length_text represents bytes

theorem decodeByte_text (decoded rest : List UInt8) (byte : UInt8) {i : UInt32}
    (place : i.toNat = 2 * decoded.length) (next : (i + 1).toNat = 2 * decoded.length + 1) :
    decodeByte charIsSigned ((decoded ++ byte :: rest).flatMap encode ++ [0]) i = byte := by
  obtain ⟨high, low, text, _, _, decodes⟩ := represents byte
  have split : (decoded ++ byte :: rest).flatMap encode ++ [0] =
      decoded.flatMap encode ++ high :: low :: (rest.flatMap encode ++ [0]) := by
    simp [text]
  have before := length_text represents decoded
  have first : (decoded.flatMap encode ++ high :: low :: (rest.flatMap encode ++ [0])).getD
      i.toNat 0 = high := by
    rw [List.getD_append_right _ _ _ _ (by omega), place, before, Nat.sub_self]
    rfl
  have second : (decoded.flatMap encode ++ high :: low :: (rest.flatMap encode ++ [0])).getD
      (i + 1).toNat 0 = low := by
    rw [List.getD_append_right _ _ _ _ (by omega), next, before, Nat.add_sub_cancel_left]
    rfl
  rw [decodeByte, digit, digit, split, first, second, decodes]

theorem decodeLoop_text (bytes : List UInt8) (short : bytes.length < 2 ^ 31) :
    ∀ (rest decoded : List UInt8) (i : UInt32), decoded ++ rest = bytes → i.toNat = 2 * decoded.length →
      decodeLoop charIsSigned (bytes.flatMap encode ++ [0]) (rest.length + 1) i
        (decoded ++ List.replicate rest.length 0) = some bytes := by
  intro rest
  induction rest with
  | nil =>
    intro decoded i whole place
    have ended : ¬ i.toNat < strlen (bytes.flatMap encode ++ [0]) := by
      rw [strlen_text represents, ← whole, place]
      simp
    rw [decodeLoop, if_neg ended]
    simpa using whole
  | cons byte rest ih =>
    intro decoded i whole place
    have total : bytes.length = decoded.length + (rest.length + 1) := by
      rw [← whole, List.length_append, List.length_cons]
    have continues : i.toNat < strlen (bytes.flatMap encode ++ [0]) := by
      rw [strlen_text represents]
      omega
    have next : (i + 1).toNat = 2 * decoded.length + 1 := by
      simp only [UInt32.toNat_add, UInt32.reduceToNat]
      omega
    have second : (i + 2).toNat = 2 * (decoded ++ [byte]).length := by
      simp only [UInt32.toNat_add, UInt32.reduceToNat, List.length_append, List.length_singleton]
      omega
    have half : (i / 2).toNat = decoded.length := by
      simp only [UInt32.toNat_div, UInt32.reduceToNat]
      omega
    have decodes := decodeByte_text represents decoded rest byte place next
    rw [whole] at decodes
    rw [List.length_cons, decodeLoop, if_pos continues, half, decodes, List.replicate_succ,
      List.set_append_right _ _ (Nat.le_refl _), Nat.sub_self, List.set_cons_zero]
    simpa using ih (decoded ++ [byte]) (i + 2) (by simpa using whole) second

theorem decodeParameters_text (bytes : List UInt8) :
    (∃ fuel, decodeParameters charIsSigned fuel (bytes.flatMap encode ++ [0]) = some bytes) ↔
      bytes.length < 2 ^ 31 := by
  have length := strlen_text represents bytes
  constructor
  · rintro ⟨fuel, decoded⟩
    by_contra long
    have endless : ∀ fuel i buffer,
        decodeLoop charIsSigned (bytes.flatMap encode ++ [0]) fuel i buffer = none := by
      intro fuel
      induction fuel with
      | zero => exact fun _ _ => rfl
      | succ fuel ih =>
        intro i buffer
        have bound := UInt32.toNat_lt i
        have continues : i.toNat < strlen (bytes.flatMap encode ++ [0]) := by omega
        rw [decodeLoop, if_pos continues]
        exact ih _ _
    rw [decodeParameters, endless] at decoded
    simp at decoded
  · intro short
    refine ⟨bytes.length + 1, ?_⟩
    have half : strlen (bytes.flatMap encode ++ [0]) / 2 % 2 ^ 32 = bytes.length := by omega
    rw [decodeParameters, if_pos (by omega), half]
    simpa using decodeLoop_text represents bytes short bytes [] 0 (by simp) (by simp)

end

theorem flatMap_encode_eq_iff (charIsSigned : Bool) (bytes : List UInt8) :
    bytes.flatMap (encodeByte charIsSigned) = bytes.flatMap (encodeParameterByte charIsSigned) ↔
      (charIsSigned = true → ∀ byte ∈ bytes, byte < 0x80) := by
  induction bytes with
  | nil => simp
  | cons byte rest ih =>
    have lengths : (encodeByte charIsSigned byte).length = (encodeParameterByte charIsSigned byte).length := by
      simp only [encodeByte, encodeParameterByte, List.length_cons, List.length_nil]
    have parts : encodeByte charIsSigned byte ++ rest.flatMap (encodeByte charIsSigned) =
        encodeParameterByte charIsSigned byte ++ rest.flatMap (encodeParameterByte charIsSigned) ↔
        encodeByte charIsSigned byte = encodeParameterByte charIsSigned byte ∧
          rest.flatMap (encodeByte charIsSigned) = rest.flatMap (encodeParameterByte charIsSigned) :=
      ⟨fun whole => List.append_inj whole lengths, fun ⟨first, others⟩ => by rw [first, others]⟩
    rw [List.flatMap_cons, List.flatMap_cons, parts, encodeByte_eq_iff, ih]
    simp only [List.forall_mem_cons]
    exact ⟨fun both signed => ⟨both.1 signed, both.2 signed⟩,
      fun all => ⟨fun signed => (all signed).1, fun signed => (all signed).2⟩⟩

/-- Both texts decode to the bytes, are the same, have even length and contain no
terminator. -/
def RoundTrips (charIsSigned : Bool) (blob : Contents) : Prop :=
  let text := getStringEncoding charIsSigned blob
  (∃ fuel, decodeParameters charIsSigned fuel (text ++ [0]) = some blob.bytes) ∧
    text.length % 2 = 0 ∧ 0 ∉ text ∧
    ∀ argument, encodeParameters charIsSigned blob.bytes = some argument →
      argument = text ++ [0] ∧ ∃ fuel, decodeParameters charIsSigned fuel argument = some blob.bytes

end Parameters

end OpenSpeedShop
