import Mathlib.Algebra.Group.Int.Defs

/-!
Offset binary: unsigned 64-bit values kept as signed ones, in the same order.
The offset stands first in the sum, where no reduction can unfold it.
-/

namespace OffsetBinary

def encode (value : UInt64) : Int64 := value.toInt64 - Int64.minValue

def decode (value : Int64) : UInt64 := (Int64.minValue + value).toUInt64

theorem toInt_encode (value : UInt64) : (encode value).toInt = (value.toNat : Int) - 2 ^ 63 := by
  have bound := value.toNat_lt
  have offset : Int64.minValue.toInt = -2 ^ 63 := rfl
  have signed : value.toInt64.toInt = value.toBitVec.toInt := rfl
  have same : value.toBitVec.toNat = value.toNat := rfl
  rw [encode, Int64.toInt_sub, signed, BitVec.toInt_eq_toNat_cond, same, offset]
  simp only [Int.bmod_def]
  split <;> omega

@[simp] theorem decode_encode (value : UInt64) : decode (encode value) = value := by
  apply UInt64.toBitVec_inj.mp
  change Int64.minValue.toBitVec + (value.toBitVec - Int64.minValue.toBitVec) = value.toBitVec
  rw [BitVec.add_comm, BitVec.sub_add_cancel]

@[simp] theorem encode_decode (value : Int64) : encode (decode value) = value := by
  have same : (decode value).toInt64 = Int64.minValue + value := rfl
  rw [encode, same, Int64.add_comm, Int64.add_sub_cancel]

theorem encode_le_encode {first second : UInt64} : encode first ≤ encode second ↔ first ≤ second := by
  rw [Int64.le_iff_toInt_le, toInt_encode, toInt_encode, UInt64.le_iff_toNat_le]
  omega

theorem encode_lt_encode {first second : UInt64} : encode first < encode second ↔ first < second := by
  rw [Int64.lt_iff_toInt_lt, toInt_encode, toInt_encode, UInt64.lt_iff_toNat_lt]
  omega

end OffsetBinary
