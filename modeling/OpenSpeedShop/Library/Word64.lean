import Mathlib.Order.Defs.LinearOrder

/-!
The order of unsigned 64-bit words as a linear order, and the passage from
comparisons of words to comparisons of the numbers they denote.
-/

instance UInt64.instLinearOrderWord : LinearOrder UInt64 where
  le_refl := UInt64.le_refl
  le_trans _ _ _ := UInt64.le_trans
  le_antisymm _ _ := UInt64.le_antisymm
  le_total := UInt64.le_total
  lt_iff_le_not_ge first second := by
    rw [UInt64.lt_iff_toNat_lt, UInt64.le_iff_toNat_le, UInt64.le_iff_toNat_le]
    omega
  toDecidableLE := inferInstance
  toDecidableEq := inferInstance
  toDecidableLT := inferInstance
