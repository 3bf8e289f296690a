import Mathlib.Order.Defs.LinearOrder
import Mathlib.Order.Defs.Unbundled

/-!
# Machine words as linear orders

The comparisons of `UInt64` and `Int64` are those of their values, so both words carry the
linear order that the search, tiling and leapfrog modules are stated over.
-/

instance UInt64.instLinearOrder : LinearOrder UInt64 where
  le_refl := UInt64.le_refl
  le_trans _ _ _ := UInt64.le_trans
  le_antisymm _ _ := UInt64.le_antisymm
  le_total := UInt64.le_total
  lt_iff_le_not_ge a b := by
    simp only [UInt64.lt_iff_toNat_lt, UInt64.le_iff_toNat_le]
    omega
  toDecidableLE := inferInstance

instance UInt64.instIsTransLE : IsTrans UInt64 (· ≤ ·) := ⟨fun _ _ _ => UInt64.le_trans⟩

instance UInt64.instAntisymmLE : @Std.Antisymm UInt64 (· ≤ ·) := ⟨fun _ _ => UInt64.le_antisymm⟩

instance Int64.instLinearOrder : LinearOrder Int64 where
  le_refl := Int64.le_refl
  le_trans _ _ _ := Int64.le_trans
  le_antisymm _ _ := Int64.le_antisymm
  le_total := Int64.le_total
  lt_iff_le_not_ge a b := by
    simp only [Int64.lt_iff_toInt_lt, Int64.le_iff_toInt_le]
    omega
  toDecidableLE := inferInstance

theorem UInt64.le_allOnes (a : UInt64) : a ≤ 0xFFFFFFFFFFFFFFFF := by
  rw [UInt64.le_iff_toNat_le]
  have bound := a.toNat_lt
  change a.toNat ≤ 18446744073709551615
  omega
