import Mathlib.Algebra.GroupWithZero.Nat

namespace ApTelemetry.Lib

variable {w : Nat} {a b : BitVec w}

/-- Before, in the arithmetic of serial numbers: less than half the space behind. -/
def SerialLt (a b : BitVec w) : Prop := a ≠ b ∧ 2 * (b - a).toNat < 2 ^ w

instance (a b : BitVec w) : Decidable (SerialLt a b) := inferInstanceAs (Decidable (_ ∧ _))

theorem sub_to_nat_of_le (h : a ≤ b) : (b - a).toNat = b.toNat - a.toNat :=
  BitVec.toNat_sub_of_le h

theorem sub_to_nat_of_lt (h : b < a) : (b - a).toNat + (a.toNat - b.toNat) = 2 ^ w := by
  have hlt := BitVec.lt_def.mp h
  have hbound := a.isLt
  rw [BitVec.toNat_sub, Nat.mod_eq_of_lt (by omega)]
  omega

/-- Across the wrap it is the numbers more than half the space above. -/
theorem serial_lt_iff : SerialLt a b ↔
    a < b ∧ 2 * (b.toNat - a.toNat) < 2 ^ w ∨ b < a ∧ 2 ^ w < 2 * (a.toNat - b.toNat) := by
  by_cases hle : a ≤ b
  · rw [SerialLt, sub_to_nat_of_le hle]
    constructor
    · rintro ⟨hne, hnear⟩
      exact .inl ⟨BitVec.lt_of_le_ne hle hne, hnear⟩
    · rintro (⟨hlt, hnear⟩ | ⟨hlt, -⟩)
      · exact ⟨BitVec.ne_of_lt hlt, hnear⟩
      · exact absurd hle (BitVec.not_le.mpr hlt)
  · have hlt : b < a := BitVec.not_le.mp hle
    have hsum := sub_to_nat_of_lt hlt
    constructor
    · rintro ⟨-, hnear⟩
      exact .inr ⟨hlt, by omega⟩
    · rintro (⟨h, -⟩ | ⟨-, hfar⟩)
      · exact absurd (BitVec.le_of_lt h) hle
      · exact ⟨(BitVec.ne_of_lt hlt).symm, by omega⟩

/-- The plain comparison is the right one within half the space. -/
theorem lt_iff_serial_lt : (a < b ↔ SerialLt a b) ↔
    2 * (b.toNat - a.toNat) < 2 ^ w ∧ 2 * (a.toNat - b.toNat) ≤ 2 ^ w := by
  rw [serial_lt_iff, BitVec.lt_def, BitVec.lt_def]
  omega

end ApTelemetry.Lib
