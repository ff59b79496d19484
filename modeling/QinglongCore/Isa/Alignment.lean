import Mathlib.Tactic.Common
import QinglongCore.Rtl.Defs

/-!
# Word-aligned addresses

The multiples of four, by the two low bits, and the ways of making one that the cores use.
-/

namespace QinglongCore.Isa

def Aligned (a : Word) : Prop := 4 ∣ a.toNat

instance (a : Word) : Decidable (Aligned a) := inferInstanceAs (Decidable (4 ∣ a.toNat))

variable {a b : Word}

theorem aligned_iff : Aligned a ↔ a.extractLsb' 0 2 = 0#2 := by
  have hmod : (a.extractLsb' 0 2).toNat = a.toNat % 4 := by simp [BitVec.extractLsb'_toNat]
  rw [Aligned, Nat.dvd_iff_mod_eq_zero, ← hmod, ← BitVec.toNat_inj]
  rfl

/-- An address that the cores do not take for misaligned. -/
theorem aligned_of_lowBits (h : (a.extractLsb' 0 2 != 0#2) = false) : Aligned a :=
  aligned_iff.mpr (bne_eq_false_iff_eq.mp h)

theorem aligned_zero : Aligned 0#32 := by decide

theorem Aligned.add (ha : Aligned a) (hb : Aligned b) : Aligned (a + b) := by
  unfold Aligned at *
  rw [BitVec.toNat_add]
  omega

theorem Aligned.add_four (h : Aligned a) : Aligned (a + 4#32) := h.add (by decide)

theorem aligned_append (x : BitVec 30) : Aligned (x ++ 0#2) := by
  have hnat : (x ++ 0#2).toNat = x.toNat <<< 2 := (BitVec.toNat_append x 0#2).trans (Nat.or_zero _)
  exact ⟨x.toNat, by rw [hnat, Nat.shiftLeft_eq, Nat.mul_comm]⟩

theorem aligned_alignWord (a : Word) : Aligned (alignWord a) := by
  rw [aligned_iff]
  have hmask : (0xFFFFFFFC#32 : Word).extractLsb' 0 2 = 0#2 := by decide
  rw [alignWord, BitVec.extractLsb'_and, hmask, BitVec.and_zero]

/-- Four times the number of an interrupt. -/
theorem aligned_offset (c : Word) : Aligned (0#26 ++ c.extractLsb' 0 4 ++ 0#2) := by
  have h := aligned_append (0#26 ++ c.extractLsb' 0 4)
  exact h

end QinglongCore.Isa
