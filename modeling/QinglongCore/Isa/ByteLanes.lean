import QinglongCore.Base.ByteMemory
import QinglongCore.Isa.Machine

/-!
# Byte lanes

Where the bytes of an aligned load or store lie in the words of a memory. The lanes of a store write its value into
a little-endian memory of bytes, and the value of a load is the number read from it.
-/

namespace QinglongCore.Isa

/-- The bytes that a load or a store accesses. -/
def width (f3 : BitVec 3) : Nat :=
  if f3 = F3_LB ∨ f3 = F3_LBU ∨ f3 = F3_SB then 1
  else if f3 = F3_LH ∨ f3 = F3_LHU ∨ f3 = F3_SH then 2
  else 4

def Loads (f3 : BitVec 3) : Prop := f3 = F3_LB ∨ f3 = F3_LH ∨ f3 = F3_LW ∨ f3 = F3_LBU ∨ f3 = F3_LHU

def Stores (f3 : BitVec 3) : Prop := f3 = F3_SB ∨ f3 = F3_SH ∨ f3 = F3_SW

instance : DecidablePred Loads := fun f3 =>
  inferInstanceAs (Decidable (f3 = F3_LB ∨ f3 = F3_LH ∨ f3 = F3_LW ∨ f3 = F3_LBU ∨ f3 = F3_LHU))

instance : DecidablePred Stores := fun f3 => inferInstanceAs (Decidable (f3 = F3_SB ∨ f3 = F3_SH ∨ f3 = F3_SW))

/-- What a load brings from a memory of bytes, extended to a word by its sign or by zeros. -/
def loaded (m : Nat → BitVec 8) (f3 : BitVec 3) (a : Nat) : Word :=
  if f3 = F3_LB then (ByteMemory.read m a 1).signExtend 32
  else if f3 = F3_LBU then (ByteMemory.read m a 1).setWidth 32
  else if f3 = F3_LH then (ByteMemory.read m a 2).signExtend 32
  else if f3 = F3_LHU then (ByteMemory.read m a 2).setWidth 32
  else ByteMemory.read m a 4

def byteAt (x : Word) (k : Nat) : BitVec 8 := x.extractLsb' (8 * k) 8

/-- The place of an address in its word. -/
def lane (a : Word) : Nat := a.toNat % 4

variable {f3 : BitVec 3} {a x old : Word} {m : Nat → BitVec 8} {base k : Nat}

/-! ## The two low bits of an address -/

theorem lane_lt (a : Word) : lane a < 4 := Nat.mod_lt _ (by decide)

theorem lowBits_toNat (a : Word) : (a.extractLsb' 0 2).toNat = lane a := by
  simp [BitVec.extractLsb'_toNat, lane]

theorem lowBits_lane (a : Word) : a.extractLsb' 0 2 = BitVec.ofNat 2 (lane a) := by
  rw [← lowBits_toNat, BitVec.ofNat_toNat, BitVec.setWidth_eq]

theorem bit1_lane (a : Word) : a.getLsbD 1 = decide (2 ≤ lane a) := by
  rw [← BitVec.testBit_toNat, Nat.testBit_eq_decide_div_mod_eq, decide_eq_decide, lane]
  omega

theorem width_dvd (f3 : BitVec 3) : width f3 ∣ 4 := by
  unfold width
  split_ifs <;> decide

theorem dvd_lane (h : width f3 ∣ a.toNat) : width f3 ∣ lane a := (Nat.dvd_mod_iff (width_dvd f3)).mpr h

/-- An aligned access stays in its word. -/
theorem lane_add_width (h : width f3 ∣ a.toNat) : lane a + width f3 ≤ 4 := by
  have hl := lane_lt a
  have hle := Nat.le_of_dvd (Nat.sub_pos_of_lt hl) (Nat.dvd_sub (width_dvd f3) (dvd_lane h))
  omega

/-! ## Stores -/

theorem laneMask_eq (hf : Stores f3) (ha : width f3 ∣ a.toNat) (hk : k < 4) :
    (laneMask f3 a).getLsbD k = decide (lane a ≤ k ∧ k < lane a + width f3) := by
  have hd := dvd_lane ha
  have hl := lane_lt a
  unfold laneMask
  rw [lowBits_lane, bit1_lane]
  generalize lane a = r at hl hd
  revert r k
  rcases hf with rfl | rfl | rfl <;> decide

/-- The low part of what is put together. -/
theorem byte_low {u l : Nat} (y : BitVec u) (s : Nat) (h : s + 8 ≤ l) :
    (y ++ x.extractLsb' 0 l).extractLsb' s 8 = x.extractLsb' s 8 :=
  (BitVec.extractLsb'_append_eq_of_add_le h).trans (BitVec.extractLsb'_extractLsb'_of_le h)

/-- The high part of what is put together. -/
theorem byte_high {u v : Nat} (y : BitVec u) (z : BitVec v) (s : Nat) :
    (y ++ z).extractLsb' (v + s) 8 = y.extractLsb' s 8 := by
  rw [BitVec.extractLsb'_append_eq_of_le (Nat.le_add_right v s), Nat.add_sub_cancel_left]

theorem byteAt_laneData (hf : Stores f3) (ha : width f3 ∣ a.toNat) (hk : k < 4)
    (hin : lane a ≤ k ∧ k < lane a + width f3) : byteAt (laneData f3 a x) k = byteAt x (k - lane a) := by
  have hd := dvd_lane ha
  unfold laneData
  rw [lowBits_lane, bit1_lane]
  generalize lane a = r at hd hin
  rcases hf with rfl | rfl | rfl
  · have hw : width F3_SB = 1 := rfl
    rw [hw] at hin
    have hr : k = r := by omega
    subst hr
    obtain rfl | rfl | rfl | rfl : k = 0 ∨ k = 1 ∨ k = 2 ∨ k = 3 := by omega
    · exact byte_low 0#24 0 (by decide)
    · exact (byte_high (0#16 ++ x.extractLsb' 0 8) 0#8 0).trans (byte_low 0#16 0 (by decide))
    · exact (byte_high (0#8 ++ x.extractLsb' 0 8) 0#16 0).trans (byte_low 0#8 0 (by decide))
    · exact (byte_high (x.extractLsb' 0 8) 0#24 0).trans (BitVec.extractLsb'_extractLsb'_of_le (by decide))
  · have hw : width F3_SH = 2 := rfl
    rw [hw] at hin hd
    obtain ⟨rfl, hk⟩ | ⟨rfl, hk⟩ : (r = 0 ∧ (k = 0 ∨ k = 1)) ∨ (r = 2 ∧ (k = 2 ∨ k = 3)) := by omega
    · rcases hk with rfl | rfl
      · exact byte_low 0#16 0 (by decide)
      · exact byte_low 0#16 8 (by decide)
    · rcases hk with rfl | rfl
      · exact (byte_high (x.extractLsb' 0 16) 0#16 0).trans (BitVec.extractLsb'_extractLsb'_of_le (by decide))
      · exact (byte_high (x.extractLsb' 0 16) 0#16 8).trans (BitVec.extractLsb'_extractLsb'_of_le (by decide))
  · have hw : width F3_SW = 4 := rfl
    rw [hw] at hd
    have hr : r = 0 := by omega
    subst hr
    rfl

/-- A store that is merged into a word writes its bytes there. -/
theorem byteAt_mergeBytes (hk : k < 4) (hf : Stores f3) (ha : width f3 ∣ a.toNat) :
    byteAt (mergeBytes old (laneData f3 a x) (laneMask f3 a)) k =
      ByteMemory.write (byteAt old) (lane a) (width f3) x k := by
  have hmerge := byteOf_mergeBytes old (laneData f3 a x) (laneMask f3 a) ⟨k, hk⟩
  rw [laneMask_eq hf ha hk] at hmerge
  by_cases hin : lane a ≤ k ∧ k < lane a + width f3
  · rw [if_pos (by simpa using hin)] at hmerge
    rw [ByteMemory.write_in hin]
    exact hmerge.trans (byteAt_laneData hf ha hk hin)
  · rw [if_neg (by simpa using hin)] at hmerge
    rw [ByteMemory.write_out (by omega)]
    exact hmerge

/-! ## Loads -/

/-- Bytes next to each other in a word are a number of the memory that the word is part of. -/
theorem extract_eq_read (r n : Nat) (hr : r + n ≤ 4) (hx : ∀ k, k < 4 → byteAt x k = m (base + k)) :
    x.extractLsb' (8 * r) (8 * n) = ByteMemory.read m (base + r) n := by
  refine ByteMemory.eq_read fun k hk => ?_
  rw [Nat.add_assoc, ← hx (r + k) (by omega)]
  ext i hi
  have hlt : 8 * k + i < 8 * n := by omega
  simp [byteAt, hlt, Nat.mul_add, Nat.add_assoc]

/-- What a load takes out of its word is read from its address. -/
theorem loadValue_eq_loaded (ha : width f3 ∣ a.toNat) (hx : ∀ k, k < 4 → byteAt x k = m (base + k)) :
    loadValue f3 a x = loaded m f3 (base + lane a) := by
  have hd := dvd_lane ha
  have hl := lane_lt a
  have hb : x.extractLsb' (8 * (a.extractLsb' 0 2).toNat) 8 = ByteMemory.read m (base + lane a) 1 := by
    rw [lowBits_toNat]
    exact extract_eq_read (lane a) 1 (by omega) hx
  have hh (h2 : 2 ∣ lane a) : (if a.getLsbD 1 then x.extractLsb' 16 16 else x.extractLsb' 0 16) =
      ByteMemory.read m (base + lane a) 2 := by
    rw [bit1_lane]
    obtain h | h : lane a = 0 ∨ lane a = 2 := by omega
    · rw [h]
      exact extract_eq_read 0 2 (by decide) hx
    · rw [h]
      exact extract_eq_read 2 2 (by decide) hx
  have hw (h4 : 4 ∣ lane a) : x = ByteMemory.read m (base + lane a) 4 := by
    have h : lane a = 0 := by omega
    rw [h]
    exact (BitVec.extractLsb'_eq_self).symm.trans (extract_eq_read 0 4 (by decide) hx)
  by_cases h₁ : f3 = F3_LB
  · subst h₁
    exact congrArg (BitVec.signExtend 32) hb
  by_cases h₂ : f3 = F3_LBU
  · subst h₂
    exact congrArg (BitVec.setWidth 32) hb
  by_cases h₃ : f3 = F3_LH
  · subst h₃
    exact congrArg (BitVec.signExtend 32) (hh hd)
  by_cases h₄ : f3 = F3_LHU
  · subst h₄
    exact congrArg (BitVec.setWidth 32) (hh hd)
  have h₅ : f3 ≠ F3_SB ∧ f3 ≠ F3_SH := ⟨h₁, h₃⟩
  have h₆ : width f3 = 4 := by simp [width, h₁, h₂, h₃, h₄, h₅]
  rw [h₆] at hd
  simp only [loadValue, loaded, h₁, h₂, h₃, h₄, if_false]
  exact hw hd

theorem loaded_add (m : Nat → BitVec 8) (f3 : BitVec 3) (c r : Nat) :
    loaded m f3 (c + r) = loaded (fun l => m (c + l)) f3 r := by
  unfold loaded
  rw [ByteMemory.read_add, ByteMemory.read_add, ByteMemory.read_add]

end QinglongCore.Isa
