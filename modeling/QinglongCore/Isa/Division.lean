import QinglongCore.Rtl.Defs

/-!
# DIV, DIVU, REM and REMU

What the M extension defines for all operands, and the same as division of absolute values.
-/

namespace QinglongCore.Isa

def quotient (signed : Bool) (x y : Word) : Word :=
  if y = 0#32 then 0xFFFFFFFF#32
  else if signed then
    if x = 0x80000000#32 ∧ y = 0xFFFFFFFF#32 then 0x80000000#32 else BitVec.ofInt 32 (x.toInt.tdiv y.toInt)
  else BitVec.ofNat 32 (x.toNat / y.toNat)

def remainder (signed : Bool) (x y : Word) : Word :=
  if y = 0#32 then x
  else if signed then
    if x = 0x80000000#32 ∧ y = 0xFFFFFFFF#32 then 0#32 else BitVec.ofInt 32 (x.toInt.tmod y.toInt)
  else BitVec.ofNat 32 (x.toNat % y.toNat)

def division (signed wantRem : Bool) (x y : Word) : Word :=
  if wantRem then remainder signed x y else quotient signed x y

/-! ## Absolute values -/

def negative (signed : Bool) (x : Word) : Bool := signed && x.msb

def absolute (signed : Bool) (x : Word) : Word := if negative signed x then -x else x

variable {x y : Word}

theorem ofInt_tdiv (x y : Word) : BitVec.ofInt 32 (x.toInt.tdiv y.toInt) = x.sdiv y := by
  apply BitVec.eq_of_toInt_eq
  rw [BitVec.toInt_ofInt, BitVec.toInt_sdiv]

theorem ofInt_tmod (x y : Word) : BitVec.ofInt 32 (x.toInt.tmod y.toInt) = x.srem y := by
  rw [← BitVec.toInt_srem, BitVec.ofInt_toInt]

theorem quotient_eq (signed : Bool) (h : y ≠ 0#32) : quotient signed x y =
    if negative signed x ^^ negative signed y then -(absolute signed x / absolute signed y)
    else absolute signed x / absolute signed y := by
  unfold quotient
  rw [if_neg h]
  cases signed
  · simp [negative, absolute, BitVec.udiv_def]
  have hs : (if x = 0x80000000#32 ∧ y = 0xFFFFFFFF#32 then 0x80000000#32
      else BitVec.ofInt 32 (x.toInt.tdiv y.toInt)) = x.sdiv y := by
    split
    case isTrue ho =>
      obtain ⟨rfl, rfl⟩ := ho
      decide
    case isFalse => exact ofInt_tdiv x y
  rw [if_pos rfl, hs, BitVec.sdiv_eq]
  simp only [negative, absolute, Bool.true_and]
  cases x.msb <;> cases y.msb <;> rfl

theorem remainder_eq (signed : Bool) (h : y ≠ 0#32) : remainder signed x y =
    if negative signed x then -(absolute signed x % absolute signed y)
    else absolute signed x % absolute signed y := by
  unfold remainder
  rw [if_neg h]
  cases signed
  · simp [negative, absolute, BitVec.umod_def]
  have hs : (if x = 0x80000000#32 ∧ y = 0xFFFFFFFF#32 then 0#32
      else BitVec.ofInt 32 (x.toInt.tmod y.toInt)) = x.srem y := by
    split
    case isTrue ho =>
      obtain ⟨rfl, rfl⟩ := ho
      decide
    case isFalse => exact ofInt_tmod x y
  rw [if_pos rfl, hs, BitVec.srem_eq]
  simp only [negative, absolute, Bool.true_and]
  cases x.msb <;> cases y.msb <;> rfl

theorem absolute_eq_zero (signed : Bool) (x : Word) : absolute signed x = 0#32 ↔ x = 0#32 := by
  unfold absolute
  split
  · exact BitVec.neg_eq_zero_iff
  · exact Iff.rfl

end QinglongCore.Isa
