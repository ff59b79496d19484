import Mathlib.Tactic.Common
import QinglongCore.Pipeline.Lemmas.Spacing

/-!
# The AMO model of the trace checker (`trace_diff_stores.py`)

The script rebuilds the stores of a run from what the instructions retire with. Its integers have no width; they are
read from the hexadecimal numbers of the trace and are not negative, except for what `sext` makes of them.
-/

namespace QinglongCore.TraceDiffStores

/-! ## The script -/

def AMO_SWAP : Nat := 0x01
def AMO_ADD : Nat := 0x00
def AMO_XOR : Nat := 0x04
def AMO_OR : Nat := 0x0c
def AMO_AND : Nat := 0x08
def AMO_MIN : Nat := 0x10
def AMO_MAX : Nat := 0x14
def AMO_MINU : Nat := 0x18
def AMO_MAXU : Nat := 0x1c

def sext (v bits : Nat) : Int :=
  let m := 1 <<< (bits - 1)
  ((v &&& (m * 2 - 1) : Nat) : Int) - ((v &&& m) <<< 1 : Nat)

def amoCompute (funct5 old rs2 : Nat) : Nat :=
  let m := 0xFFFFFFFF
  let oldS := sext old 32
  let rs2S := sext rs2 32
  if funct5 = AMO_SWAP then rs2 &&& m
  else if funct5 = AMO_ADD then (old + rs2) &&& m
  else if funct5 = AMO_XOR then (old ^^^ rs2) &&& m
  else if funct5 = AMO_AND then (old &&& rs2) &&& m
  else if funct5 = AMO_OR then (old ||| rs2) &&& m
  else if funct5 = AMO_MIN then (if oldS < rs2S then old else rs2) &&& m
  else if funct5 = AMO_MAX then (if oldS < rs2S then rs2 else old) &&& m
  else if funct5 = AMO_MINU then (if old < rs2 then old else rs2) &&& m
  else if funct5 = AMO_MAXU then (if old < rs2 then rs2 else old) &&& m
  else rs2 &&& m

/-- The operation of the word that retired. -/
def funct5 (insn : Nat) : Nat := (insn >>> 27) &&& 0x1f

/-! ## Numbers of words -/

variable {a b : Word}

theorem and_mask (n : Nat) : n &&& 0xFFFFFFFF = n % 2 ^ 32 := Nat.and_two_pow_sub_one_eq_mod n 32

theorem and_mask_word (a : Word) : a.toNat &&& 0xFFFFFFFF = a.toNat := by rw [and_mask, Nat.mod_eq_of_lt a.isLt]

theorem and_signBit (a : Word) : a.toNat &&& 1 <<< 31 = if a.msb then 2 ^ 31 else 0 := by
  have hbit := congrArg BitVec.toNat (BitVec.and_twoPow a 31)
  rw [BitVec.toNat_and] at hbit
  rw [BitVec.msb_eq_getLsbD_last]
  apply Eq.trans hbit
  cases a.getLsbD (32 - 1) <;> rfl

theorem sext_word (a : Word) : sext a.toNat 32 = a.toInt := by
  have hlow : a.toNat &&& (1 <<< (32 - 1) * 2 - 1) = a.toNat := and_mask_word a
  have hsign : a.toNat &&& 1 <<< (32 - 1) = if a.msb then 2 ^ 31 else 0 := and_signBit a
  simp only [sext, hlow, hsign]
  rw [BitVec.toInt_eq_msb_cond]
  cases a.msb
  · exact Int.sub_zero _
  · rfl

theorem funct5_word (w : Word) : funct5 w.toNat = (amoFunct5 w).toNat := by
  rw [funct5, amoFunct5, BitVec.extractLsb'_toNat]
  exact Nat.and_two_pow_sub_one_eq_mod (w.toNat >>> 27) 5

theorem funct5_eq (f c : BitVec 5) : f.toNat = c.toNat ↔ f = c := BitVec.toNat_inj

theorem pick_word {p : Prop} [Decidable p] (a b : Word) :
    (if p then a.toNat else b.toNat) &&& 0xFFFFFFFF = (if p then a else b).toNat := by
  split
  · exact and_mask_word a
  · exact and_mask_word b

/-! ## The script against the core -/

open CorePipeline (State amoStoreData memAmoStoreBeat dmemReqWdata)

/-- The script has the encodings of AND and OR exchanged. -/
def exchanged (f : BitVec 5) : BitVec 5 :=
  if f = QinglongCore.AMO_AND then QinglongCore.AMO_OR
  else if f = QinglongCore.AMO_OR then QinglongCore.AMO_AND
  else f

/-- The script computes what the core does for the exchanged encoding. -/
theorem amoCompute_eq (f : BitVec 5) (old rs2 : Word) :
    amoCompute f.toNat old.toNat rs2.toNat = (amoStoreData (exchanged f) old rs2).toNat := by
  have hadd : (old.toNat + rs2.toNat) &&& 0xFFFFFFFF = (old + rs2).toNat := by rw [and_mask, BitVec.toNat_add]
  have hxor : (old.toNat ^^^ rs2.toNat) &&& 0xFFFFFFFF = (old ^^^ rs2).toNat := and_mask_word (old ^^^ rs2)
  have hand : (old.toNat &&& rs2.toNat) &&& 0xFFFFFFFF = (old &&& rs2).toNat := and_mask_word (old &&& rs2)
  have hor : (old.toNat ||| rs2.toNat) &&& 0xFFFFFFFF = (old ||| rs2).toNat := and_mask_word (old ||| rs2)
  have hslt : sext old.toNat 32 < sext rs2.toNat 32 ↔ old.slt rs2 = true := by
    rw [sext_word, sext_word, BitVec.slt_iff_toInt_lt]
  have hult : old.toNat < rs2.toNat ↔ old.ult rs2 = true := by rw [BitVec.ult_iff_lt, BitVec.lt_def]
  have h₁ : f.toNat = AMO_SWAP ↔ f = QinglongCore.AMO_SWAP := funct5_eq f 1#5
  have h₂ : f.toNat = AMO_ADD ↔ f = QinglongCore.AMO_ADD := funct5_eq f 0#5
  have h₃ : f.toNat = AMO_XOR ↔ f = QinglongCore.AMO_XOR := funct5_eq f 4#5
  have h₄ : f.toNat = AMO_AND ↔ f = QinglongCore.AMO_OR := funct5_eq f 8#5
  have h₅ : f.toNat = AMO_OR ↔ f = QinglongCore.AMO_AND := funct5_eq f 12#5
  have h₆ : f.toNat = AMO_MIN ↔ f = QinglongCore.AMO_MIN := funct5_eq f 16#5
  have h₇ : f.toNat = AMO_MAX ↔ f = QinglongCore.AMO_MAX := funct5_eq f 20#5
  have h₈ : f.toNat = AMO_MINU ↔ f = QinglongCore.AMO_MINU := funct5_eq f 24#5
  have h₉ : f.toNat = AMO_MAXU ↔ f = QinglongCore.AMO_MAXU := funct5_eq f 28#5
  simp only [amoCompute, h₁, h₂, h₃, h₄, h₅, h₆, h₇, h₈, h₉, hadd, hxor, hand, hor, pick_word, and_mask_word, hslt,
    hult]
  by_cases hA : f = QinglongCore.AMO_AND
  · subst hA
    rfl
  by_cases hO : f = QinglongCore.AMO_OR
  · subst hO
    rfl
  simp only [exchanged, hA, hO, if_false, amoStoreData, apply_ite BitVec.toNat]

theorem and_eq_or_iff (a b : Word) : a &&& b = a ||| b ↔ a = b := by
  constructor
  · intro h
    ext n hn
    have hbit := congrArg (fun v => v.getLsbD n) h
    simp only [BitVec.getLsbD_eq_getElem hn, BitVec.getElem_and, BitVec.getElem_or] at hbit
    cases ha : a[n] <;> cases hb : b[n] <;> simp [ha, hb] at hbit ⊢
  · rintro rfl
    simp

/-- The exchange shows on different operands of an AND or an OR. -/
theorem amoStoreData_exchanged (f : BitVec 5) (old rs2 : Word) :
    amoStoreData (exchanged f) old rs2 = amoStoreData f old rs2 ↔
      (f ≠ QinglongCore.AMO_AND ∧ f ≠ QinglongCore.AMO_OR) ∨ old = rs2 := by
  by_cases hA : f = QinglongCore.AMO_AND
  · subst hA
    have hand : amoStoreData QinglongCore.AMO_AND old rs2 = old &&& rs2 := rfl
    have hor : amoStoreData (exchanged QinglongCore.AMO_AND) old rs2 = old ||| rs2 := rfl
    rw [hand, hor, eq_comm, and_eq_or_iff]
    simp
  by_cases hO : f = QinglongCore.AMO_OR
  · subst hO
    have hor : amoStoreData QinglongCore.AMO_OR old rs2 = old ||| rs2 := rfl
    have hand : amoStoreData (exchanged QinglongCore.AMO_OR) old rs2 = old &&& rs2 := rfl
    rw [hand, hor, and_eq_or_iff]
    simp
  · simp [exchanged, hA, hO]

theorem amoCompute_iff (f : BitVec 5) (old rs2 : Word) :
    amoCompute f.toNat old.toNat rs2.toNat = (amoStoreData f old rs2).toNat ↔
      (f ≠ QinglongCore.AMO_AND ∧ f ≠ QinglongCore.AMO_OR) ∨ old = rs2 := by
  rw [amoCompute_eq, BitVec.toNat_inj]
  exact amoStoreData_exchanged f old rs2

theorem dmemReqWdata_storeBeat {s : State} (h : memAmoStoreBeat s = true) :
    dmemReqWdata s = amoStoreData s.mem.amoFunct5 s.bus.amoOld s.mem.amoRs2 := by
  rw [dmemReqWdata, if_pos h]

/-- The script computes the word that the core drives on the store beat of an AMO exactly when the operation is
neither AND nor OR or the operands are equal. -/
theorem amoCompute_storeBeat_iff (s : State) (h : memAmoStoreBeat s = true) :
    amoCompute s.mem.amoFunct5.toNat s.bus.amoOld.toNat s.mem.amoRs2.toNat = (dmemReqWdata s).toNat ↔
      (s.mem.amoFunct5 ≠ QinglongCore.AMO_AND ∧ s.mem.amoFunct5 ≠ QinglongCore.AMO_OR) ∨
        s.bus.amoOld = s.mem.amoRs2 := by
  rw [dmemReqWdata_storeBeat h]
  exact amoCompute_iff _ _ _

/-! ## Runs -/

section

variable (pc : Word) (regs : RegFile) (inp : Nat → CorePipeline.In) (t : Nat)

/-- The same for what the script reads off the instruction word. -/
theorem amoCompute_insn_iff (hv : (CorePipeline.run pc regs inp t).mem.valid = true)
    (h : memAmoStoreBeat (CorePipeline.run pc regs inp t) = true) :
    let s := CorePipeline.run pc regs inp t
    amoCompute (funct5 s.mem.instr.toNat) s.bus.amoOld.toNat s.mem.amoRs2.toNat = (dmemReqWdata s).toNat ↔
      (amoFunct5 s.mem.instr ≠ QinglongCore.AMO_AND ∧ amoFunct5 s.mem.instr ≠ QinglongCore.AMO_OR) ∨
        s.bus.amoOld = s.mem.amoRs2 := by
  have hsp : CorePipeline.Spaced (CorePipeline.run pc regs inp t) := CorePipeline.spaced_run t
  obtain ⟨ex, rs1, rs2, dv, p, hit, ph, ls, ⟨id, m, d₁, d₂, hex, -⟩, -, hmem, -⟩ := hsp.mem_origin hv
  have hf : (CorePipeline.run pc regs inp t).mem.amoFunct5 = amoFunct5 (CorePipeline.run pc regs inp t).mem.instr := by
    rw [hmem, hex]
    rfl
  intro s
  rw [funct5_word, ← hf, dmemReqWdata_storeBeat h]
  exact amoCompute_iff _ _ _

end

/-- A run that fetches the word `w` at the reset vector with 2 in `x2`, over a bus that answers a read with 1. -/
def amoRun (w : Word) : Nat → State :=
  CorePipeline.run RESET_PC (fun r => if r = 2 then 2 else 0) fun t =>
    { CorePipeline.In.fetching (if t = 1 then some w else none) with
      dmemReqReady := true
      dmemRspValid := t == 5
      dmemRspRdata := 1 }

/-- `amoadd.w x3, x2, (x1)`. -/
theorem amoCompute_storeBeat_add :
    amoCompute (amoRun 0x0020A1AF#32 6).mem.amoFunct5.toNat (amoRun 0x0020A1AF#32 6).bus.amoOld.toNat
      (amoRun 0x0020A1AF#32 6).mem.amoRs2.toNat = (dmemReqWdata (amoRun 0x0020A1AF#32 6)).toNat :=
  (amoCompute_storeBeat_iff _ (by decide +kernel)).mpr (.inl (by decide +kernel))

/-- For `amoand.w x3, x2, (x1)` the core writes 0 and the script computes 3. -/
theorem not_amoCompute_storeBeat : ¬ ∀ pc regs inp t, memAmoStoreBeat (CorePipeline.run pc regs inp t) = true →
    amoCompute (CorePipeline.run pc regs inp t).mem.amoFunct5.toNat (CorePipeline.run pc regs inp t).bus.amoOld.toNat
      (CorePipeline.run pc regs inp t).mem.amoRs2.toNat =
      (dmemReqWdata (CorePipeline.run pc regs inp t)).toNat := by
  intro h
  have hand := h RESET_PC _ _ 6 (show memAmoStoreBeat (amoRun 0x6020A1AF#32 6) = true by decide +kernel)
  have hne : amoCompute (amoRun 0x6020A1AF#32 6).mem.amoFunct5.toNat (amoRun 0x6020A1AF#32 6).bus.amoOld.toNat
      (amoRun 0x6020A1AF#32 6).mem.amoRs2.toNat ≠ (dmemReqWdata (amoRun 0x6020A1AF#32 6)).toNat := by decide +kernel
  exact hne hand

end QinglongCore.TraceDiffStores
