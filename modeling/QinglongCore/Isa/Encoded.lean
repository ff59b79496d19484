import QinglongCore.Divider.Correctness
import QinglongCore.Isa.Acceptance
import QinglongCore.Rv32.Semantics

/-!
# The decoder on encoded instructions

What the wires of the decoder, the immediate generator, the ALU, the multiplier and the divider make of a word that
encodes an instruction of RV32IMA.
-/

namespace QinglongCore.Isa

open Rv32 (Fields Instr encode)

/-! ## Fields -/

section
variable (f : Fields)

theorem fields_eq : Rv32.fields f.word = f := Rv32.fields_word f

theorem opcode_word : opcode f.word = f.op := congrArg Fields.op (fields_eq f)
theorem funct3_word : funct3 f.word = f.f3 := congrArg Fields.f3 (fields_eq f)
theorem funct7_word : funct7 f.word = f.f7 := congrArg Fields.f7 (fields_eq f)
theorem rdField_word : rdField f.word = f.rd := congrArg Fields.rd (fields_eq f)
theorem rs1Field_word : rs1Field f.word = f.rs1 := congrArg Fields.rs1 (fields_eq f)
theorem rs2Field_word : rs2Field f.word = f.rs2 := congrArg Fields.rs2 (fields_eq f)

theorem amoFunct5_word : amoFunct5 f.word = f.f7.extractLsb' 2 5 := by
  unfold amoFunct5 Fields.word
  simp (disch := decide) only [Rv32.slice_high, Nat.reduceSub]

/-! ## Immediates -/

theorem immI_word : immI f.word = f.immI.signExtend 32 := by
  have h : f.word.extractLsb' 20 12 = f.immI := by
    unfold Fields.word
    simp (disch := decide) only [Rv32.slice_high, Nat.reduceSub]
    exact BitVec.extractLsb'_eq_self
  rw [immI, h]

theorem immS_word : immS f.word = f.immS.signExtend 32 := by
  have h7 : f.word.extractLsb' 25 7 = f.f7 := funct7_word f
  have hrd : f.word.extractLsb' 7 5 = f.rd := rdField_word f
  rw [immS, h7, hrd, Fields.immS]

theorem immB_word : immB f.word = (f.immB ++ 0#1).signExtend 32 := by
  unfold immB Fields.word Fields.immB
  simp (disch := decide) only [Rv32.slice_high, Rv32.slice_low, Nat.reduceSub]

theorem immU_word : immU f.word = f.immU ++ 0#12 := by
  have h : f.word.extractLsb' 12 20 = f.immU := by
    unfold Fields.word
    simp (disch := decide) only [Rv32.slice_high, Nat.reduceSub]
    exact BitVec.extractLsb'_eq_self
  rw [immU, h]

/-- Where the parts of a jump offset that cross a field are put together does not matter. -/
theorem offset_assoc (a b c : BitVec 1) (x : BitVec 5) (y : BitVec 3) (u : BitVec 6) (v : BitVec 4) :
    a ++ (x ++ y) ++ b ++ (u ++ v) ++ c = a ++ x ++ y ++ b ++ u ++ v ++ c := by
  have h₁ : a ++ x ++ y = a ++ (x ++ y) := BitVec.append_assoc
  have h₂ : a ++ x ++ y ++ b ++ u ++ v = a ++ x ++ y ++ b ++ (u ++ v) := BitVec.append_assoc
  rw [h₂, h₁]

theorem immJ_word : immJ f.word = (f.immJ ++ 0#1).signExtend 32 := by
  rw [immJ, ← Rv32.slice_append f.word 12 15 3 rfl 5, ← Rv32.slice_append f.word 21 25 4 rfl 6]
  have h := offset_assoc (f.word.extractLsb' 31 1) (f.word.extractLsb' 20 1) 0#1 (f.word.extractLsb' 15 5)
    (f.word.extractLsb' 12 3) (f.word.extractLsb' 25 6) (f.word.extractLsb' 21 4)
  refine (congrArg (BitVec.signExtend 32) h).trans ?_
  unfold Fields.word Fields.immJ
  simp (disch := decide) only [Rv32.slice_high, Rv32.slice_low, Nat.reduceSub, BitVec.extractLsb'_eq_self]

end

/-! ## Names -/

def branchName : Rv32.BranchOp → Insn
  | .beq => .beq
  | .bne => .bne
  | .blt => .blt
  | .bge => .bge
  | .bltu => .bltu
  | .bgeu => .bgeu

def loadName : Rv32.LoadOp → Insn
  | .lb => .lb
  | .lh => .lh
  | .lw => .lw
  | .lbu => .lbu
  | .lhu => .lhu

def storeName : Rv32.StoreOp → Insn
  | .sb => .sb
  | .sh => .sh
  | .sw => .sw

def immName : Rv32.ImmOp → Insn
  | .addi => .addi
  | .slti => .slti
  | .sltiu => .sltiu
  | .xori => .xori
  | .ori => .ori
  | .andi => .andi

def shiftName : Rv32.ShiftOp → Insn
  | .slli => .slli
  | .srli => .srli
  | .srai => .srai

def regName : Rv32.RegOp → Insn
  | .add => .add
  | .sub => .sub
  | .sll => .sll
  | .slt => .slt
  | .sltu => .sltu
  | .xor => .xor
  | .srl => .srl
  | .sra => .sra
  | .or => .or
  | .and => .and
  | .mul => .mul
  | .mulh => .mulh
  | .mulhsu => .mulhsu
  | .mulhu => .mulhu
  | .div => .div
  | .divu => .divu
  | .rem => .rem
  | .remu => .remu

def amoName : Rv32.AmoOp → Insn
  | .swap => .amoswapW
  | .add => .amoaddW
  | .xor => .amoxorW
  | .or => .amoorW
  | .and => .amoandW
  | .min => .amominW
  | .max => .amomaxW
  | .minu => .amominuW
  | .maxu => .amomaxuW

def nameOf : Instr → Insn
  | .lui _ _ => .lui
  | .auipc _ _ => .auipc
  | .jal _ _ => .jal
  | .jalr _ _ _ => .jalr
  | .branch o _ _ _ => branchName o
  | .load o _ _ _ => loadName o
  | .store o _ _ _ => storeName o
  | .imm o _ _ _ => immName o
  | .shift o _ _ _ => shiftName o
  | .reg o _ _ _ => regName o
  | .lr _ _ _ => .lrW
  | .sc _ _ _ _ => .scW
  | .amo o _ _ _ _ => amoName o
  | .fence _ _ _ => .fence

theorem funct5_append (g : BitVec 5) (q : BitVec 2) : (g ++ q).extractLsb' 2 5 = g :=
  BitVec.extractLsb'_append_eq_left

theorem encodes_encode (i : Instr) : (nameOf i).Encodes (encode i) := by
  unfold Insn.Encodes encode
  cases i with
  | lui rd v => exact opcode_word _
  | auipc rd v => exact opcode_word _
  | jal rd v => exact opcode_word _
  | jalr rd rs1 v => exact ⟨opcode_word _, funct3_word _⟩
  | branch o rs1 rs2 v => cases o <;> exact ⟨opcode_word _, funct3_word _⟩
  | load o rd rs1 v => cases o <;> exact ⟨opcode_word _, funct3_word _⟩
  | store o rs1 rs2 v => cases o <;> exact ⟨opcode_word _, funct3_word _⟩
  | imm o rd rs1 v => cases o <;> exact ⟨opcode_word _, funct3_word _⟩
  | shift o rd rs1 n => cases o <;> exact ⟨opcode_word _, funct3_word _, funct7_word _⟩
  | reg o rd rs1 rs2 => cases o <;> exact ⟨opcode_word _, funct3_word _, funct7_word _⟩
  | lr rd rs1 q =>
      exact ⟨opcode_word _, funct3_word _, (amoFunct5_word _).trans (funct5_append _ q), rs2Field_word _⟩
  | sc rd rs1 rs2 q => exact ⟨opcode_word _, funct3_word _, (amoFunct5_word _).trans (funct5_append _ q)⟩
  | amo o rd rs1 rs2 q =>
      cases o <;> exact ⟨opcode_word _, funct3_word _, (amoFunct5_word _).trans (funct5_append _ q)⟩
  | fence m rs1 rd => exact ⟨opcode_word _, funct3_word _⟩

theorem opcode_encode (i : Instr) : opcode (encode i) = i.fields.op := opcode_word i.fields

theorem not_system (i : Instr) : Decode.isSystem (encode i) = false := by
  rw [Decode.isSystem, opcode_encode]
  cases i <;> rfl

theorem ordinary_encode (i : Instr) : ordinary (encode i) = true := by
  unfold ordinary
  rw [not_system, Decode.isMisc, opcode_encode]
  cases i
  case fence m rs1 rd =>
    have h3 : funct3 (encode (.fence m rs1 rd)) = 0b000#3 := funct3_word _
    rw [h3]
    rfl
  all_goals rfl

theorem legal_encode (i : Instr) : legal (encode i) = true := by
  have hsys := not_system i
  have hp : Decode.Permitted (encode i) ⟨PRV_M, false, false⟩ := by
    constructor <;>
      simp [Decode.isMret, Decode.isSret, Decode.isSfence, Decode.isPriv, Decode.illegalCsr, Decode.isCsr, hsys]
  have h := Decode.legal_of_valid ⟨nameOf i, encodes_encode i⟩ hp
  simp only [Decode.illegal, Bool.or_eq_false_iff] at h
  obtain ⟨⟨⟨⟨h₁, h₂⟩, h₃⟩, -⟩, -⟩ := h
  simp [legal, h₁, h₂, h₃]

/-! ## Values -/

theorem flag_eq (p : Bool) : BitVec.setWidth 32 (BitVec.ofBool p) = Rv32.flag p := by
  cases p <;> rfl

section
variable (a b : Word)

theorem branchTaken_value (o : Rv32.BranchOp) : branchTaken o.f3 a b = o.holds a b := by
  cases o with
  | beq => rfl
  | bne => rfl
  | blt => rfl
  | bge =>
      show (!decide (a.toInt < b.toInt)) = decide (b.toInt ≤ a.toInt)
      simp only [← Int.not_lt, decide_not]
  | bltu => rfl
  | bgeu =>
      show (!decide (a.toNat < b.toNat)) = decide (b.toNat ≤ a.toNat)
      simp only [← Nat.not_lt, decide_not]

/-- The choice between two words by a weaker condition. -/
theorem ite_weaken {p q : Prop} [Decidable p] [Decidable q] (h : p → q) (heq : q → ¬ p → a = b) :
    (if p then a else b) = if q then a else b := by
  by_cases hp : p
  · rw [if_pos hp, if_pos (h hp)]
  · by_cases hq : q
    · rw [if_neg hp, if_pos hq, heq hq hp]
    · rw [if_neg hp, if_neg hq]

theorem slt_iff : (a.slt b = true) = (a.toInt < b.toInt) := by simp [BitVec.slt]

theorem ult_iff : (a.ult b = true) = (a.toNat < b.toNat) := by simp [BitVec.ult]

theorem amoValue_value (o : Rv32.AmoOp) : amoValue o.f5 a b = o.value a b := by
  cases o with
  | swap => rfl
  | add => rfl
  | xor => rfl
  | or => rfl
  | and => rfl
  | min =>
      show (if a.slt b = true then a else b) = if a.toInt ≤ b.toInt then a else b
      refine ite_weaken a b (fun h => ?_) fun h hn => BitVec.eq_of_toInt_eq ?_
      · rw [slt_iff] at h
        omega
      · rw [slt_iff] at hn
        omega
  | max =>
      show (if a.slt b = true then b else a) = if b.toInt ≤ a.toInt then a else b
      simp only [slt_iff, ← Int.not_lt, ite_not]
  | minu =>
      show (if a.ult b = true then a else b) = if a.toNat ≤ b.toNat then a else b
      refine ite_weaken a b (fun h => ?_) fun h hn => BitVec.eq_of_toNat_eq ?_
      · rw [ult_iff] at h
        omega
      · rw [ult_iff] at hn
        omega
  | maxu =>
      show (if a.ult b = true then b else a) = if b.toNat ≤ a.toNat then a else b
      simp only [ult_iff, ← Nat.not_lt, ite_not]

end

/-! ## The multiplier -/

/-- The number that an operand of the multiplier stands for. -/
def factor (signed : Bool) (x : Word) : Int := if signed then x.toInt else x.toNat

theorem low_word (x : BitVec 66) : x.extractLsb' 0 32 = BitVec.ofInt 32 x.toInt := by
  apply BitVec.eq_of_toNat_eq
  rw [BitVec.extractLsb'_toNat, BitVec.toNat_ofInt, BitVec.toInt_eq_toNat_cond, Nat.shiftRight_zero]
  have := x.isLt
  split <;> omega

theorem high_word (x : BitVec 66) : x.extractLsb' 32 32 = BitVec.ofInt 32 (x.toInt / 2 ^ 32) := by
  apply BitVec.eq_of_toNat_eq
  rw [BitVec.extractLsb'_toNat, BitVec.toNat_ofInt, BitVec.toInt_eq_toNat_cond, Nat.shiftRight_eq_div_pow]
  have := x.isLt
  split <;> omega

theorem toInt_extended (signed : Bool) (x : Word) :
    (if signed then x.signExtend 33 else x.setWidth 33).toInt = factor signed x := by
  cases signed
  · show (x.setWidth 33).toInt = x.toNat
    rw [BitVec.toInt_setWidth]
    have := x.isLt
    exact Int.bmod_eq_of_le (by omega) (by omega)
  · exact BitVec.toInt_signExtend_of_le (by decide)

/-- No bit of the product of two 33-bit numbers is lost. -/
theorem toInt_product (x y : BitVec 33) : (x.signExtend 66 * y.signExtend 66).toInt = x.toInt * y.toInt := by
  rw [BitVec.toInt_mul, BitVec.toInt_signExtend_of_le (by decide), BitVec.toInt_signExtend_of_le (by decide)]
  have hlo := BitVec.le_toInt_mul_toInt (x := x) (y := y)
  have hhi := BitVec.toInt_mul_toInt_le (x := x) (y := y)
  exact Int.bmod_eq_of_le (by omega) (by omega)

/-- `mul_unit.sv` multiplies the numbers that its operands stand for. -/
theorem mulUnit_eq (a b : Word) (aSigned bSigned hi : Bool) : mulUnit a b aSigned bSigned hi =
    BitVec.ofInt 32 (if hi then factor aSigned a * factor bSigned b / 2 ^ 32
      else factor aSigned a * factor bSigned b) := by
  unfold mulUnit
  simp only [high_word, low_word, toInt_product, toInt_extended]
  cases hi <;> rfl

theorem ofInt_factor (signed : Bool) (x : Word) : BitVec.ofInt 32 (factor signed x) = x := by
  cases signed
  · exact (BitVec.ofInt_natCast 32 x.toNat).trans ((BitVec.ofNat_toNat 32 x).trans (BitVec.setWidth_eq x))
  · exact BitVec.ofInt_toInt

/-! ## Results by opcode -/

section
variable {w : Word} (pc a b : Word)

theorem arith_lui (h : opcode w = OP_LUI) : arith w pc a b = immU w := by
  simp [arith, alu, operand, Decode.isDiv, Decode.isMul, Decode.isMuldiv, Decode.isOp, Decode.isJal, Decode.isJalr,
    Decode.isLui, Decode.aluOp, Decode.aluASel, Decode.aluBSel, Decode.imm, h, OP_LUI, OP_OP, OP_JAL, OP_JALR]
  rfl

theorem arith_auipc (h : opcode w = OP_AUIPC) : arith w pc a b = pc + immU w := by
  simp [arith, alu, operand, Decode.isDiv, Decode.isMul, Decode.isMuldiv, Decode.isOp, Decode.isJal, Decode.isJalr,
    Decode.isLui, Decode.isAuipc, Decode.isBranch, Decode.isOpImm, Decode.aluOp, Decode.aluASel, Decode.aluBSel,
    Decode.imm, h, OP_LUI, OP_AUIPC, OP_OP, OP_JAL, OP_JALR, OP_BRANCH, OP_OP_IMM]
  rfl

theorem arith_jump (h : opcode w = OP_JAL ∨ opcode w = OP_JALR) : arith w pc a b = pc + 4#32 := by
  rcases h with h | h <;>
    simp [arith, Decode.isDiv, Decode.isMul, Decode.isMuldiv, Decode.isOp, Decode.isJal, Decode.isJalr, h, OP_OP,
      OP_JAL, OP_JALR]

theorem arith_opImm (h : opcode w = OP_OP_IMM) :
    arith w pc a b = aluY (Decode.arithAluOp w false) a (immI w) := by
  simp [arith, alu, operand, Decode.isDiv, Decode.isMul, Decode.isMuldiv, Decode.isOp, Decode.isJal, Decode.isJalr,
    Decode.isLui, Decode.isAuipc, Decode.isBranch, Decode.isLoad, Decode.isStore, Decode.isOpImm, Decode.aluOp,
    Decode.aluASel, Decode.aluBSel, Decode.imm, h, OP_LUI, OP_AUIPC, OP_OP, OP_JAL, OP_JALR, OP_BRANCH, OP_OP_IMM,
    OP_LOAD, OP_STORE]

theorem arith_op (h : opcode w = OP_OP) (h7 : funct7 w ≠ F7_MULDIV) :
    arith w pc a b = aluY (Decode.arithAluOp w true) a b := by
  simp [arith, alu, operand, Decode.isDiv, Decode.isMul, Decode.isMuldiv, Decode.isOp, Decode.isJal, Decode.isJalr,
    Decode.isLui, Decode.isAuipc, Decode.isBranch, Decode.isLoad, Decode.isStore, Decode.isOpImm, Decode.aluOp,
    Decode.aluASel, Decode.aluBSel, h, h7, OP_LUI, OP_AUIPC, OP_OP, OP_JAL, OP_JALR, OP_BRANCH, OP_OP_IMM, OP_LOAD,
    OP_STORE]

theorem arith_mul (h : opcode w = OP_OP) (h7 : funct7 w = F7_MULDIV) (h3 : (funct3 w).getLsbD 2 = false) :
    arith w pc a b = mulUnit a b (funct3 w == F3_MULH || funct3 w == F3_MULHSU) (funct3 w == F3_MULH)
      (funct3 w != F3_MUL) := by
  have hm : Decode.isMuldiv w = true := by simp [Decode.isMuldiv, Decode.isOp, h, h7]
  have hd : Decode.isDiv w = false := by rw [Decode.isDiv, hm, h3, Bool.and_false]
  have hl : Decode.isMul w = true := by rw [Decode.isMul, hm, h3, Bool.not_false, Bool.and_true]
  rw [arith, hd, hl]
  rfl

theorem arith_div (h : opcode w = OP_OP) (h7 : funct7 w = F7_MULDIV) (h3 : (funct3 w).getLsbD 2 = true) :
    arith w pc a b = division (!(funct3 w).getLsbD 0) ((funct3 w).getLsbD 1) a b :=
  arith_of_isDiv (by simp [Decode.isDiv, Decode.isMuldiv, Decode.isOp, h, h7, h3]) pc a b

end

/-! ## Results of the instructions -/

section
variable (pc a b : Word)

theorem arith_encode_lui (rd : Rv32.Reg) (v : BitVec 20) : arith (encode (.lui rd v)) pc a b = v ++ 0#12 := by
  rw [arith_lui pc a b (opcode_word _), encode, immU_word, Instr.fields, Rv32.immU_typeU]

theorem arith_encode_auipc (rd : Rv32.Reg) (v : BitVec 20) :
    arith (encode (.auipc rd v)) pc a b = pc + (v ++ 0#12) := by
  rw [arith_auipc pc a b (opcode_word _), encode, immU_word, Instr.fields, Rv32.immU_typeU]

theorem arith_imm (o : Rv32.ImmOp) (rd rs1 : Rv32.Reg) (v : BitVec 12) :
    arith (encode (.imm o rd rs1 v)) pc a b = o.value a (v.signExtend 32) := by
  have h3 : funct3 (encode (.imm o rd rs1 v)) = o.f3 := funct3_word _
  rw [arith_opImm pc a b (opcode_word _), encode, immI_word, Instr.fields, Rv32.immI_typeI]
  unfold Decode.arithAluOp
  rw [← Instr.fields, ← encode, h3]
  cases o with
  | slti => exact flag_eq _
  | sltiu => exact flag_eq _
  | addi | xori | ori | andi => rfl

/-- The amount of a shift is in the low bits of the immediate. -/
theorem shamt_shift (o : Rv32.ShiftOp) (rd rs1 : Rv32.Reg) (n : BitVec 5) :
    (immI (encode (.shift o rd rs1 n))).extractLsb' 0 5 = n := by
  rw [encode, immI_word, Fields.immI, Instr.fields]
  have h (x : BitVec 12) : (x.signExtend 32).extractLsb' 0 5 = x.extractLsb' 0 5 := by
    ext i hi
    have h₁ : i < 12 := by omega
    have h₂ : i < 32 := by omega
    simp [BitVec.getElem_signExtend, h₁, h₂]
  exact (h _).trans BitVec.extractLsb'_append_eq_right

theorem arith_shift (o : Rv32.ShiftOp) (rd rs1 : Rv32.Reg) (n : BitVec 5) :
    arith (encode (.shift o rd rs1 n)) pc a b = o.value a n.toNat := by
  have h3 : funct3 (encode (.shift o rd rs1 n)) = o.f3 := funct3_word _
  have h7 : funct7 (encode (.shift o rd rs1 n)) = o.f7 := funct7_word _
  rw [arith_opImm pc a b (opcode_word _)]
  unfold aluY
  rw [shamt_shift]
  unfold Decode.arithAluOp
  rw [h3, h7]
  cases o <;> rfl

theorem shamt_toNat (x : Word) : (x.extractLsb' 0 5).toNat = x.toNat % 32 := by
  rw [BitVec.extractLsb'_toNat, Nat.shiftRight_zero]

theorem quotient_ofInt : (if b = 0#32 then BitVec.ofInt 32 (-1) else BitVec.ofInt 32 (a.toInt.tdiv b.toInt)) =
    quotient true a b := by
  unfold quotient
  by_cases h : b = 0#32
  · rw [if_pos h, if_pos h]
    rfl
  · rw [if_neg h, if_neg h, if_pos rfl]
    split
    case isTrue ho =>
      obtain ⟨rfl, rfl⟩ := ho
      decide
    case isFalse => rfl

theorem remainder_ofInt : (if b = 0#32 then a else BitVec.ofInt 32 (a.toInt.tmod b.toInt)) =
    remainder true a b := by
  unfold remainder
  by_cases h : b = 0#32
  · rw [if_pos h, if_pos h]
  · rw [if_neg h, if_neg h, if_pos rfl]
    split
    case isTrue ho =>
      obtain ⟨rfl, rfl⟩ := ho
      decide
    case isFalse => rfl

theorem arith_reg (o : Rv32.RegOp) (rd rs1 rs2 : Rv32.Reg) :
    arith (encode (.reg o rd rs1 rs2)) pc a b = o.value a b := by
  have ho : opcode (encode (.reg o rd rs1 rs2)) = OP_OP := opcode_word _
  have h3 : funct3 (encode (.reg o rd rs1 rs2)) = o.f3 := funct3_word _
  have h7 : funct7 (encode (.reg o rd rs1 rs2)) = o.f7 := funct7_word _
  generalize encode (.reg o rd rs1 rs2) = w at ho h3 h7
  have hplain (h : o.f7 ≠ F7_MULDIV) : arith w pc a b = aluY (Decode.arithAluOp w true) a b :=
    arith_op pc a b ho (h7 ▸ h)
  have hmul (h : o.f7 = F7_MULDIV) (hm : o.f3.getLsbD 2 = false) : arith w pc a b =
      mulUnit a b (o.f3 == F3_MULH || o.f3 == F3_MULHSU) (o.f3 == F3_MULH) (o.f3 != F3_MUL) := by
    rw [arith_mul pc a b ho (h7.trans h) (h3 ▸ hm), h3]
  have hdiv (h : o.f7 = F7_MULDIV) (hm : o.f3.getLsbD 2 = true) : arith w pc a b =
      division (!o.f3.getLsbD 0) (o.f3.getLsbD 1) a b := by
    rw [arith_div pc a b ho (h7.trans h) (h3 ▸ hm), h3]
  unfold Decode.arithAluOp at hplain
  rw [h3, h7] at hplain
  unfold aluY at hplain
  rw [shamt_toNat] at hplain
  cases o with
  | slt => exact (hplain (by decide)).trans (flag_eq _)
  | sltu => exact (hplain (by decide)).trans (flag_eq _)
  | add | sub | sll | xor | srl | sra | or | and => exact hplain (by decide)
  | mul =>
      rw [hmul rfl rfl, mulUnit_eq]
      show BitVec.ofInt 32 (factor false a * factor false b) = BitVec.ofInt 32 (factor true a * factor true b)
      rw [BitVec.ofInt_mul, BitVec.ofInt_mul, ofInt_factor, ofInt_factor, ofInt_factor, ofInt_factor]
  | mulh =>
      rw [hmul rfl rfl, mulUnit_eq]
      rfl
  | mulhsu =>
      rw [hmul rfl rfl, mulUnit_eq]
      rfl
  | mulhu =>
      rw [hmul rfl rfl, mulUnit_eq]
      exact BitVec.ofInt_natCast 32 (a.toNat * b.toNat / 2 ^ 32)
  | div =>
      rw [hdiv rfl rfl]
      exact (quotient_ofInt a b).symm
  | divu =>
      rw [hdiv rfl rfl]
      rfl
  | rem =>
      rw [hdiv rfl rfl]
      exact (remainder_ofInt a b).symm
  | remu =>
      rw [hdiv rfl rfl]
      rfl

end

end QinglongCore.Isa
