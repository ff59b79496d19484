import QinglongCore.Isa.Machine
import QinglongCore.Multicycle.Exceptions
import QinglongCore.Pipeline.Lemmas.Successor

/-!
# What the multicycle core computes

The values of S_EXEC are those of the instruction set, with the operands that the register file shows.
-/

namespace QinglongCore.CoreMulticycle

variable {s : State} {e : Ext}

/-! ## Addresses and store lanes -/

theorem memAddr_isa
    (h : opcode s.instr = OP_LOAD ∨ opcode s.instr = OP_STORE ∨ Decode.isAtomic s.instr = true) :
    memAddr s = Isa.lsAddr s.instr (rs1Data s) := by
  rw [memAddr_eq h]
  rfl

theorem loadAligned_isa (f3 : BitVec 3) (a x : Word) : CorePipeline.loadAligned f3 a x = Isa.loadValue f3 a x := rfl

theorem amoResult_isa (h : Decode.isAmoRmw s.instr = true) :
    amoResult s = Isa.amoValue (amoFunct5 s.instr) s.amoOld (rs2Data s) := by
  simp only [Decode.isAmoRmw, Bool.and_eq_true, Bool.or_eq_true, beq_iff_eq] at h
  obtain ⟨-, hf⟩ := h
  unfold amoResult Isa.amoValue
  rcases hf with (((((((hf | hf) | hf) | hf) | hf) | hf) | hf) | hf) | hf <;> rw [hf] <;> rfl

/-! ## Results -/

theorem aluResult_isa (hl : Decode.isLoad s.instr = false) (hs : Decode.isStore s.instr = false)
    (ha : Decode.isAmoW s.instr = false) : aluResult s = Isa.alu s.instr s.pc (rs1Data s) (rs2Data s) := by
  have hop : aluOp s = Decode.aluOp s.instr := rfl
  have hA : aluA s = Isa.operand (Decode.aluASel s.instr) (rs1Data s) s.pc 0#32 := by
    unfold aluA Isa.operand Decode.aluASel
    cases Decode.isLui s.instr
    · cases Decode.isAuipc s.instr
      · cases Decode.isJal s.instr || Decode.isJalr s.instr <;> rfl
      · rfl
    · rfl
  have hB : aluB s = Isa.operand (Decode.aluBSel s.instr) (rs2Data s) (Decode.imm s.instr) 4#32 := by
    unfold aluB Isa.operand Decode.aluBSel Decode.imm
    rw [hl, hs, ha]
    simp only [Bool.false_eq_true, if_false, Bool.or_self]
    cases Decode.isLui s.instr
    · cases Decode.isAuipc s.instr
      · cases Decode.isJal s.instr
        · cases Decode.isJalr s.instr
          · cases Decode.isBranch s.instr
            · cases Decode.isOpImm s.instr <;> rfl
            · rfl
          · rfl
        · rfl
      · rfl
    · rfl
  rw [aluResult, hop, hA, hB, Isa.alu]

theorem arithWb_isa (hl : Decode.isLoad s.instr = false) (hs : Decode.isStore s.instr = false)
    (ha : Decode.isAmoW s.instr = false) (hc : Decode.isCsr s.instr = false) (hd : Decode.isDiv s.instr = false) :
    arithWb s e = Isa.arith s.instr s.pc (rs1Data s) (rs2Data s) := by
  unfold arithWb Isa.arith
  rw [hc, hd, aluResult_isa hl hs ha]
  rfl

/-! ## Successors -/

theorem branchTaken_isa (h : opcode s.instr = OP_BRANCH) :
    branchTaken s = Isa.branchTaken (funct3 s.instr) (rs1Data s) (rs2Data s) := by
  rw [(branch_operands h).2]
  exact CorePipeline.branchTaken_eq (fetchedWord s.pc s.instr) _ _ _ _ _ (beq_iff_eq.mpr h)

theorem execPc_isa (h : kind s.instr = .single) :
    execPc s = Isa.nextPc s.instr s.pc (rs1Data s) (rs2Data s) := by
  have hjal : Decode.isJal s.instr = true → jalTarget s = s.pc + Decode.imm s.instr := fun h =>
    jal_operands (beq_iff_eq.mp h)
  have hjalr : Decode.isJalr s.instr = true → jalrTarget s = (rs1Data s + Decode.imm s.instr) &&& ~~~1#32 := fun h =>
    jalr_operands (beq_iff_eq.mp h)
  have hbr : Decode.isBranch s.instr = true → branchTarget s = s.pc + Decode.imm s.instr ∧
      branchTaken s = Isa.branchTaken (funct3 s.instr) (rs1Data s) (rs2Data s) := fun h =>
    ⟨(branch_operands (beq_iff_eq.mp h)).1, branchTaken_isa (beq_iff_eq.mp h)⟩
  obtain ⟨hjr, -⟩ := CorePipeline.control_disjoint s.instr
  unfold execPc Isa.nextPc
  rw [h]
  dsimp only
  cases hr : Decode.isJalr s.instr
  · cases hj : Decode.isJal s.instr
    · cases hb : Decode.isBranch s.instr
      · simp
      · obtain ⟨ht, htk⟩ := hbr hb
        simp [ht, htk]
    · simp [hjal hj]
  · simp [(hjr hr).1, hjalr hr]

/-- Only a control transfer leaves the straight path. -/
theorem nextPc_of_straight {w pc a b : Word}
    (h : Decode.isAtomic w = true ∨ Decode.isLoad w = true ∨ Decode.isStore w = true ∨ Decode.isDiv w = true) :
    Isa.nextPc w pc a b = pc + 4 := by
  have ho : opcode w = OP_AMO ∨ opcode w = OP_LOAD ∨ opcode w = OP_STORE ∨ opcode w = OP_OP := by
    rcases h with h | h | h | h
    · exact .inl (Decode.opcode_of_isAtomic h)
    · exact .inr (.inl (beq_iff_eq.mp h))
    · exact .inr (.inr (.inl (beq_iff_eq.mp h)))
    · exact .inr (.inr (.inr (Decode.opcode_of_isDiv h)))
  rcases ho with ho | ho | ho | ho <;>
    simp [Isa.nextPc, Decode.isJalr, Decode.isJal, Decode.isBranch, ho, OP_AMO, OP_LOAD, OP_STORE, OP_OP, OP_JAL,
      OP_JALR, OP_BRANCH]

end QinglongCore.CoreMulticycle
