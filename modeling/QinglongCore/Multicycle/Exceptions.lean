import QinglongCore.Rtl.CoreMulticycle
import QinglongCore.Csr.Lemmas.AddressMap

/-!
# The exceptions of the two cores

Both cores and the CSR file spell out which instructions are legal. The lists agree but for the counter `time`, which
the pipeline leaves out, and for malformed ECALL and EBREAK words, where the cores test in a different order.
-/

namespace QinglongCore.CoreMulticycle

variable {s : State} {e : Ext} {w : Word} {m : Decode.Mode}

/-! ## The lists of legal instructions -/

theorem illegalMajor_eq (w : Word) : illegalMajor w = Decode.illegalOpcode w := by
  unfold illegalMajor Decode.illegalOpcode
  by_cases h : opcode w = OP_AMO
  · simp [h, Decode.isLui, Decode.isAuipc, Decode.isJal, Decode.isJalr, Decode.isBranch, Decode.isLoad, Decode.isStore,
      Decode.isOpImm, Decode.isOp, Decode.isMisc, Decode.isSystem, Decode.isAmo, Decode.isAmoW, Decode.isAtomic, OP_LUI,
      OP_AUIPC, OP_JAL, OP_JALR, OP_BRANCH, OP_LOAD, OP_STORE, OP_OP_IMM, OP_OP, OP_MISC_MEM, OP_SYSTEM, OP_AMO]
    grind
  · simp only [h, Decode.isLui, Decode.isAuipc, Decode.isJal, Decode.isJalr, Decode.isBranch, Decode.isLoad,
      Decode.isStore, Decode.isOpImm, Decode.isOp, Decode.isMisc, Decode.isSystem, Decode.isAmo, ne_eq,
      not_false_eq_true, beq_false_of_ne, Bool.false_and, Bool.or_false]

theorem illegalArith_eq (w : Word) : illegalArith w = (Decode.illegalOpImm w || Decode.illegalOp w) := by
  have hne : F3_SLL ≠ F3_SRL_SRA := by decide
  have himm : ((Decode.isOpImm w && funct3 w == F3_SLL && funct7 w != 0b0000000#7) ||
      (Decode.isOpImm w && funct3 w == F3_SRL_SRA && funct7 w != 0b0000000#7 && funct7 w != 0b0100000#7)) =
      Decode.illegalOpImm w := by
    unfold Decode.illegalOpImm
    by_cases h₁ : funct3 w = F3_SLL
    · simp [h₁, hne]
    · by_cases h₂ : funct3 w = F3_SRL_SRA
      · simp [h₂, hne.symm, Bool.and_assoc]
      · simp [h₁, h₂]
  unfold illegalArith Decode.illegalOp
  rw [himm, Bool.and_or_distrib_left]
  ac_rfl

theorem illegalSystem_eq (w : Word) (m : Decode.Mode) : illegalSystem w m = Decode.illegalPriv w m := by
  unfold illegalSystem Decode.illegalPriv Decode.isSret Decode.isMret Decode.isPriv
  cases hs : Decode.isSystem w
  · rfl
  · cases hf : funct3 w == F3_PRIV
    · rfl
    · cases Decode.isSfence w
      · simp only [Bool.true_and, Bool.false_eq_true, ↓reduceIte]
        grind
      · rfl

theorem illegal_eq (w : Word) (m : Decode.Mode) :
    Decode.illegal w m = (illegalOpcode w m || Decode.illegalCsr w m) := by
  unfold Decode.illegal illegalOpcode
  rw [illegalMajor_eq, illegalArith_eq, illegalSystem_eq]
  simp only [Bool.or_assoc]

def isTime (a : BitVec 12) : Bool := a == CSR_TIME || a == CSR_TIMEH

/-- The pipeline's map of the CSR file leaves out `time`. -/
theorem readMux_eq_implemented (c : Csr.State) (e : Ext) (a : BitVec 12) :
    (Csr.readMux c e a).isSome = (Decode.csrImplemented a || isTime a) := by
  rw [Csr.readMux_isSome]
  simp only [Csr.namedCsrs, List.contains_cons, List.contains_nil, Bool.or_false, Decode.csrImplemented, isTime]
  ac_rfl

theorem not_implemented_time {a : BitVec 12} (h : isTime a = true) : Decode.csrImplemented a = false := by
  simp only [isTime, Bool.or_eq_true, beq_iff_eq] at h
  rcases h with h | h <;> subst h <;> decide

theorem doesWrite_eq (s : State) : Csr.doesWrite (csrCmd s) = Decode.csrWrites s.instr := by
  unfold Csr.doesWrite Decode.csrWrites csrCmd
  dsimp only
  grind

/-- The decoder of the pipeline and the CSR file agree on every other CSR instruction. -/
theorem illegalCsr_eq (h : Decode.isCsr s.instr = true) :
    Decode.illegalCsr s.instr (mode s) = (csrIllegal s e || isTime (csrField s.instr)) := by
  have haddr : (csrCmd s).csrAddr = csrField s.instr := rfl
  have hult : s.csr.privMode.ult ((csrField s.instr).extractLsb' 8 2) =
      !((csrField s.instr).extractLsb' 8 2).ule s.csr.privMode := by
    rw [BitVec.ule_eq_not_ult, Bool.not_not]
  unfold Decode.illegalCsr csrIllegal Csr.csrIllegal Csr.addrValid Csr.privOk Csr.csrMinPriv Csr.isReadOnlySpace
    Csr.tvmBlocksSatp
  rw [haddr, doesWrite_eq, readMux_eq_implemented, h]
  simp only [mode, hult, Bool.true_and]
  cases ht : isTime (csrField s.instr)
  · simp only [Bool.or_false]
    grind
  · rw [not_implemented_time ht]
    simp

/-! ## The same word in the pipeline -/

/-- The word `w`, fetched without a fault, in ID. -/
def fetchedWord (pc w : Word) : CorePipeline.IfId := ⟨true, pc, w, false, false, false, 0⟩

/-- The instruction of S_EXEC in the EX stage of the pipeline. -/
def pipelineEx (s : State) : CorePipeline.IdEx :=
  CorePipeline.IdEx.ofId (fetchedWord s.pc s.instr) (mode s) (rs1Data s) (rs2Data s)

/-- The exception that the pipeline raises in EX. -/
def pipelineTrap (s : State) : Option (Word × Word) :=
  (pipelineEx s).trapInfo (rs1Data s) (rs2Data s) s.csr.privMode

theorem pipelineTrap_eq (s : State) : pipelineTrap s =
    if Decode.illegal s.instr (mode s) then some (CAUSE_ILLEGAL_INSN, s.instr)
    else if Decode.isEcall s.instr then
      some (if s.csr.privMode = PRV_U then CAUSE_ECALL_FROM_U
        else if s.csr.privMode = PRV_S then CAUSE_ECALL_FROM_S else CAUSE_ECALL_FROM_M, 0)
    else if Decode.isEbreak s.instr then some (CAUSE_BREAKPOINT, 0)
    else match (pipelineEx s).misalignedTarget (rs1Data s) (rs2Data s) with
      | some t => some (CAUSE_INSN_ADDR_MISALIGNED, t)
      | none =>
          if (Decode.isLoad s.instr || Decode.isLr s.instr) && (pipelineEx s).lsMisaligned (rs1Data s) then
            some (CAUSE_LOAD_ADDR_MISALIGNED, (pipelineEx s).lsAddr (rs1Data s))
          else if (Decode.isStore s.instr || Decode.isSc s.instr || Decode.isAmoRmw s.instr) &&
              (pipelineEx s).lsMisaligned (rs1Data s) then
            some (CAUSE_STORE_ADDR_MISALIGNED, (pipelineEx s).lsAddr (rs1Data s))
          else none := by
  have hv : (pipelineEx s).valid = true := rfl
  have hq : (pipelineEx s).ctrl.irq = false := rfl
  have hp : (pipelineEx s).ctrl.fetchPagefault = false := rfl
  have hf : (pipelineEx s).ctrl.fetchFault = false := rfl
  have hi : (pipelineEx s).ctrl.illegal = Decode.illegal s.instr (mode s) := rfl
  have hec : (pipelineEx s).ctrl.isEcall = Decode.isEcall s.instr := rfl
  have heb : (pipelineEx s).ctrl.isEbreak = Decode.isEbreak s.instr := rfl
  have hl : (pipelineEx s).ctrl.isLoad = Decode.isLoad s.instr := rfl
  have hlr : (pipelineEx s).ctrl.isLr = Decode.isLr s.instr := rfl
  have hst : (pipelineEx s).ctrl.isStore = Decode.isStore s.instr := rfl
  have hsc : (pipelineEx s).ctrl.isSc = Decode.isSc s.instr := rfl
  have ham : (pipelineEx s).ctrl.isAmoRmw = Decode.isAmoRmw s.instr := rfl
  have hw : (pipelineEx s).instr = s.instr := rfl
  unfold pipelineTrap CorePipeline.IdEx.trapInfo
  rw [hv, hq, hp, hf, hi, hec, heb, hl, hlr, hst, hsc, ham, hw]
  rfl

/-! ### Operands by opcode -/

theorem branch_operands (h : opcode s.instr = OP_BRANCH) :
    branchTarget s = (pipelineEx s).branchTarget ∧
      branchTaken s = (pipelineEx s).branchTaken (rs1Data s) (rs2Data s) := by
  constructor
  · simp [branchTarget, CorePipeline.IdEx.branchTarget, pipelineEx, CorePipeline.IdEx.ofId, fetchedWord, Decode.imm,
      Decode.isLui, Decode.isAuipc, Decode.isJal, Decode.isStore, Decode.isBranch, h, OP_LUI, OP_AUIPC, OP_JAL,
      OP_STORE, OP_BRANCH]
  · have hsel : (pipelineEx s).aluA (rs1Data s) = rs1Data s ∧ (pipelineEx s).aluB (rs2Data s) = rs2Data s := by
      simp [CorePipeline.IdEx.aluA, CorePipeline.IdEx.aluB, pipelineEx, CorePipeline.IdEx.ofId, fetchedWord,
        Decode.aluASel, Decode.aluBSel, Decode.isLui, Decode.isAuipc, Decode.isJal, Decode.isJalr, Decode.isLoad,
        Decode.isStore, Decode.isBranch, h, OP_LUI, OP_AUIPC, OP_JAL, OP_JALR, OP_LOAD, OP_STORE, OP_BRANCH]
    have hmc : aluA s = rs1Data s ∧ aluB s = rs2Data s := by
      simp [aluA, aluB, Decode.isLui, Decode.isAuipc, Decode.isJal, Decode.isJalr, Decode.isLoad, Decode.isStore,
        Decode.isAmoW, Decode.isAmo, Decode.isBranch, h, OP_LUI, OP_AUIPC, OP_JAL, OP_JALR, OP_LOAD, OP_STORE, OP_AMO,
        OP_BRANCH]
    unfold branchTaken CorePipeline.IdEx.branchTaken
    rw [hsel.1, hsel.2, hmc.1, hmc.2]
    rfl

theorem jalr_operands (h : opcode s.instr = OP_JALR) : jalrTarget s = (pipelineEx s).jalrTarget (rs1Data s) := by
  simp [jalrTarget, CorePipeline.IdEx.jalrTarget, pipelineEx, CorePipeline.IdEx.ofId, fetchedWord, Decode.imm,
    Decode.isLui, Decode.isAuipc, Decode.isJal, Decode.isStore, Decode.isBranch, h, OP_LUI, OP_AUIPC, OP_JAL, OP_STORE,
    OP_BRANCH, OP_JALR]

theorem jal_operands (h : opcode s.instr = OP_JAL) : jalTarget s = (pipelineEx s).jalTarget := by
  simp [jalTarget, CorePipeline.IdEx.jalTarget, pipelineEx, CorePipeline.IdEx.ofId, fetchedWord, Decode.imm,
    Decode.isLui, Decode.isAuipc, Decode.isJal, h, OP_LUI, OP_AUIPC, OP_JAL]

/-- The address of a load, a store or an atomic. -/
theorem memAddr_eq (h : opcode s.instr = OP_LOAD ∨ opcode s.instr = OP_STORE ∨ Decode.isAtomic s.instr = true) :
    memAddr s = (pipelineEx s).lsAddr (rs1Data s) := by
  have hat : (pipelineEx s).isAtomic = Decode.isAtomic s.instr := rfl
  have himm : (pipelineEx s).imm = Decode.imm s.instr := rfl
  unfold CorePipeline.IdEx.lsAddr
  rw [hat, himm]
  rcases h with h | h | h
  · have hn := Decode.not_atomic_of_opcode (w := s.instr) (by rw [h]; decide)
    simp [hn, memAddr, aluResult, aluY, aluOp, aluA, aluB, Decode.imm, Decode.isLui, Decode.isAuipc, Decode.isJal,
      Decode.isJalr, Decode.isLoad, Decode.isStore, Decode.isBranch, Decode.isOpImm, Decode.isOp, h, OP_LUI, OP_AUIPC,
      OP_JAL, OP_JALR, OP_LOAD, OP_STORE, OP_BRANCH, OP_OP_IMM, OP_OP, ALU_ADD]
  · have hn := Decode.not_atomic_of_opcode (w := s.instr) (by rw [h]; decide)
    simp [hn, memAddr, aluResult, aluY, aluOp, aluA, aluB, Decode.imm, Decode.isLui, Decode.isAuipc, Decode.isJal,
      Decode.isJalr, Decode.isLoad, Decode.isStore, Decode.isBranch, Decode.isOpImm, Decode.isOp, h, OP_LUI, OP_AUIPC,
      OP_JAL, OP_JALR, OP_LOAD, OP_STORE, OP_BRANCH, OP_OP_IMM, OP_OP, ALU_ADD]
  · have ho := Decode.opcode_of_isAtomic h
    have hw := Decode.isAmoW_of_isAtomic h
    simp [h, hw, memAddr, aluResult, aluY, aluOp, aluA, aluB, Decode.isLui, Decode.isAuipc, Decode.isJal,
      Decode.isJalr, Decode.isLoad, Decode.isStore, Decode.isBranch, Decode.isOpImm, Decode.isOp, ho, OP_LUI, OP_AUIPC,
      OP_JAL, OP_JALR, OP_LOAD, OP_STORE, OP_BRANCH, OP_OP_IMM, OP_OP, OP_AMO, ALU_ADD]

/-! ### Misaligned targets and accesses -/

theorem target_congr {a : Bool} {x y : Word} {r q : Option Word} (h : a = true → x = y) (hr : r = q) :
    (if a && misaligned x then some x else r) = if a && CorePipeline.IdEx.misaligned y then some y else q := by
  subst hr
  cases a
  · rfl
  · rw [h rfl]
    rfl

theorem misalignedTarget_eq (s : State) :
    misalignedTarget s = (pipelineEx s).misalignedTarget (rs1Data s) (rs2Data s) := by
  have hj : (pipelineEx s).takeJal = Decode.isJal s.instr := rfl
  have hr : (pipelineEx s).takeJalr = Decode.isJalr s.instr := rfl
  have hb : (pipelineEx s).takeBranch (rs1Data s) (rs2Data s) = (Decode.isBranch s.instr && branchTaken s) := by
    have hx : (pipelineEx s).takeBranch (rs1Data s) (rs2Data s) =
      (Decode.isBranch s.instr && (pipelineEx s).branchTaken (rs1Data s) (rs2Data s)) := rfl
    rw [hx]
    cases h : Decode.isBranch s.instr
    · rfl
    · rw [(branch_operands (beq_iff_eq.mp h)).2]
  unfold misalignedTarget CorePipeline.IdEx.misalignedTarget
  rw [hb, hr, hj]
  refine target_congr ?_ (target_congr ?_ (target_congr ?_ rfl))
  · intro h
    rw [Bool.and_eq_true] at h
    exact (branch_operands (beq_iff_eq.mp h.1)).1
  · exact fun h => jalr_operands (beq_iff_eq.mp h)
  · exact fun h => jal_operands (beq_iff_eq.mp h)

theorem lsMisaligned_of_ls (h : (Decode.isLoad s.instr || Decode.isStore s.instr) = true) :
    (pipelineEx s).lsMisaligned (rs1Data s) = lsMisaligned s := by
  have ho : opcode s.instr = OP_LOAD ∨ opcode s.instr = OP_STORE := by
    simpa [Decode.isLoad, Decode.isStore] using h
  have hn : opcode s.instr ≠ OP_AMO := by
    rcases ho with ho | ho <;> rw [ho] <;> decide
  have ha := memAddr_eq (s := s) (ho.imp id Or.inl)
  have hv : (pipelineEx s).valid = true := rfl
  have hat : (pipelineEx s).isAtomic = Decode.isAtomic s.instr := rfl
  have hl : (pipelineEx s).ctrl.isLoad = Decode.isLoad s.instr := rfl
  have hs : (pipelineEx s).ctrl.isStore = Decode.isStore s.instr := rfl
  unfold CorePipeline.IdEx.lsMisaligned lsMisaligned
  rw [hv, hat, Decode.not_atomic_of_opcode hn, hl, hs, h, ← ha]
  rfl

theorem lsMisaligned_of_atomic (h : Decode.isAtomic s.instr = true) :
    (pipelineEx s).lsMisaligned (rs1Data s) = amoMisaligned s := by
  have ha := memAddr_eq (s := s) (Or.inr (Or.inr h))
  have hv : (pipelineEx s).valid = true := rfl
  have hat : (pipelineEx s).isAtomic = Decode.isAtomic s.instr := rfl
  unfold CorePipeline.IdEx.lsMisaligned amoMisaligned
  rw [hv, hat, h, Decode.isAmoW_of_isAtomic h, ← ha]
  rfl

/-- The exceptions that are tested for last, misaligned accesses. -/
theorem lsTrap_eq (s : State) :
    (if Decode.isLoad s.instr && lsMisaligned s then some (CAUSE_LOAD_ADDR_MISALIGNED, memAddr s)
      else if Decode.isStore s.instr && lsMisaligned s then some (CAUSE_STORE_ADDR_MISALIGNED, memAddr s)
      else if Decode.isLr s.instr && amoMisaligned s then some (CAUSE_LOAD_ADDR_MISALIGNED, memAddr s)
      else if (Decode.isSc s.instr || Decode.isAmoRmw s.instr) && amoMisaligned s then
        some (CAUSE_STORE_ADDR_MISALIGNED, memAddr s)
      else none) =
    if (Decode.isLoad s.instr || Decode.isLr s.instr) && (pipelineEx s).lsMisaligned (rs1Data s) then
      some (CAUSE_LOAD_ADDR_MISALIGNED, (pipelineEx s).lsAddr (rs1Data s))
    else if (Decode.isStore s.instr || Decode.isSc s.instr || Decode.isAmoRmw s.instr) &&
        (pipelineEx s).lsMisaligned (rs1Data s) then
      some (CAUSE_STORE_ADDR_MISALIGNED, (pipelineEx s).lsAddr (rs1Data s))
    else none := by
  cases hls : Decode.isLoad s.instr || Decode.isStore s.instr
  · rw [Bool.or_eq_false_iff] at hls
    cases hat : Decode.isAtomic s.instr
    · simp only [Decode.isAtomic, Bool.or_eq_false_iff] at hat
      simp [hls.1, hls.2, hat.1.1, hat.1.2, hat.2]
    · rw [lsMisaligned_of_atomic hat, ← memAddr_eq (Or.inr (Or.inr hat)), hls.1, hls.2]
      simp
  · have hn : opcode s.instr ≠ OP_AMO := by
      simp only [Decode.isLoad, Decode.isStore, Bool.or_eq_true, beq_iff_eq] at hls
      rcases hls with h | h <;> rw [h] <;> decide
    have hat := Decode.not_atomic_of_opcode hn
    simp only [Decode.isAtomic, Bool.or_eq_false_iff] at hat
    have ho : opcode s.instr = OP_LOAD ∨ opcode s.instr = OP_STORE := by
      simpa [Decode.isLoad, Decode.isStore] using hls
    rw [lsMisaligned_of_ls hls, ← memAddr_eq (ho.imp id Or.inl), hat.1.1, hat.1.2, hat.2]
    simp

/-! ## Where the cores drift apart -/

/-- A malformed ECALL or EBREAK, or an access to `time` that the CSR file takes for legal. -/
def drifts (s : State) (e : Ext) : Bool :=
  (Decode.isEcall s.instr || Decode.isEbreak s.instr) && (rdField s.instr != 0#5 || rs1Field s.instr != 0#5) ||
    Decode.isCsr s.instr && isTime (csrField s.instr) && !csrIllegal s e

theorem illegal_of_env {f : BitVec 12} (h : Decode.isPriv w f = true) (hf : f = 0x000#12 ∨ f = 0x001#12)
    (m : Decode.Mode) : Decode.illegal w m = (rdField w != 0#5 || rs1Field w != 0#5) := by
  simp only [Decode.isPriv, Decode.isSystem, Bool.and_eq_true, beq_iff_eq] at h
  obtain ⟨⟨ho, h3⟩, hc⟩ := h
  have h7 : funct7 w = 0#7 := by
    rw [funct7_of_csrField hc]
    rcases hf with rfl | rfl <;> rfl
  have hs : Decode.isSfence w = false := by simp [Decode.isSfence, h7]
  have hcsr : Decode.isCsr w = false := by simp [Decode.isCsr, h3]
  have hsys : Decode.isSystem w = true := by simp [Decode.isSystem, ho]
  have hnot : Decode.illegalOpcode w = false ∧ Decode.illegalOpImm w = false ∧ Decode.illegalOp w = false := by
    simp [Decode.illegalOpcode, Decode.illegalOpImm, Decode.illegalOp, Decode.isOpImm, Decode.isOp, hsys, ho, OP_SYSTEM,
      OP_OP_IMM, OP_OP]
  have hret : Decode.isSret w = false ∧ Decode.isMret w = false := by
    rcases hf with rfl | rfl <;> simp [Decode.isSret, Decode.isMret, Decode.isPriv, hc]
  have hlist : (csrField w == 0x000#12 || csrField w == 0x001#12 || csrField w == 0x302#12 || csrField w == 0x102#12 ||
      csrField w == 0x105#12) = true := by
    rw [hc]
    rcases hf with rfl | rfl <;> rfl
  unfold Decode.illegal Decode.illegalPriv Decode.illegalCsr
  rw [hnot.1, hnot.2.1, hnot.2.2, hsys, h3, hs, hret.1, hret.2, hlist, hcsr]
  simp

/-- The exceptions behind the illegal instructions. -/
def lateTrap (s : State) : Option (Word × Word) :=
  if Decode.isEcall s.instr then
    some (if s.csr.privMode = PRV_U then CAUSE_ECALL_FROM_U
      else if s.csr.privMode = PRV_S then CAUSE_ECALL_FROM_S else CAUSE_ECALL_FROM_M, 0)
  else if Decode.isEbreak s.instr then some (CAUSE_BREAKPOINT, 0)
  else match misalignedTarget s with
    | some t => some (CAUSE_INSN_ADDR_MISALIGNED, t)
    | none =>
        if Decode.isLoad s.instr && lsMisaligned s then some (CAUSE_LOAD_ADDR_MISALIGNED, memAddr s)
        else if Decode.isStore s.instr && lsMisaligned s then some (CAUSE_STORE_ADDR_MISALIGNED, memAddr s)
        else if Decode.isLr s.instr && amoMisaligned s then some (CAUSE_LOAD_ADDR_MISALIGNED, memAddr s)
        else if (Decode.isSc s.instr || Decode.isAmoRmw s.instr) && amoMisaligned s then
          some (CAUSE_STORE_ADDR_MISALIGNED, memAddr s)
        else none

theorem pipelineTrap_late (s : State) : pipelineTrap s =
    if Decode.illegal s.instr (mode s) then some (CAUSE_ILLEGAL_INSN, s.instr) else lateTrap s := by
  rw [pipelineTrap_eq, ← lsTrap_eq, ← misalignedTarget_eq]
  rfl

/-- The multicycle core lets ECALL and EBREAK pass before it asks whether the word is legal. -/
theorem execTrap_late (s : State) (e : Ext) : execTrap s e =
    if !(Decode.isEcall s.instr || Decode.isEbreak s.instr) &&
        (illegalOpcode s.instr (mode s) || (Decode.isCsr s.instr && csrIllegal s e)) then
      some (CAUSE_ILLEGAL_INSN, s.instr)
    else lateTrap s := by
  unfold execTrap lateTrap
  cases Decode.isEcall s.instr
  · cases Decode.isEbreak s.instr
    · rw [Bool.or_self, Bool.not_false, Bool.true_and]
      rfl
    · simp
  · simp

theorem lateTrap_of_env (h : (Decode.isEcall s.instr || Decode.isEbreak s.instr) = true) :
    lateTrap s ≠ some (CAUSE_ILLEGAL_INSN, s.instr) := by
  unfold lateTrap
  cases hec : Decode.isEcall s.instr
  · rw [hec, Bool.false_or] at h
    simp [h, CAUSE_BREAKPOINT, CAUSE_ILLEGAL_INSN]
  · simp only [↓reduceIte, ne_eq, Option.some.injEq, Prod.mk.injEq, not_and]
    intro hc
    split_ifs at hc <;> exact absurd hc (by decide)

/-! ### CSR words -/

theorem isCsr_elim (h : Decode.isCsr w = true) : opcode w = OP_SYSTEM ∧ funct3 w ≠ F3_PRIV := by
  simpa [Decode.isCsr, Decode.isSystem] using h

theorem illegalOpcode_of_isCsr (h : Decode.isCsr w = true) (m : Decode.Mode) : illegalOpcode w m = false := by
  obtain ⟨ho, h3⟩ := isCsr_elim h
  simp [illegalOpcode, illegalMajor, illegalArith, illegalSystem, Decode.isOpImm, Decode.isOp, ho, h3, OP_SYSTEM,
    OP_OP_IMM, OP_OP, OP_AMO]

theorem not_env_of_isCsr (h : Decode.isCsr w = true) : (Decode.isEcall w || Decode.isEbreak w) = false := by
  have h3 := (isCsr_elim h).2
  simp [Decode.isEcall, Decode.isEbreak, Decode.isPriv, h3]

theorem lateTrap_of_isCsr (h : Decode.isCsr s.instr = true) : lateTrap s = none := by
  have ho := (isCsr_elim h).1
  have henv := not_env_of_isCsr h
  rw [Bool.or_eq_false_iff] at henv
  have hat := Decode.not_atomic_of_opcode (w := s.instr) (by rw [ho]; decide)
  simp only [Decode.isAtomic, Bool.or_eq_false_iff] at hat
  simp [lateTrap, misalignedTarget, henv.1, henv.2, hat.1.1, hat.1.2, hat.2, Decode.isBranch, Decode.isJal,
    Decode.isJalr, Decode.isLoad, Decode.isStore, ho, OP_SYSTEM, OP_BRANCH, OP_JAL, OP_JALR, OP_LOAD, OP_STORE]

/-! ## Agreement of the two lists -/

/-- The cores raise the same exception before the memory access, with the same cause and value, and the decoder of
the pipeline accepts a CSR instruction when the CSR file does, exactly for the words that do not drift. -/
theorem exceptions_agree_iff (s : State) (e : Ext) :
    (pipelineTrap s = execTrap s e ∧
      (Decode.isCsr s.instr = true → Decode.illegal s.instr (mode s) = csrIllegal s e)) ↔ drifts s e = false := by
  rw [pipelineTrap_late, execTrap_late]
  cases henv : Decode.isEcall s.instr || Decode.isEbreak s.instr
  · cases hcsr : Decode.isCsr s.instr
    · -- neither list knows the word from CSR or environment rules
      have hill : Decode.illegal s.instr (mode s) = illegalOpcode s.instr (mode s) := by
        rw [illegal_eq, Decode.illegalCsr, hcsr, Bool.false_and, Bool.or_false]
      simp [drifts, henv, hcsr, hill]
    · have hop := illegalOpcode_of_isCsr hcsr (mode s)
      have hill : Decode.illegal s.instr (mode s) = (csrIllegal s e || isTime (csrField s.instr)) := by
        rw [illegal_eq, hop, Bool.false_or, illegalCsr_eq hcsr]
      rw [hill, hop, lateTrap_of_isCsr hcsr]
      unfold drifts
      rw [henv, hcsr]
      cases csrIllegal s e <;> cases isTime (csrField s.instr) <;> simp
  · have hcsr : Decode.isCsr s.instr = false := by
      by_contra h
      rw [not_env_of_isCsr (by simpa using h)] at henv
      exact absurd henv (by decide)
    have hill : Decode.illegal s.instr (mode s) = (rdField s.instr != 0#5 || rs1Field s.instr != 0#5) := by
      rw [Bool.or_eq_true] at henv
      rcases henv with h | h
      · exact illegal_of_env h (Or.inl rfl) _
      · exact illegal_of_env h (Or.inr rfl) _
    rw [hill]
    unfold drifts
    rw [henv, hcsr]
    cases rdField s.instr != 0#5 || rs1Field s.instr != 0#5
    · simp
    · simpa using Ne.symm (lateTrap_of_env henv)

/-- The word `w` in S_EXEC, in M-mode after reset. -/
def execState (w : Word) : State := { reset 0 fun _ => 0 with fsm := .exec, instr := w }

/-- `rdtime` traps in the pipeline only. -/
theorem not_exceptions_agree : ¬ ∀ (s : State) (e : Ext), pipelineTrap s = execTrap s e ∧
    (Decode.isCsr s.instr = true → Decode.illegal s.instr (mode s) = csrIllegal s e) := by
  intro h
  have ht := (h (execState 0xC0102573#32) ⟨false, false, false, false, 0⟩).2 (by decide)
  exact absurd ht (by decide)

-- an EBREAK with `rd` set
example : pipelineTrap (execState 0x001000F3#32) = some (CAUSE_ILLEGAL_INSN, 0x001000F3#32) ∧
    execTrap (execState 0x001000F3#32) ⟨false, false, false, false, 0⟩ = some (CAUSE_BREAKPOINT, 0#32) := by
  decide

end QinglongCore.CoreMulticycle
