import QinglongCore.Isa.Encodings
import QinglongCore.Rtl.Decode

/-!
# What the decoder accepts

The decoder checks the function fields of OP, OP-IMM, AMO and the privileged instructions, and neither those of the
other formats nor that a CSR instruction is one.
-/

namespace QinglongCore.Decode

variable {w : Word} {m : Mode}

/-- The mode allows what the word asks for. -/
structure Permitted (w : Word) (m : Mode) : Prop where
  mret : isMret w = true → m.priv = PRV_M
  sret : isSret w = true → m.priv ≠ PRV_U ∧ ¬ (m.priv = PRV_S ∧ m.tsr = true)
  sfence : isSfence w = true → m.priv ≠ PRV_U ∧ ¬ (m.priv = PRV_S ∧ m.tvm = true)
  csr : illegalCsr w m = false

/-- The reserved function fields that the decoder does not look at. -/
def Unchecked (w : Word) (m : Mode) : Prop :=
  opcode w = OP_JALR ∧ funct3 w ≠ 0b000#3 ∨
  opcode w = OP_BRANCH ∧ (funct3 w = 0b010#3 ∨ funct3 w = 0b011#3) ∨
  opcode w = OP_LOAD ∧ (funct3 w = 0b011#3 ∨ funct3 w = 0b110#3 ∨ funct3 w = 0b111#3) ∨
  opcode w = OP_STORE ∧ 0b011#3 ≤ funct3 w ∨
  opcode w = OP_MISC_MEM ∧ 0b010#3 ≤ funct3 w ∨
  opcode w = OP_SYSTEM ∧ funct3 w = 0b100#3 ∧ illegalCsr w m = false

instance : Decidable (Unchecked w m) := by unfold Unchecked; infer_instance

theorem funct3_cases (f : BitVec 3) : f = 0b000#3 ∨ f = 0b001#3 ∨ f = 0b010#3 ∨ f = 0b011#3 ∨ f = 0b100#3 ∨
    f = 0b101#3 ∨ f = 0b110#3 ∨ f = 0b111#3 := by
  revert f
  decide

theorem legal_of_unchecked (h : Unchecked w m) : illegal w m = false := by
  rcases h with ⟨h, -⟩ | ⟨h, -⟩ | ⟨h, -⟩ | ⟨h, -⟩ | ⟨h, -⟩ | ⟨h, hf, hl⟩
  case inr.inr.inr.inr.inr =>
    simp [illegal, illegalOpcode, illegalOpImm, illegalOp, illegalPriv, isOpImm, isOp, isSystem, h, hf, hl, OP_OP_IMM,
      OP_OP, OP_SYSTEM, F3_PRIV]
  all_goals
    simp [illegal, illegalOpcode, illegalOpImm, illegalOp, illegalPriv, illegalCsr, isJalr, isBranch, isLoad, isStore,
      isOpImm, isOp, isMisc, isSystem, isCsr, h, OP_JALR, OP_BRANCH, OP_LOAD, OP_STORE, OP_OP_IMM, OP_OP, OP_MISC_MEM,
      OP_SYSTEM]

/-- Reserved function fields encode nothing. -/
theorem not_valid_of_unchecked (h : Unchecked w m) : ¬ Isa.Valid w := by
  rintro ⟨i, hi⟩
  cases i
  all_goals
    simp only [Isa.Insn.Encodes, Isa.Insn.format, Isa.Format.Matches] at hi
    simp [Unchecked, hi, OP_JALR, OP_BRANCH, OP_LOAD, OP_STORE, OP_MISC_MEM, OP_SYSTEM] at h

/-! ## Accepted words are encodings -/

theorem valid_of_branch (ho : opcode w = OP_BRANCH) (hu : ¬ Unchecked w m) : Isa.Valid w := by
  rcases funct3_cases (funct3 w) with h | h | h | h | h | h | h | h
  · exact ⟨.beq, ho, h⟩
  · exact ⟨.bne, ho, h⟩
  · exact absurd (.inr (.inl ⟨ho, .inl h⟩)) hu
  · exact absurd (.inr (.inl ⟨ho, .inr h⟩)) hu
  · exact ⟨.blt, ho, h⟩
  · exact ⟨.bge, ho, h⟩
  · exact ⟨.bltu, ho, h⟩
  · exact ⟨.bgeu, ho, h⟩

theorem valid_of_load (ho : opcode w = OP_LOAD) (hu : ¬ Unchecked w m) : Isa.Valid w := by
  have hnot : ∀ {P : Prop}, (funct3 w = 0b011#3 ∨ funct3 w = 0b110#3 ∨ funct3 w = 0b111#3) → P := fun h =>
    absurd (.inr (.inr (.inl ⟨ho, h⟩))) hu
  rcases funct3_cases (funct3 w) with h | h | h | h | h | h | h | h
  · exact ⟨.lb, ho, h⟩
  · exact ⟨.lh, ho, h⟩
  · exact ⟨.lw, ho, h⟩
  · exact hnot (.inl h)
  · exact ⟨.lbu, ho, h⟩
  · exact ⟨.lhu, ho, h⟩
  · exact hnot (.inr (.inl h))
  · exact hnot (.inr (.inr h))

theorem valid_of_store (ho : opcode w = OP_STORE) (hu : ¬ Unchecked w m) : Isa.Valid w := by
  have hlt : ¬ 0b011#3 ≤ funct3 w := fun h => hu (.inr (.inr (.inr (.inl ⟨ho, h⟩))))
  rcases funct3_cases (funct3 w) with h | h | h | h | h | h | h | h
  · exact ⟨.sb, ho, h⟩
  · exact ⟨.sh, ho, h⟩
  · exact ⟨.sw, ho, h⟩
  all_goals
    rw [h] at hlt
    exact absurd (by decide) hlt

theorem valid_of_misc (ho : opcode w = OP_MISC_MEM) (hu : ¬ Unchecked w m) : Isa.Valid w := by
  have hlt : ¬ 0b010#3 ≤ funct3 w := fun h => hu (.inr (.inr (.inr (.inr (.inl ⟨ho, h⟩)))))
  rcases funct3_cases (funct3 w) with h | h | h | h | h | h | h | h
  · exact ⟨.fence, ho, h⟩
  · exact ⟨.fenceI, ho, h⟩
  all_goals
    rw [h] at hlt
    exact absurd (by decide) hlt

theorem valid_of_opImm (ho : opcode w = OP_OP_IMM) (hl : illegalOpImm w = false) : Isa.Valid w := by
  have hop : isOpImm w = true := by simp [isOpImm, ho]
  simp only [illegalOpImm, hop, Bool.true_and] at hl
  rcases funct3_cases (funct3 w) with h | h | h | h | h | h | h | h
  · exact ⟨.addi, ho, h⟩
  · have hf : funct7 w = 0b0000000#7 := by simpa [h, F3_SLL] using hl
    exact ⟨.slli, ho, h, hf⟩
  · exact ⟨.slti, ho, h⟩
  · exact ⟨.sltiu, ho, h⟩
  · exact ⟨.xori, ho, h⟩
  · have hf : funct7 w ≠ 0b0000000#7 → funct7 w = 0b0100000#7 := by simpa [h, F3_SLL, F3_SRL_SRA] using hl
    by_cases hz : funct7 w = 0b0000000#7
    · exact ⟨.srli, ho, h, hz⟩
    · exact ⟨.srai, ho, h, hf hz⟩
  · exact ⟨.ori, ho, h⟩
  · exact ⟨.andi, ho, h⟩

theorem valid_of_op (ho : opcode w = OP_OP) (hl : illegalOp w = false) : Isa.Valid w := by
  have hop : isOp w = true := by simp [isOp, ho]
  simp only [illegalOp, hop, Bool.true_and, Bool.not_eq_false', Bool.or_eq_true, Bool.and_eq_true, beq_iff_eq] at hl
  rcases hl with (hl | hl) | ⟨hl, h | h⟩
  · rcases funct3_cases (funct3 w) with h | h | h | h | h | h | h | h
    · exact ⟨.add, ho, h, hl⟩
    · exact ⟨.sll, ho, h, hl⟩
    · exact ⟨.slt, ho, h, hl⟩
    · exact ⟨.sltu, ho, h, hl⟩
    · exact ⟨.xor, ho, h, hl⟩
    · exact ⟨.srl, ho, h, hl⟩
    · exact ⟨.or, ho, h, hl⟩
    · exact ⟨.and, ho, h, hl⟩
  · rcases funct3_cases (funct3 w) with h | h | h | h | h | h | h | h
    · exact ⟨.mul, ho, h, hl⟩
    · exact ⟨.mulh, ho, h, hl⟩
    · exact ⟨.mulhsu, ho, h, hl⟩
    · exact ⟨.mulhu, ho, h, hl⟩
    · exact ⟨.div, ho, h, hl⟩
    · exact ⟨.divu, ho, h, hl⟩
    · exact ⟨.rem, ho, h, hl⟩
    · exact ⟨.remu, ho, h, hl⟩
  · exact ⟨.sub, ho, h, hl⟩
  · exact ⟨.sra, ho, h, hl⟩

theorem valid_of_amo (ha : isAtomic w = true) : Isa.Valid w := by
  have hw := isAmoW_of_isAtomic ha
  simp only [isAmoW, isAmo, Bool.and_eq_true, beq_iff_eq] at hw
  obtain ⟨ho, h⟩ := hw
  simp only [isAtomic, Bool.or_eq_true] at ha
  rcases ha with (ha | ha) | ha
  · simp only [isLr, Bool.and_eq_true, beq_iff_eq] at ha
    exact ⟨.lrW, ho, h, ha.1.2, ha.2⟩
  · simp only [isSc, Bool.and_eq_true, beq_iff_eq] at ha
    exact ⟨.scW, ho, h, ha.2⟩
  · simp only [isAmoRmw, Bool.and_eq_true, Bool.or_eq_true, beq_iff_eq] at ha
    rcases ha.2 with (((((((hf | hf) | hf) | hf) | hf) | hf) | hf) | hf) | hf
    · exact ⟨.amoswapW, ho, h, hf⟩
    · exact ⟨.amoaddW, ho, h, hf⟩
    · exact ⟨.amoxorW, ho, h, hf⟩
    · exact ⟨.amoandW, ho, h, hf⟩
    · exact ⟨.amoorW, ho, h, hf⟩
    · exact ⟨.amominW, ho, h, hf⟩
    · exact ⟨.amomaxW, ho, h, hf⟩
    · exact ⟨.amominuW, ho, h, hf⟩
    · exact ⟨.amomaxuW, ho, h, hf⟩

theorem valid_of_priv (ho : opcode w = OP_SYSTEM) (h : funct3 w = F3_PRIV) (hl : illegalPriv w m = false) :
    Isa.Valid w := by
  have hsys : isSystem w = true := by simp [isSystem, ho]
  simp only [illegalPriv, hsys, h, beq_self_eq_true, Bool.true_and] at hl
  cases hs : isSfence w
  · simp only [hs, Bool.false_eq_true, if_false, Bool.or_eq_false_iff, Bool.not_eq_false', Bool.or_eq_true, beq_iff_eq,
      bne_eq_false_iff_eq] at hl
    obtain ⟨⟨⟨⟨hf, hrd, hrs⟩, -⟩, -⟩, -⟩ := hl
    rcases hf with (((hf | hf) | hf) | hf) | hf
    · exact ⟨.ecall, ho, h, hf, hrs, hrd⟩
    · exact ⟨.ebreak, ho, h, hf, hrs, hrd⟩
    · exact ⟨.mret, ho, h, hf, hrs, hrd⟩
    · exact ⟨.sret, ho, h, hf, hrs, hrd⟩
    · exact ⟨.wfi, ho, h, hf, hrs, hrd⟩
  · simp only [hs, if_true, Bool.or_eq_false_iff, bne_eq_false_iff_eq] at hl
    simp only [isSfence, Bool.and_eq_true, beq_iff_eq] at hs
    exact ⟨.sfenceVma, ho, h, hs.2, hl.1.1⟩

theorem valid_of_csr (ho : opcode w = OP_SYSTEM) (hf : funct3 w ≠ F3_PRIV) (hu : ¬ Unchecked w m)
    (hl : illegalCsr w m = false) : Isa.Valid w := by
  rcases funct3_cases (funct3 w) with h | h | h | h | h | h | h | h
  · exact absurd h hf
  · exact ⟨.csrrw, ho, h⟩
  · exact ⟨.csrrs, ho, h⟩
  · exact ⟨.csrrc, ho, h⟩
  · exact absurd (.inr (.inr (.inr (.inr (.inr ⟨ho, h, hl⟩))))) hu
  · exact ⟨.csrrwi, ho, h⟩
  · exact ⟨.csrrsi, ho, h⟩
  · exact ⟨.csrrci, ho, h⟩

/-- What the decoder accepts with checked function fields is an encoding. -/
theorem valid_of_legal (hl : illegal w m = false) (hu : ¬ Unchecked w m) : Isa.Valid w := by
  simp only [illegal, Bool.or_eq_false_iff] at hl
  obtain ⟨⟨⟨⟨hop, himm⟩, hreg⟩, hpriv⟩, hcsr⟩ := hl
  simp only [illegalOpcode, Bool.not_eq_false', Bool.or_eq_true, Bool.and_eq_true, isLui, isAuipc, isJal, isJalr,
    isBranch, isLoad, isStore, isOpImm, isOp, isMisc, isSystem, beq_iff_eq] at hop
  rcases hop with ((((((((((h | h) | h) | h) | h) | h) | h) | h) | h) | h) | h) | h
  · exact ⟨.lui, h⟩
  · exact ⟨.auipc, h⟩
  · exact ⟨.jal, h⟩
  · by_cases hf : funct3 w = 0b000#3
    · exact ⟨.jalr, h, hf⟩
    · exact absurd (.inl ⟨h, hf⟩) hu
  · exact valid_of_branch h hu
  · exact valid_of_load h hu
  · exact valid_of_store h hu
  · exact valid_of_opImm h himm
  · exact valid_of_op h hreg
  · exact valid_of_misc h hu
  · by_cases hf : funct3 w = F3_PRIV
    · exact valid_of_priv h hf hpriv
    · exact valid_of_csr h hf hu hcsr
  · exact valid_of_amo h.2

/-- Words that are not serialised are legal in every mode or in none. -/
theorem illegal_mode (h : isSerial w = false) (m m' : Mode) : illegal w m = illegal w m' := by
  simp only [isSerial, Bool.or_eq_false_iff] at h
  obtain ⟨⟨⟨⟨⟨⟨⟨⟨hcsr, hmret⟩, hsret⟩, hecall⟩, hebreak⟩, hwfi⟩, -⟩, -⟩, hsfence⟩ := h
  simp only [illegal, illegalPriv, illegalCsr, hcsr, hsfence]
  simp only [isMret, isSret, isEcall, isEbreak, isWfi, isPriv] at *
  grind

/-! ## Encodings are accepted -/

/-- The privileged encodings. -/
theorem priv_of_valid (hv : Isa.Valid w) (ho : opcode w = OP_SYSTEM) (h : funct3 w = F3_PRIV) :
    rdField w = 0#5 ∧ (funct7 w = 0b0001001#7 ∨ rs1Field w = 0#5 ∧ (csrField w = 0x000#12 ∨ csrField w = 0x001#12 ∨
      csrField w = 0x302#12 ∨ csrField w = 0x102#12 ∨ csrField w = 0x105#12)) := by
  obtain ⟨i, hi⟩ := hv
  cases i
  all_goals
    simp only [Isa.Insn.Encodes, Isa.Insn.format, Isa.Format.Matches] at hi
    simp [hi, OP_SYSTEM, F3_PRIV] at ho h ⊢

theorem illegalPriv_of_permitted (hv : Isa.Valid w) (hp : Permitted w m) : illegalPriv w m = false := by
  by_cases hsys : opcode w = OP_SYSTEM ∧ funct3 w = F3_PRIV
  · obtain ⟨hrd, hf⟩ := priv_of_valid hv hsys.1 hsys.2
    have hmret := hp.mret
    have hsret := hp.sret
    have hsfence := hp.sfence
    simp only [illegalPriv, hrd]
    cases hs : isSfence w
    · have hne : funct7 w ≠ 0b0001001#7 := by
        intro hf
        simp [isSfence, isSystem, hsys.1, hsys.2, hf] at hs
      obtain ⟨hrs, hf⟩ := hf.resolve_left hne
      simp only [hrs]
      grind
    · grind
  · have hnot : (isSystem w && funct3 w == F3_PRIV) = false := by simpa [isSystem] using hsys
    rw [illegalPriv, hnot, Bool.false_and]

/-- An encoding that the mode allows is accepted. -/
theorem legal_of_valid (hv : Isa.Valid w) (hp : Permitted w m) : illegal w m = false := by
  have hpriv := illegalPriv_of_permitted hv hp
  have hcsr := hp.csr
  obtain ⟨i, hi⟩ := hv
  have hrest : illegalOpcode w = false ∧ illegalOpImm w = false ∧ illegalOp w = false := by
    cases i
    all_goals
      simp only [Isa.Insn.Encodes, Isa.Insn.format, Isa.Format.Matches] at hi
      simp [illegalOpcode, illegalOpImm, illegalOp, isLui, isAuipc, isJal, isJalr, isBranch, isLoad, isStore, isOpImm,
        isOp, isMisc, isSystem, isAmo, isAmoW, isAtomic, isLr, isSc, isAmoRmw, hi, OP_LUI, OP_AUIPC, OP_JAL, OP_JALR,
        OP_BRANCH, OP_LOAD, OP_STORE, OP_OP_IMM, OP_OP, OP_MISC_MEM, OP_SYSTEM, OP_AMO, F3_AMO_W, F3_SLL, F3_SRL_SRA,
        F3_ADD_SUB, F7_MULDIV, AMO_LR, AMO_SC, AMO_SWAP, AMO_ADD, AMO_XOR, AMO_AND, AMO_OR, AMO_MIN, AMO_MAX,
        AMO_MINU, AMO_MAXU]
  rw [illegal, hrest.1, hrest.2.1, hrest.2.2, hpriv, hcsr]
  rfl

end QinglongCore.Decode
