import QinglongCore.Rtl.Datapath
import QinglongCore.Rtl.Csr

/-!
# Instruction decode of the ID stage (`core_pipeline.sv`)

The wires `id_is_*`, `id_illegal`, the immediate and the ALU controls, as functions of the word in ID.
-/

namespace QinglongCore.Decode

variable (w : Word)

def isLui : Bool := opcode w == OP_LUI
def isAuipc : Bool := opcode w == OP_AUIPC
def isJal : Bool := opcode w == OP_JAL
def isJalr : Bool := opcode w == OP_JALR
def isBranch : Bool := opcode w == OP_BRANCH
def isLoad : Bool := opcode w == OP_LOAD
def isStore : Bool := opcode w == OP_STORE
def isOpImm : Bool := opcode w == OP_OP_IMM
def isOp : Bool := opcode w == OP_OP
def isMisc : Bool := opcode w == OP_MISC_MEM
def isSystem : Bool := opcode w == OP_SYSTEM
def isAmo : Bool := opcode w == OP_AMO

/-- The SYSTEM instructions with `funct3 = 0` and the given upper field. -/
def isPriv (f : BitVec 12) : Bool := isSystem w && funct3 w == F3_PRIV && csrField w == f

def isEcall : Bool := isPriv w 0x000#12
def isEbreak : Bool := isPriv w 0x001#12
def isMret : Bool := isPriv w 0x302#12
def isSret : Bool := isPriv w 0x102#12
def isWfi : Bool := isPriv w 0x105#12
def isSfence : Bool := isSystem w && funct3 w == F3_PRIV && funct7 w == 0b0001001#7
def isCsr : Bool := isSystem w && funct3 w != F3_PRIV
def isMuldiv : Bool := isOp w && funct7 w == F7_MULDIV
def isMul : Bool := isMuldiv w && !(funct3 w).getLsbD 2
def isDiv : Bool := isMuldiv w && (funct3 w).getLsbD 2

def isAmoW : Bool := isAmo w && funct3 w == F3_AMO_W
def isLr : Bool := isAmoW w && amoFunct5 w == AMO_LR && rs2Field w == 0#5
def isSc : Bool := isAmoW w && amoFunct5 w == AMO_SC

def isAmoRmw : Bool :=
  isAmoW w && !isLr w && !isSc w &&
    (amoFunct5 w == AMO_SWAP || amoFunct5 w == AMO_ADD || amoFunct5 w == AMO_XOR ||
      amoFunct5 w == AMO_AND || amoFunct5 w == AMO_OR || amoFunct5 w == AMO_MIN ||
      amoFunct5 w == AMO_MAX || amoFunct5 w == AMO_MINU || amoFunct5 w == AMO_MAXU)

def isAtomic : Bool := isLr w || isSc w || isAmoRmw w

def isSerial : Bool :=
  isCsr w || isMret w || isSret w || isEcall w || isEbreak w || isWfi w || isMisc w || isAtomic w ||
    isSfence w

def rs1Used : Bool :=
  isJalr w || isBranch w || isLoad w || isStore w || isOpImm w || isOp w || isAtomic w ||
    (isCsr w && !(funct3 w).getLsbD 2)

def rs2Used : Bool := isBranch w || isStore w || isOp w || isSc w || isAmoRmw w

def writesRd : Bool :=
  (isLui w || isAuipc w || isJal w || isJalr w || isLoad w || isOpImm w || isOp w || isCsr w ||
    isAtomic w) && rdField w != 0#5

/-! ## Illegal instructions -/

def illegalOpcode : Bool :=
  !(isLui w || isAuipc w || isJal w || isJalr w || isBranch w || isLoad w || isStore w ||
    isOpImm w || isOp w || isMisc w || isSystem w || (isAmo w && isAmoW w && isAtomic w))

def illegalOpImm : Bool :=
  isOpImm w &&
    if funct3 w = F3_SLL then funct7 w != 0b0000000#7
    else if funct3 w = F3_SRL_SRA then funct7 w != 0b0000000#7 && funct7 w != 0b0100000#7
    else false

def illegalOp : Bool :=
  isOp w &&
    !(funct7 w == 0b0000000#7 || funct7 w == F7_MULDIV ||
      (funct7 w == 0b0100000#7 && (funct3 w == F3_ADD_SUB || funct3 w == F3_SRL_SRA)))

/-- The privilege state that the decoder reads from the CSR file. -/
structure Mode where
  priv : BitVec 2
  tvm : Bool
  tsr : Bool
  deriving DecidableEq

variable (m : Mode)

def illegalPriv : Bool :=
  isSystem w && funct3 w == F3_PRIV &&
    if isSfence w then
      rdField w != 0#5 || m.priv == PRV_U || (m.priv == PRV_S && m.tvm)
    else
      !(csrField w == 0x000#12 || csrField w == 0x001#12 || csrField w == 0x302#12 ||
          csrField w == 0x102#12 || csrField w == 0x105#12) ||
        (rdField w != 0#5 || rs1Field w != 0#5) ||
        (isSret w && m.priv == PRV_U) || (isSret w && m.priv == PRV_S && m.tsr) ||
        (isMret w && m.priv != PRV_M)

def csrWrites : Bool :=
  if funct3 w = F3_CSRRW ∨ funct3 w = F3_CSRRWI then true
  else if funct3 w = F3_CSRRS ∨ funct3 w = F3_CSRRC ∨ funct3 w = F3_CSRRSI ∨ funct3 w = F3_CSRRCI then
    rs1Field w != 0#5
  else false

/-- The CSR map of the decoder. -/
def csrImplemented (a : BitVec 12) : Bool :=
  a == CSR_MSTATUS || a == CSR_MISA || a == CSR_MIE || a == CSR_MIP || a == CSR_MEDELEG ||
    a == CSR_MIDELEG || a == CSR_MTVEC || a == CSR_MSCRATCH || a == CSR_MEPC || a == CSR_MCAUSE ||
    a == CSR_MTVAL || a == CSR_MCYCLE || a == CSR_MCYCLEH || a == CSR_MINSTRET || a == CSR_MINSTRETH ||
    a == CSR_CYCLE || a == CSR_CYCLEH || a == CSR_INSTRET || a == CSR_INSTRETH || a == CSR_MHARTID ||
    a == CSR_MVENDORID || a == CSR_MARCHID || a == CSR_MIMPID || a == CSR_SSTATUS || a == CSR_SIE ||
    a == CSR_SIP || a == CSR_STVEC || a == CSR_SCOUNTEREN || a == CSR_SSCRATCH || a == CSR_SEPC ||
    a == CSR_SCAUSE || a == CSR_STVAL || a == CSR_SATP || (Csr.pmpcfgIdx a).isSome ||
    (Csr.pmpaddrIdx a).isSome

def illegalCsr : Bool :=
  isCsr w &&
    ((csrField w).extractLsb' 10 2 == 0b11#2 && csrWrites w ||
      m.priv.ult ((csrField w).extractLsb' 8 2) || !csrImplemented (csrField w) ||
      (csrField w == CSR_SATP && m.priv == PRV_S && m.tvm))

def illegal : Bool :=
  illegalOpcode w || illegalOpImm w || illegalOp w || illegalPriv w m || illegalCsr w m

/-! ## Immediate and ALU controls -/

def imm : Word :=
  if isLui w || isAuipc w then immU w
  else if isJal w then immJ w
  else if isStore w then immS w
  else if isBranch w then immB w
  else immI w

/-- The ALU operation of an OP-IMM or OP word. -/
def arithAluOp (sub : Bool) : BitVec 4 :=
  if funct3 w = F3_ADD_SUB then (if sub && (funct7 w).getLsbD 5 then 1#4 else 0#4)
  else if funct3 w = F3_SLL then 5#4
  else if funct3 w = F3_SLT then 8#4
  else if funct3 w = F3_SLTU then 9#4
  else if funct3 w = F3_XOR then 4#4
  else if funct3 w = F3_SRL_SRA then (if (funct7 w).getLsbD 5 then 7#4 else 6#4)
  else if funct3 w = F3_OR then 3#4
  else if funct3 w = F3_AND then 2#4
  else 0#4

def aluASel : BitVec 2 :=
  if isLui w then 2#2 else if isAuipc w then 1#2 else if isJal w || isJalr w then 1#2 else 0#2

def aluBSel : BitVec 2 :=
  if isLui w || isAuipc w then 1#2
  else if isJal w || isJalr w then 2#2
  else if isLoad w || isStore w then 1#2
  else if isBranch w then 0#2
  else if isOpImm w then 1#2
  else 0#2

def aluOp : BitVec 4 :=
  if isLui w then 10#4
  else if isBranch w then 1#4
  else if isOpImm w then arithAluOp w false
  else if isOp w then arithAluOp w true
  else 0#4

/-! ## Classes of bus instructions -/

section
variable {w : Word}

theorem of_isAmoRmw (h : isAmoRmw w = true) :
    isAmo w = true ∧ isLr w = false ∧ isSc w = false := by
  simp only [isAmoRmw, isAmoW, Bool.and_eq_true, Bool.not_eq_true'] at h
  exact ⟨h.1.1.1.1, h.1.1.2, h.1.2⟩

/-- An atomic is no plain load or store. -/
theorem of_isAmo (h : isAmo w = true) : isLoad w = false ∧ isStore w = false := by
  have ho : opcode w = OP_AMO := by simpa [isAmo] using h
  simp [isLoad, isStore, ho, OP_LOAD, OP_STORE, OP_AMO]

theorem isAmo_of_isSc (h : isSc w = true) : isAmo w = true := by
  simp only [isSc, isAmoW, Bool.and_eq_true] at h
  exact h.1.1

theorem isAmo_of_isLr (h : isLr w = true) : isAmo w = true := by
  simp only [isLr, isAmoW, Bool.and_eq_true] at h
  exact h.1.1.1

/-- LR and SC have different function fields. -/
theorem of_isSc (h : isSc w = true) : isLr w = false ∧ isAmoRmw w = false := by
  have hf : amoFunct5 w = AMO_SC := by
    simp only [isSc, Bool.and_eq_true, beq_iff_eq] at h
    exact h.2
  exact ⟨by simp [isLr, hf, AMO_LR, AMO_SC], by simp [isAmoRmw, h]⟩

theorem of_isLr (h : isLr w = true) : isSc w = false ∧ isAmoRmw w = false := by
  refine ⟨?_, by simp [isAmoRmw, h]⟩
  cases hs : isSc w
  · rfl
  · rw [(of_isSc hs).1] at h; exact absurd h (by simp)

/-- A plain load or store is no atomic. -/
theorem not_atomic_of_access (h : (isLoad w || isStore w) = true) :
    isLr w = false ∧ isSc w = false ∧ isAmoRmw w = false := by
  have ha : isAmo w = false := by
    cases ha : isAmo w
    · rfl
    · obtain ⟨hl, hs⟩ := of_isAmo ha
      simp [hl, hs] at h
  simp [isLr, isSc, isAmoRmw, isAmoW, ha]

theorem writesRd_of_isStore (h : isStore w = true) : writesRd w = false := by
  have ho : opcode w = OP_STORE := by simpa [isStore] using h
  obtain ⟨hlr, hsc, ha⟩ := not_atomic_of_access (w := w) (by simp [h])
  simp [writesRd, isLui, isAuipc, isJal, isJalr, isLoad, isOpImm, isOp, isCsr, isSystem, isAtomic, hlr, hsc, ha, ho,
    OP_STORE, OP_LUI, OP_AUIPC, OP_JAL, OP_JALR, OP_LOAD, OP_OP_IMM, OP_OP, OP_SYSTEM]

theorem isStore_of_isLoad (h : isLoad w = true) : isStore w = false := by
  have ho : opcode w = OP_LOAD := by simpa [isLoad] using h
  simp [isStore, ho, OP_LOAD, OP_STORE]

theorem isAmoW_of_isAtomic (h : isAtomic w = true) : isAmoW w = true := by
  simp only [isAtomic, isLr, isSc, isAmoRmw, Bool.or_eq_true, Bool.and_eq_true] at h
  rcases h with (h | h) | h
  · exact h.1.1
  · exact h.1
  · exact h.1.1.1

theorem opcode_of_isAtomic (h : isAtomic w = true) : opcode w = OP_AMO := by
  have hw := isAmoW_of_isAtomic h
  simp only [isAmoW, isAmo, Bool.and_eq_true, beq_iff_eq] at hw
  exact hw.1

theorem not_atomic_of_opcode (h : opcode w ≠ OP_AMO) : isAtomic w = false := by
  cases ha : isAtomic w
  · rfl
  · exact absurd (opcode_of_isAtomic ha) h

end

end QinglongCore.Decode
