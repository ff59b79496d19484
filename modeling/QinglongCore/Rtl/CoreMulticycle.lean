import QinglongCore.Rtl.CorePipeline

/-!
# Multicycle core (`core_multicycle.sv`)

The registers of the state machine, its combinational outputs, and one clock edge out of reset. The decode wires
that both cores write in the same words are those of `Decode`; everything that the two write in their own way is
written out here again.
-/

namespace QinglongCore.CoreMulticycle

/-! ## Registers -/

inductive Fsm where
  | fetch | exec | mem | div | amoStore | amoWait
  deriving DecidableEq, Repr

/-- What an instruction leaves behind when it waits for the data bus or for the divider. -/
structure Latch where
  addr : Word
  funct3 : BitVec 3
  rd : BitVec 5
  pc : Word
  instr : Word
  isLoad : Bool
  isLr : Bool
  isSc : Bool
  isRmw : Bool

structure State where
  fsm : Fsm
  pc : Word
  instr : Word
  fetchInflight : Bool
  fetchSquash : Bool
  lat : Latch
  amoOld : Word
  resv : CorePipeline.Resv
  divUnit : DivUnit.State
  csr : Csr.State
  regs : RegFile

/-- The two cores have the same ports. -/
abbrev In := CorePipeline.In

def reset (resetPc : Word) (regs : RegFile) : State where
  fsm := .fetch
  pc := resetPc
  instr := 0x00000013#32
  fetchInflight := false
  fetchSquash := false
  lat := ⟨0, 0, 0, 0, 0x00000013#32, false, false, false, false⟩
  amoOld := 0
  resv := ⟨false, 0⟩
  divUnit := DivUnit.reset
  csr := Csr.reset
  regs := regs

variable (s : State) (e : Ext) (i : In)

/-! ## Operands and ALU -/

def rs1Data : Word := s.regs.read (rs1Field s.instr)
def rs2Data : Word := s.regs.read (rs2Field s.instr)

def aluA : Word :=
  if Decode.isLui s.instr then 0#32
  else if Decode.isAuipc s.instr then s.pc
  else if Decode.isJal s.instr || Decode.isJalr s.instr then s.pc
  else rs1Data s

def aluB : Word :=
  if Decode.isLui s.instr then immU s.instr
  else if Decode.isAuipc s.instr then immU s.instr
  else if Decode.isJal s.instr || Decode.isJalr s.instr then 4#32
  else if Decode.isLoad s.instr then immI s.instr
  else if Decode.isStore s.instr then immS s.instr
  else if Decode.isAmoW s.instr then 0#32
  else if Decode.isBranch s.instr then rs2Data s
  else if Decode.isOpImm s.instr then immI s.instr
  else rs2Data s

def aluOp : BitVec 4 :=
  if Decode.isLui s.instr then 10#4
  else if Decode.isBranch s.instr then 1#4
  else if Decode.isOpImm s.instr then Decode.arithAluOp s.instr false
  else if Decode.isOp s.instr then Decode.arithAluOp s.instr true
  else 0#4

def aluResult : Word := aluY (aluOp s) (aluA s) (aluB s)

def mulResult : Word :=
  mulUnit (rs1Data s) (rs2Data s) (funct3 s.instr == F3_MULH || funct3 s.instr == F3_MULHSU)
    (funct3 s.instr == F3_MULH) (funct3 s.instr != F3_MUL)

/-! ## Illegal instructions -/

/-- The opcodes of the case, and the atomics among them. -/
def illegalMajor (w : Word) : Bool :=
  !(opcode w == OP_LUI || opcode w == OP_AUIPC || opcode w == OP_JAL || opcode w == OP_JALR || opcode w == OP_BRANCH ||
      opcode w == OP_LOAD || opcode w == OP_STORE || opcode w == OP_OP_IMM || opcode w == OP_OP ||
      opcode w == OP_MISC_MEM || opcode w == OP_SYSTEM || opcode w == OP_AMO) ||
    (opcode w == OP_AMO &&
      (funct3 w != F3_AMO_W || !(Decode.isLr w || Decode.isSc w || Decode.isAmoRmw w)))

/-- The immediate shifts and the register-register operations. -/
def illegalArith (w : Word) : Bool :=
  (Decode.isOpImm w && funct3 w == F3_SLL && funct7 w != 0b0000000#7) ||
    (Decode.isOpImm w && funct3 w == F3_SRL_SRA && funct7 w != 0b0000000#7 && funct7 w != 0b0100000#7) ||
    (Decode.isOp w &&
      !(funct7 w == 0b0000000#7 || (funct7 w == 0b0100000#7 && funct3 w == F3_ADD_SUB) ||
        (funct7 w == 0b0100000#7 && funct3 w == F3_SRL_SRA) || funct7 w == F7_MULDIV))

def illegalSystem (w : Word) (m : Decode.Mode) : Bool :=
  Decode.isSystem w && funct3 w == F3_PRIV &&
    if Decode.isSfence w then
      rdField w != 0#5 || m.priv == PRV_U || (m.priv == PRV_S && m.tvm)
    else
      !(csrField w == 0x000#12 || csrField w == 0x001#12 || csrField w == 0x102#12 || csrField w == 0x302#12 ||
          csrField w == 0x105#12) ||
        (rdField w != 0#5 || rs1Field w != 0#5) ||
        (csrField w == 0x302#12 && m.priv != PRV_M) ||
        (csrField w == 0x102#12 && (m.priv == PRV_U || (m.priv == PRV_S && m.tsr)))

def illegalOpcode (w : Word) (m : Decode.Mode) : Bool := illegalMajor w || illegalArith w || illegalSystem w m

/-- The privilege state that the decoder reads. -/
def mode : Decode.Mode := ⟨s.csr.privMode, Csr.mstatusTvm s.csr, Csr.mstatusTsr s.csr⟩

/-! ## The CSR command -/

/-- The command ports that do not depend on what commits. -/
def csrCmd : Csr.In where
  csrEn := false
  csrOp := funct3 s.instr
  csrAddr := csrField s.instr
  csrRs1OrImm := rs1Field s.instr
  csrWdata := if (funct3 s.instr).getLsbD 2 then (rs1Field s.instr).setWidth 32 else rs1Data s
  trapTake := false
  trapPc := 0
  trapCause := 0
  trapTval := 0
  mret := false
  sret := false
  retire := false

def csrIllegal : Bool := Csr.csrIllegal s.csr e (csrCmd s)
def csrRdata : Word := Csr.readValue s.csr e (csrCmd s)

/-! ## Targets and addresses -/

def branchTaken : Bool :=
  if funct3 s.instr = F3_BEQ then aluEq (aluA s) (aluB s)
  else if funct3 s.instr = F3_BNE then !aluEq (aluA s) (aluB s)
  else if funct3 s.instr = F3_BLT then aluLt (aluA s) (aluB s)
  else if funct3 s.instr = F3_BGE then !aluLt (aluA s) (aluB s)
  else if funct3 s.instr = F3_BLTU then aluLtu (aluA s) (aluB s)
  else if funct3 s.instr = F3_BGEU then !aluLtu (aluA s) (aluB s)
  else false

def jalTarget : Word := s.pc + immJ s.instr
def jalrTarget : Word := (rs1Data s + immI s.instr) &&& ~~~1#32
def branchTarget : Word := s.pc + immB s.instr
def memAddr : Word := aluResult s

def misaligned (a : Word) : Bool := a.extractLsb' 0 2 != 0#2

/-- `misaligned_target`, where `target_misaligned` is raised; a later assignment wins. -/
def misalignedTarget : Option Word :=
  if Decode.isBranch s.instr && branchTaken s && misaligned (branchTarget s) then some (branchTarget s)
  else if Decode.isJalr s.instr && misaligned (jalrTarget s) then some (jalrTarget s)
  else if Decode.isJal s.instr && misaligned (jalTarget s) then some (jalTarget s)
  else none

def lsMisaligned : Bool :=
  if funct3 s.instr = F3_LH ∨ funct3 s.instr = F3_LHU ∨ funct3 s.instr = F3_SH then (memAddr s).getLsbD 0
  else if funct3 s.instr = F3_LW ∨ funct3 s.instr = F3_SW then misaligned (memAddr s)
  else false

def amoMisaligned : Bool := Decode.isAmoW s.instr && misaligned (memAddr s)

/-! ## Exceptions of S_EXEC -/

/-- `exec_cause` and `exec_tval`, where `exec_trap` is raised. -/
def execTrap : Option (Word × Word) :=
  if Decode.isEcall s.instr then
    some (if s.csr.privMode = PRV_U then CAUSE_ECALL_FROM_U
      else if s.csr.privMode = PRV_S then CAUSE_ECALL_FROM_S else CAUSE_ECALL_FROM_M, 0)
  else if Decode.isEbreak s.instr then some (CAUSE_BREAKPOINT, 0)
  else if illegalOpcode s.instr (mode s) || (Decode.isCsr s.instr && csrIllegal s e) then
    some (CAUSE_ILLEGAL_INSN, s.instr)
  else match misalignedTarget s with
    | some t => some (CAUSE_INSN_ADDR_MISALIGNED, t)
    | none =>
        if Decode.isLoad s.instr && lsMisaligned s then some (CAUSE_LOAD_ADDR_MISALIGNED, memAddr s)
        else if Decode.isStore s.instr && lsMisaligned s then some (CAUSE_STORE_ADDR_MISALIGNED, memAddr s)
        else if Decode.isLr s.instr && amoMisaligned s then some (CAUSE_LOAD_ADDR_MISALIGNED, memAddr s)
        else if (Decode.isSc s.instr || Decode.isAmoRmw s.instr) && amoMisaligned s then
          some (CAUSE_STORE_ADDR_MISALIGNED, memAddr s)
        else none

/-! ## Store lanes, load alignment and atomics -/

def storeWdata : Word :=
  let b := (rs2Data s).extractLsb' 0 8
  let h := (rs2Data s).extractLsb' 0 16
  if funct3 s.instr = F3_SB then
    match (memAddr s).extractLsb' 0 2 with
    | 0#2 => 0#24 ++ b
    | 1#2 => 0#16 ++ b ++ 0#8
    | 2#2 => 0#8 ++ b ++ 0#16
    | _ => b ++ 0#24
  else if funct3 s.instr = F3_SH then
    if (memAddr s).getLsbD 1 then h ++ 0#16 else 0#16 ++ h
  else rs2Data s

def storeWmask : BitVec 4 :=
  if funct3 s.instr = F3_SB then
    match (memAddr s).extractLsb' 0 2 with
    | 0#2 => 0b0001#4
    | 1#2 => 0b0010#4
    | 2#2 => 0b0100#4
    | _ => 0b1000#4
  else if funct3 s.instr = F3_SH then
    if (memAddr s).getLsbD 1 then 0b1100#4 else 0b0011#4
  else 0b1111#4

def loadResult (rdata : Word) : Word := CorePipeline.loadAligned s.lat.funct3 s.lat.addr rdata

def scHit : Bool := s.resv.valid && s.resv.addr == (memAddr s).extractLsb' 2 30

def amoResult : Word :=
  if amoFunct5 s.instr = AMO_SWAP then rs2Data s
  else if amoFunct5 s.instr = AMO_ADD then s.amoOld + rs2Data s
  else if amoFunct5 s.instr = AMO_XOR then s.amoOld ^^^ rs2Data s
  else if amoFunct5 s.instr = AMO_AND then s.amoOld &&& rs2Data s
  else if amoFunct5 s.instr = AMO_OR then s.amoOld ||| rs2Data s
  else if amoFunct5 s.instr = AMO_MIN then (if s.amoOld.slt (rs2Data s) then s.amoOld else rs2Data s)
  else if amoFunct5 s.instr = AMO_MAX then (if s.amoOld.slt (rs2Data s) then rs2Data s else s.amoOld)
  else if amoFunct5 s.instr = AMO_MINU then (if s.amoOld.ult (rs2Data s) then s.amoOld else rs2Data s)
  else if amoFunct5 s.instr = AMO_MAXU then (if s.amoOld.ult (rs2Data s) then rs2Data s else s.amoOld)
  else 0#32

def arithWb : Word :=
  if Decode.isMul s.instr then mulResult s
  else if Decode.isCsr s.instr then csrRdata s e
  else if Decode.isJal s.instr || Decode.isJalr s.instr then s.pc + 4
  else aluResult s

/-! ## Which instruction S_EXEC performs -/

/-- The branches of S_EXEC behind the exceptions, in their order. -/
inductive Kind where
  | mret | sret | loadStore | lr | sc | amo | div | single
  deriving DecidableEq, Repr

def kind (w : Word) : Kind :=
  if Decode.isMret w then .mret
  else if Decode.isSret w then .sret
  else if Decode.isLoad w || Decode.isStore w then .loadStore
  else if Decode.isLr w then .lr
  else if Decode.isSc w then .sc
  else if Decode.isAmoRmw w then .amo
  else if Decode.isDiv w then .div
  else .single

/-! ## Buses -/

/-- `ifetch_req_valid` out of reset; the address is `pc_q`. -/
def ifetchReqValid : Bool := s.fsm == .fetch && !Csr.irqPending s.csr e

/-- `ifetch_rsp_ready`. -/
def ifetchRspReady : Bool := true

def ifetchAccept : Bool := ifetchReqValid s i.ext && i.ifetchReqReady

/-- The answer to the fetch of the current pc. -/
def rspConsumable : Bool := i.ifetchRspValid && s.fetchInflight && !s.fetchSquash

/-- S_EXEC issues a request to the data bus. -/
def execRequests : Bool :=
  (execTrap s e).isNone &&
    match kind s.instr with
    | .loadStore => true
    | .lr => true
    | .sc => scHit s
    | .amo => true
    | _ => false

def dmemReqValid : Bool :=
  match s.fsm with
  | .exec => execRequests s e
  | .amoStore => true
  | _ => false

def dmemReqAddr : Word :=
  match s.fsm with
  | .exec => alignWord (memAddr s)
  | .amoStore => alignWord s.lat.addr
  | _ => 0#32

def dmemReqWen : Bool :=
  match s.fsm with
  | .exec => Decode.isStore s.instr || Decode.isSc s.instr
  | .amoStore => true
  | _ => false

def dmemReqWdata : Word :=
  match s.fsm with
  | .exec =>
      match kind s.instr with
      | .loadStore => storeWdata s
      | .sc => rs2Data s
      | _ => 0#32
  | .amoStore => amoResult s
  | _ => 0#32

def dmemReqWmask : BitVec 4 :=
  match s.fsm with
  | .exec =>
      match kind s.instr with
      | .loadStore =>
          if Decode.isStore s.instr then storeWmask s
          else if funct3 s.instr = F3_LB ∨ funct3 s.instr = F3_LBU then 0b0001#4
          else if funct3 s.instr = F3_LH ∨ funct3 s.instr = F3_LHU then 0b0011#4
          else 0b1111#4
      | _ => 0b1111#4
  | .amoStore => 0b1111#4
  | _ => 0b0000#4

def dmemReqSize : BitVec 2 :=
  match s.fsm with
  | .exec =>
      match kind s.instr with
      | .loadStore =>
          if funct3 s.instr = F3_LB ∨ funct3 s.instr = F3_LBU ∨ funct3 s.instr = F3_SB then 0b00#2
          else if funct3 s.instr = F3_LH ∨ funct3 s.instr = F3_LHU ∨ funct3 s.instr = F3_SH then 0b01#2
          else 0b10#2
      | _ => 0b10#2
  | _ => 0b10#2

def dmemRspReady : Bool := s.fsm == .mem || s.fsm == .amoWait

def dmemAccept : Bool := dmemReqValid s i.ext && i.dmemReqReady

def dmemRspFails : Bool := i.dmemRspFault || i.dmemRspPagefault

/-! ## Commit -/

/-- The ports `commit_*`. -/
structure Commit where
  valid : Bool
  pc : Word
  insn : Word
  rdWen : Bool
  rdAddr : BitVec 5
  rdData : Word
  trap : Bool
  cause : Word

namespace Commit

def none (pc insn : Word) : Commit := ⟨false, pc, insn, false, 0, 0, false, 0⟩

def trapped (pc insn cause : Word) : Commit := ⟨true, pc, insn, false, 0, 0, true, cause⟩

/-- An instruction retires, with the value it writes to `rd`. -/
def retired (pc insn : Word) (wen : Bool) (rd : BitVec 5) (d : Word) : Commit :=
  ⟨true, pc, insn, wen && rd != 0#5, rd, d, false, 0⟩

end Commit

def singleWbEn : Bool :=
  Decode.isLui s.instr || Decode.isAuipc s.instr || Decode.isJal s.instr || Decode.isJalr s.instr ||
    Decode.isOpImm s.instr || Decode.isOp s.instr || Decode.isCsr s.instr

def commitFetch : Commit :=
  if Csr.irqPending s.csr i.ext then .trapped s.pc 0 (Csr.irqCause s.csr i.ext)
  else if rspConsumable s i && (i.ifetchRspFault || i.ifetchRspPagefault) then
    .trapped s.pc 0 (if i.ifetchRspPagefault then CAUSE_INSN_PAGE_FAULT else CAUSE_INSN_ACCESS_FAULT)
  else .none s.pc s.instr

def commitExec : Commit :=
  match execTrap s e with
  | some (c, _) => .trapped s.pc s.instr c
  | none =>
      match kind s.instr with
      | .mret => .retired s.pc s.instr false 0 0
      | .sret => .retired s.pc s.instr false 0 0
      | .sc => if scHit s then .none s.pc s.instr else .retired s.pc s.instr true (rdField s.instr) 1
      | .single => .retired s.pc s.instr (singleWbEn s) (rdField s.instr) (arithWb s e)
      | _ => .none s.pc s.instr

def commitMem : Commit :=
  if i.dmemRspValid then
    if dmemRspFails i then
      let isStoreOp := s.lat.isSc || s.lat.isRmw || !s.lat.isLoad
      .trapped s.lat.pc s.lat.instr
        (if i.dmemRspPagefault then (if isStoreOp then CAUSE_STORE_PAGE_FAULT else CAUSE_LOAD_PAGE_FAULT)
         else (if isStoreOp then CAUSE_STORE_ACCESS_FAULT else CAUSE_LOAD_ACCESS_FAULT))
    else if s.lat.isRmw then .none s.pc s.instr
    else if s.lat.isSc then .retired s.lat.pc s.lat.instr true s.lat.rd 0
    else .retired s.lat.pc s.lat.instr s.lat.isLoad s.lat.rd (loadResult s i.dmemRspRdata)
  else .none s.pc s.instr

def commitAmoWait : Commit :=
  if i.dmemRspValid then
    if dmemRspFails i then
      .trapped s.lat.pc s.lat.instr
        (if i.dmemRspPagefault then CAUSE_STORE_PAGE_FAULT else CAUSE_STORE_ACCESS_FAULT)
    else .retired s.lat.pc s.lat.instr true s.lat.rd s.amoOld
  else .none s.pc s.instr

def commitDiv : Commit :=
  if s.divUnit.done then .retired s.lat.pc s.lat.instr true s.lat.rd s.divUnit.result else .none s.pc s.instr

def commit : Commit :=
  match s.fsm with
  | .fetch => commitFetch s i
  | .exec => commitExec s i.ext
  | .mem => commitMem s i
  | .amoStore => .none s.pc s.instr
  | .amoWait => commitAmoWait s i
  | .div => commitDiv s

/-! ## The ports of the CSR file and of the divider -/

def trapPc : Word := if s.fsm = .mem ∨ s.fsm = .amoWait then s.lat.pc else s.pc

def trapTval : Word :=
  match s.fsm with
  | .exec => ((execTrap s e).map Prod.snd).getD 0#32
  | .mem => s.lat.addr
  | .amoWait => s.lat.addr
  | .fetch => if Csr.irqPending s.csr e then 0#32 else s.pc
  | _ => s.pc

def doMret : Bool := s.fsm == .exec && Decode.isMret s.instr && (execTrap s e).isNone
def doSret : Bool := s.fsm == .exec && Decode.isSret s.instr && (execTrap s e).isNone

def csrIn : Csr.In :=
  { csrCmd s with
    csrEn := s.fsm == .exec && Decode.isCsr s.instr && (execTrap s i.ext).isNone
    trapTake := (commit s i).trap
    trapPc := trapPc s
    trapCause := (commit s i).cause
    trapTval := trapTval s i.ext
    mret := doMret s i.ext
    sret := doSret s i.ext
    retire := (commit s i).valid && !(commit s i).trap }

def trapTvec : Word := if Csr.trapToS s.csr (csrIn s i) then s.csr.stvec else s.csr.mtvec

def divStart : Bool := s.fsm == .exec && (execTrap s e).isNone && kind s.instr == .div

def divIn : DivUnit.In where
  start := divStart s e
  isSigned := !(funct3 s.instr).getLsbD 0
  wantRem := (funct3 s.instr).getLsbD 1
  dividend := rs1Data s
  divisor := rs2Data s

/-! ## Next state -/

def fsmExec : Fsm :=
  if (execTrap s i.ext).isSome then .fetch
  else match kind s.instr with
    | .loadStore => if i.dmemReqReady then .mem else .exec
    | .lr => if i.dmemReqReady then .mem else .exec
    | .sc => if scHit s then (if i.dmemReqReady then .mem else .exec) else .fetch
    | .amo => if i.dmemReqReady then .mem else .exec
    | .div => .div
    | _ => .fetch

def fsmNext : Fsm :=
  match s.fsm with
  | .fetch =>
      if !Csr.irqPending s.csr i.ext && rspConsumable s i && !(i.ifetchRspFault || i.ifetchRspPagefault) then .exec
      else .fetch
  | .exec => fsmExec s i
  | .mem =>
      if i.dmemRspValid then (if !dmemRspFails i && s.lat.isRmw then .amoStore else .fetch) else .mem
  | .amoStore => if i.dmemReqReady then .amoWait else .amoStore
  | .amoWait => if i.dmemRspValid then .fetch else .amoWait
  | .div => if s.divUnit.done then .fetch else .div

/-- The base of the vector. -/
def trapBase : Word := alignWord (trapTvec s i)

/-- `pc_d` of an instruction that commits in S_EXEC without a trap. -/
def execPc : Word :=
  match kind s.instr with
  | .mret => s.csr.mepc
  | .sret => s.csr.sepc
  | .single =>
      if Decode.isJal s.instr then jalTarget s
      else if Decode.isJalr s.instr then jalrTarget s
      else if Decode.isBranch s.instr && branchTaken s then branchTarget s
      else s.pc + 4
  | _ => s.pc + 4

def pcNext : Word :=
  if (commit s i).valid then
    if (commit s i).trap then
      -- only an interrupt uses the vectored mode
      if s.fsm = .fetch ∧ Csr.irqPending s.csr i.ext = true ∧ (trapTvec s i).getLsbD 0 = true then
        trapBase s i + (0#26 ++ (Csr.irqCause s.csr i.ext).extractLsb' 0 4 ++ 0#2)
      else trapBase s i
    else if s.fsm = .exec then execPc s
    else s.lat.pc + 4
  else s.pc

def instrNext : Word :=
  if s.fsm = .fetch ∧ Csr.irqPending s.csr i.ext = false ∧ rspConsumable s i = true ∧
      (i.ifetchRspFault || i.ifetchRspPagefault) = false then i.ifetchRspData
  else s.instr

/-- An answer ends the fetch in flight; a request accepted without one in flight starts it. -/
def fetchInflightNext : Bool :=
  if s.fsm = .fetch ∧ (ifetchAccept s i && !s.fetchInflight) = true then true
  else if s.fetchInflight && i.ifetchRspValid then false
  else s.fetchInflight

def fetchSquashNext : Bool :=
  if s.fsm = .fetch ∧ (Csr.irqPending s.csr i.ext && s.fetchInflight && !i.ifetchRspValid) = true then true
  else if s.fetchInflight && i.ifetchRspValid then false
  else s.fetchSquash

/-- What an accepted request of S_EXEC, or the start of the divider, latches. -/
def execLatch : Latch :=
  match kind s.instr with
  | .loadStore =>
      ⟨memAddr s, funct3 s.instr, rdField s.instr, s.pc, s.instr, Decode.isLoad s.instr, false, false, false⟩
  | .lr => ⟨memAddr s, F3_LW, rdField s.instr, s.pc, s.instr, true, true, false, false⟩
  | .sc => ⟨memAddr s, F3_SW, rdField s.instr, s.pc, s.instr, false, false, true, false⟩
  | .amo => ⟨memAddr s, F3_LW, rdField s.instr, s.pc, s.instr, true, false, false, true⟩
  | .div => { s.lat with rd := rdField s.instr, pc := s.pc, instr := s.instr }
  | _ => s.lat

def latNext : Latch :=
  match s.fsm with
  | .exec =>
      if (execRequests s i.ext && i.dmemReqReady) || divStart s i.ext then execLatch s else s.lat
  | .mem =>
      if i.dmemRspValid then
        if dmemRspFails i then { s.lat with isLr := false, isSc := false, isRmw := false }
        else if s.lat.isRmw then s.lat
        else { s.lat with isLr := false, isSc := false }
      else s.lat
  | .amoWait => if i.dmemRspValid then { s.lat with isRmw := false } else s.lat
  | _ => s.lat

def amoOldNext : Word :=
  if s.fsm = .mem ∧ i.dmemRspValid = true ∧ dmemRspFails i = false ∧ s.lat.isRmw = true then i.dmemRspRdata
  else s.amoOld

/-- The reservation. S_FETCH, which takes interrupts and fetch faults, does not clear it. -/
def resvNext : CorePipeline.Resv :=
  match s.fsm with
  | .exec =>
      if (execTrap s i.ext).isSome then { s.resv with valid := false }
      else if kind s.instr = .sc ∧ (scHit s = true → i.dmemReqReady = true) then { s.resv with valid := false }
      else s.resv
  | .mem =>
      if i.dmemRspValid then
        if dmemRspFails i then { s.resv with valid := false }
        else if s.lat.isRmw then s.resv
        else if s.lat.isLr then ⟨true, s.lat.addr.extractLsb' 2 30⟩
        else s.resv
      else s.resv
  | .amoWait => if i.dmemRspValid then { s.resv with valid := false } else s.resv
  | _ => s.resv

/-- One clock edge out of reset. -/
def step : State where
  fsm := fsmNext s i
  pc := pcNext s i
  instr := instrNext s i
  fetchInflight := fetchInflightNext s i
  fetchSquash := fetchSquashNext s i
  lat := latNext s i
  amoOld := amoOldNext s i
  resv := resvNext s i
  divUnit := DivUnit.step s.divUnit (divIn s i.ext)
  csr := Csr.step s.csr i.ext (csrIn s i)
  regs := s.regs.write (commit s i).rdWen (commit s i).rdAddr (commit s i).rdData

/-- The core out of reset, in cycle `t` of a run. -/
abbrev run (resetPc : Word) (regs : RegFile) (inp : Nat → In) : Nat → State :=
  Sync.run step (reset resetPc regs) inp

end QinglongCore.CoreMulticycle
