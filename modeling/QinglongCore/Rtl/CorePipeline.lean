import QinglongCore.Rtl.Decode
import QinglongCore.Rtl.DivUnit
import QinglongCore.Base.Sync

/-!
# Pipelined core (`core_pipeline.sv`)

The registers of the five stages, the control wires, and one clock edge out of reset. Wires are functions
of the registers; the bus responses enter only the next-state functions.
-/

namespace QinglongCore.CorePipeline

/-! ## Registers -/

/-- The fetch pc and the in-flight tracker. -/
structure FetchReg where
  pc : Word
  inflight : Bool
  inflightPc : Word
  squash : Bool

structure IfId where
  valid : Bool
  pc : Word
  instr : Word
  fault : Bool
  pagefault : Bool
  irq : Bool
  irqCause : Word

/-- The flags decoded in ID that a bubble clears. -/
structure Ctrl where
  rdWen : Bool
  isJal : Bool
  isJalr : Bool
  isBranch : Bool
  isLoad : Bool
  isStore : Bool
  isCsr : Bool
  isEcall : Bool
  isEbreak : Bool
  isMret : Bool
  isSret : Bool
  isMul : Bool
  isDiv : Bool
  isLr : Bool
  isSc : Bool
  isAmoRmw : Bool
  isSerial : Bool
  fetchFault : Bool
  fetchPagefault : Bool
  illegal : Bool
  irq : Bool

def Ctrl.bubble : Ctrl where
  rdWen := false
  isJal := false
  isJalr := false
  isBranch := false
  isLoad := false
  isStore := false
  isCsr := false
  isEcall := false
  isEbreak := false
  isMret := false
  isSret := false
  isMul := false
  isDiv := false
  isLr := false
  isSc := false
  isAmoRmw := false
  isSerial := false
  fetchFault := false
  fetchPagefault := false
  illegal := false
  irq := false

structure IdEx where
  valid : Bool
  pc : Word
  instr : Word
  rs1Data : Word
  rs2Data : Word
  imm : Word
  aluOp : BitVec 4
  aluASel : BitVec 2
  aluBSel : BitVec 2
  rd : BitVec 5
  rs1 : BitVec 5
  rs2 : BitVec 5
  funct3 : BitVec 3
  csrAddr : BitVec 12
  amoFunct5 : BitVec 5
  irqCause : Word
  ctrl : Ctrl

structure ExMem where
  valid : Bool
  pc : Word
  instr : Word
  aluY : Word
  hasResult : Bool
  result : Word
  storeWdata : Word
  storeWmask : BitVec 4
  funct3 : BitVec 3
  rd : BitVec 5
  rdWen : Bool
  isLoad : Bool
  isStore : Bool
  isCsr : Bool
  isMret : Bool
  isSret : Bool
  isSerial : Bool
  isLr : Bool
  isSc : Bool
  isAmoRmw : Bool
  amoFunct5 : BitVec 5
  amoRs2 : Word
  amoPhase : Bool
  csrAddr : BitVec 12
  csrWdata : Word
  csrOp : BitVec 3
  csrRs1imm : BitVec 5
  sfenceRs1 : Word
  sfenceRs2 : Word
  trap : Bool
  cause : Word
  tval : Word
  lsPending : Bool

/-- `mem_has_bus_op`. -/
def ExMem.hasBusOp (m : ExMem) : Bool := m.isLoad || m.isStore || m.isLr || m.isSc || m.isAmoRmw

/-- The registers beside EX/MEM that follow the data bus. -/
structure MemBus where
  reqFired : Bool
  busFault : Bool
  busPagefault : Bool
  loadData : Word
  amoOld : Word

structure MemWb where
  valid : Bool
  pc : Word
  instr : Word
  rd : BitVec 5
  rdWen : Bool
  result : Word
  trap : Bool
  cause : Word
  tval : Word
  isMret : Bool
  isSret : Bool
  isCsr : Bool
  isSerial : Bool
  csrAddr : BitVec 12
  csrWdata : Word
  csrOp : BitVec 3
  csrRs1imm : BitVec 5
  sfenceRs1 : Word
  sfenceRs2 : Word

/-- The divider's control beside the ID/EX register. -/
structure DivReg where
  started : Bool
  doneLatched : Bool
  result : Word

/-- The reservation of LR/SC. -/
structure Resv where
  valid : Bool
  addr : BitVec 30

structure State where
  fetch : FetchReg
  id : IfId
  ex : IdEx
  mem : ExMem
  bus : MemBus
  wb : MemWb
  div : DivReg
  divUnit : DivUnit.State
  resv : Resv
  trapPending : Bool
  csr : Csr.State
  regs : RegFile

/-- The input ports of one cycle. -/
structure In where
  ifetchReqReady : Bool
  ifetchRspValid : Bool
  ifetchRspData : Word
  ifetchRspFault : Bool
  ifetchRspPagefault : Bool
  dmemReqReady : Bool
  dmemRspValid : Bool
  dmemRspRdata : Word
  dmemRspFault : Bool
  dmemRspPagefault : Bool
  ext : Ext

/-- No bus line and no interrupt line is raised. -/
def In.quiet : In where
  ifetchReqReady := false
  ifetchRspValid := false
  ifetchRspData := 0
  ifetchRspFault := false
  ifetchRspPagefault := false
  dmemReqReady := false
  dmemRspValid := false
  dmemRspRdata := 0
  dmemRspFault := false
  dmemRspPagefault := false
  ext := ⟨false, false, false, false, 0⟩

/-- The fetch bus accepts, and answers with `w` if there is one. -/
def In.fetching (w : Option Word) : In :=
  { In.quiet with ifetchReqReady := true, ifetchRspValid := w.isSome, ifetchRspData := w.getD 0#32 }

/-- The state after reset. The register file has no reset, so its contents are a parameter. -/
def reset (resetPc : Word) (regs : RegFile) : State where
  fetch := { pc := resetPc, inflight := false, inflightPc := 0, squash := false }
  id := { valid := false, pc := 0, instr := 0x00000013#32, fault := false, pagefault := false,
          irq := false, irqCause := 0 }
  ex := { valid := false, pc := 0, instr := 0x00000013#32, rs1Data := 0, rs2Data := 0, imm := 0,
          aluOp := 0, aluASel := 0, aluBSel := 0, rd := 0, rs1 := 0, rs2 := 0, funct3 := 0,
          csrAddr := 0, amoFunct5 := 0, irqCause := 0, ctrl := Ctrl.bubble }
  mem := { valid := false, pc := 0, instr := 0x00000013#32, aluY := 0, hasResult := false, result := 0,
           storeWdata := 0, storeWmask := 0, funct3 := 0, rd := 0, rdWen := false, isLoad := false,
           isStore := false, isCsr := false, isMret := false, isSret := false, isSerial := false,
           isLr := false, isSc := false, isAmoRmw := false, amoFunct5 := 0, amoRs2 := 0,
           amoPhase := false, csrAddr := 0, csrWdata := 0, csrOp := 0, csrRs1imm := 0, sfenceRs1 := 0,
           sfenceRs2 := 0, trap := false, cause := 0, tval := 0, lsPending := false }
  bus := { reqFired := false, busFault := false, busPagefault := false, loadData := 0, amoOld := 0 }
  wb := { valid := false, pc := 0, instr := 0x00000013#32, rd := 0, rdWen := false, result := 0,
          trap := false, cause := 0, tval := 0, isMret := false, isSret := false, isCsr := false,
          isSerial := false, csrAddr := 0, csrWdata := 0, csrOp := 0, csrRs1imm := 0, sfenceRs1 := 0,
          sfenceRs2 := 0 }
  div := { started := false, doneLatched := false, result := 0 }
  divUnit := DivUnit.reset
  resv := { valid := false, addr := 0 }
  trapPending := false
  csr := Csr.reset
  regs := regs

/-! ## EX: what an instruction computes from its operands -/

namespace IdEx

variable (ex : IdEx) (rs1 rs2 : Word)

def aluA : Word :=
  if ex.aluASel = 0#2 then rs1 else if ex.aluASel = 1#2 then ex.pc
  else if ex.aluASel = 2#2 then 0#32 else rs1

def aluB : Word :=
  if ex.aluBSel = 0#2 then rs2 else if ex.aluBSel = 1#2 then ex.imm
  else if ex.aluBSel = 2#2 then 4#32 else rs2

def aluResult : Word := aluY ex.aluOp (ex.aluA rs1) (ex.aluB rs2)

def branchTaken : Bool :=
  if ex.funct3 = F3_BEQ then aluEq (ex.aluA rs1) (ex.aluB rs2)
  else if ex.funct3 = F3_BNE then !aluEq (ex.aluA rs1) (ex.aluB rs2)
  else if ex.funct3 = F3_BLT then aluLt (ex.aluA rs1) (ex.aluB rs2)
  else if ex.funct3 = F3_BGE then !aluLt (ex.aluA rs1) (ex.aluB rs2)
  else if ex.funct3 = F3_BLTU then aluLtu (ex.aluA rs1) (ex.aluB rs2)
  else if ex.funct3 = F3_BGEU then !aluLtu (ex.aluA rs1) (ex.aluB rs2)
  else false

def jalTarget : Word := ex.pc + ex.imm
def jalrTarget : Word := (rs1 + ex.imm) &&& ~~~1#32
def branchTarget : Word := ex.pc + ex.imm
def isAtomic : Bool := ex.ctrl.isLr || ex.ctrl.isSc || ex.ctrl.isAmoRmw
def lsAddr : Word := if ex.isAtomic then rs1 else rs1 + ex.imm
def takeBranch : Bool := ex.valid && ex.ctrl.isBranch && ex.branchTaken rs1 rs2
def takeJal : Bool := ex.valid && ex.ctrl.isJal
def takeJalr : Bool := ex.valid && ex.ctrl.isJalr

def misaligned (a : Word) : Bool := a.extractLsb' 0 2 != 0#2

/-- `ex_misaligned_target`, where `ex_target_misaligned` is raised. -/
def misalignedTarget : Option Word :=
  if ex.takeBranch rs1 rs2 && misaligned ex.branchTarget then some ex.branchTarget
  else if ex.takeJalr && misaligned (ex.jalrTarget rs1) then some (ex.jalrTarget rs1)
  else if ex.takeJal && misaligned ex.jalTarget then some ex.jalTarget
  else none

def lsMisaligned : Bool :=
  if ex.valid && ex.isAtomic then misaligned (ex.lsAddr rs1)
  else if ex.valid && (ex.ctrl.isLoad || ex.ctrl.isStore) then
    if ex.funct3 = F3_LH ∨ ex.funct3 = F3_LHU ∨ ex.funct3 = F3_SH then (ex.lsAddr rs1).getLsbD 0
    else if ex.funct3 = F3_LW ∨ ex.funct3 = F3_SW then misaligned (ex.lsAddr rs1)
    else false
  else false

def mulResult : Word :=
  mulUnit rs1 rs2 (ex.funct3 == F3_MULH || ex.funct3 == F3_MULHSU) (ex.funct3 == F3_MULH)
    (ex.funct3 != F3_MUL)

/-- The operand ports of the divider, with its start pulse. -/
def divIn (start : Bool) : DivUnit.In where
  start := start
  isSigned := !ex.funct3.getLsbD 0
  wantRem := ex.funct3.getLsbD 1
  dividend := rs1
  divisor := rs2

def arithWb (divResult : Word) : Word :=
  if ex.ctrl.isDiv then divResult
  else if ex.ctrl.isMul then ex.mulResult rs1 rs2
  else if ex.ctrl.isJal || ex.ctrl.isJalr then ex.pc + 4
  else ex.aluResult rs1 rs2

/-- Cause and value of the exception raised in EX. -/
def trapInfo (priv : BitVec 2) : Option (Word × Word) :=
  if !ex.valid then none
  else if ex.ctrl.irq then some (ex.irqCause, 0)
  else if ex.ctrl.fetchPagefault then some (CAUSE_INSN_PAGE_FAULT, ex.pc)
  else if ex.ctrl.fetchFault then some (CAUSE_INSN_ACCESS_FAULT, ex.pc)
  else if ex.ctrl.illegal then some (CAUSE_ILLEGAL_INSN, ex.instr)
  else if ex.ctrl.isEcall then
    some (if priv = PRV_U then CAUSE_ECALL_FROM_U else if priv = PRV_S then CAUSE_ECALL_FROM_S
      else CAUSE_ECALL_FROM_M, 0)
  else if ex.ctrl.isEbreak then some (CAUSE_BREAKPOINT, 0)
  else match ex.misalignedTarget rs1 rs2 with
    | some t => some (CAUSE_INSN_ADDR_MISALIGNED, t)
    | none =>
        if (ex.ctrl.isLoad || ex.ctrl.isLr) && ex.lsMisaligned rs1 then
          some (CAUSE_LOAD_ADDR_MISALIGNED, ex.lsAddr rs1)
        else if (ex.ctrl.isStore || ex.ctrl.isSc || ex.ctrl.isAmoRmw) && ex.lsMisaligned rs1 then
          some (CAUSE_STORE_ADDR_MISALIGNED, ex.lsAddr rs1)
        else none

def storeWdata : Word :=
  let b := rs2.extractLsb' 0 8
  let h := rs2.extractLsb' 0 16
  if ex.funct3 = F3_SB then
    match (ex.lsAddr rs1).extractLsb' 0 2 with
    | 0#2 => 0#24 ++ b
    | 1#2 => 0#16 ++ b ++ 0#8
    | 2#2 => 0#8 ++ b ++ 0#16
    | _ => b ++ 0#24
  else if ex.funct3 = F3_SH then
    if (ex.lsAddr rs1).getLsbD 1 then h ++ 0#16 else 0#16 ++ h
  else rs2

def storeWmask : BitVec 4 :=
  if ex.funct3 = F3_SB then
    match (ex.lsAddr rs1).extractLsb' 0 2 with
    | 0#2 => 0b0001#4
    | 1#2 => 0b0010#4
    | 2#2 => 0b0100#4
    | _ => 0b1000#4
  else if ex.funct3 = F3_SH then
    if (ex.lsAddr rs1).getLsbD 1 then 0b1100#4 else 0b0011#4
  else 0b1111#4

end IdEx

/-! ## Control wires -/

variable (s : State) (i : In)

def priv : BitVec 2 := s.csr.privMode

/-- Operand forwarding into EX: MEM arithmetic over the stored result of WB over the value read in ID. -/
def forward (a : BitVec 5) (d : Word) : Word :=
  if s.mem.valid && s.mem.hasResult && s.mem.rdWen && s.mem.rd != 0#5 && s.mem.rd == a then s.mem.result
  else if s.wb.valid && s.wb.rdWen && s.wb.rd != 0#5 && s.wb.rd == a then s.wb.result
  else d

def exRs1Fwd : Word := forward s s.ex.rs1 s.ex.rs1Data
def exRs2Fwd : Word := forward s s.ex.rs2 s.ex.rs2Data

def exTrapInfo : Option (Word × Word) := s.ex.trapInfo (exRs1Fwd s) (exRs2Fwd s) (priv s)
def exTrap : Bool := (exTrapInfo s).isSome

/-- FENCE.I in WB. -/
def wbIsFenceI : Bool :=
  s.wb.valid && !s.wb.trap && opcode s.wb.instr == OP_MISC_MEM && funct3 s.wb.instr == 0b001#3

/-- SFENCE.VMA in WB; also `wb_is_sfence_redirect`. -/
def wbIsSfence : Bool :=
  s.wb.valid && !s.wb.trap && opcode s.wb.instr == OP_SYSTEM && funct3 s.wb.instr == F3_PRIV &&
    funct7 s.wb.instr == 0b0001001#7

def wbIsCsrOp : Bool :=
  s.wb.valid && !s.wb.trap && opcode s.wb.instr == OP_SYSTEM && funct3 s.wb.instr != F3_PRIV

def wbIsCsrwSatp : Bool := wbIsCsrOp s && csrField s.wb.instr == CSR_SATP

def wbRedirect : Bool :=
  s.wb.valid && (s.wb.trap || s.wb.isMret || s.wb.isSret || wbIsFenceI s || wbIsSfence s || wbIsCsrwSatp s)

def csrEnWb : Bool := s.wb.valid && s.wb.isCsr && !s.wb.trap
def trapTakeWb : Bool := s.wb.valid && s.wb.trap
def mretWb : Bool := s.wb.valid && s.wb.isMret && !s.wb.trap
def sretWb : Bool := s.wb.valid && s.wb.isSret && !s.wb.trap
def retireWb : Bool := s.wb.valid && !s.wb.trap

def csrIn : Csr.In where
  csrEn := csrEnWb s
  csrOp := s.wb.csrOp
  csrAddr := s.wb.csrAddr
  csrRs1OrImm := s.wb.csrRs1imm
  csrWdata := s.wb.csrWdata
  trapTake := trapTakeWb s
  trapPc := s.wb.pc
  trapCause := s.wb.cause
  trapTval := s.wb.tval
  mret := mretWb s
  sret := sretWb s
  retire := retireWb s

/-- Base of a trap vector with the vectored offset of an interrupt. -/
def vectored (tvec cause : Word) : Word :=
  if tvec.getLsbD 0 && cause.msb then alignWord tvec + (0#26 ++ cause.extractLsb' 0 4 ++ 0#2)
  else alignWord tvec

def wbRedirectPc : Word :=
  if s.wb.isMret && !s.wb.trap then s.csr.mepc
  else if s.wb.isSret && !s.wb.trap then s.csr.sepc
  else if wbIsFenceI s || wbIsSfence s || wbIsCsrwSatp s then s.wb.pc + 4
  else if s.wb.trap && Csr.trapToS s.csr (csrIn s) then vectored s.csr.stvec s.wb.cause
  else if s.wb.trap then vectored s.csr.mtvec s.wb.cause
  else alignWord s.csr.mtvec

/-! ### Stalls -/

def memBusy : Bool := s.mem.valid && s.mem.lsPending

def memIsCsrOp : Bool :=
  s.mem.valid && !s.mem.trap && opcode s.mem.instr == OP_SYSTEM && funct3 s.mem.instr != F3_PRIV

def memIsCsrwSatp : Bool := memIsCsrOp s && csrField s.mem.instr == CSR_SATP

def memStallForIfetchDrain : Bool := memIsCsrwSatp s && s.fetch.inflight

def stallMem : Bool := memBusy s || memStallForIfetchDrain s

def exDivStall : Bool := s.ex.valid && s.ex.ctrl.isDiv && !s.div.doneLatched

def stallEx : Bool := stallMem s || exDivStall s

def loadUseHazard : Bool :=
  s.mem.valid && s.mem.isLoad && s.mem.rdWen && s.mem.rd != 0#5 && s.id.valid &&
    (Decode.rs1Used s.id.instr && s.mem.rd == rs1Field s.id.instr ||
      Decode.rs2Used s.id.instr && s.mem.rd == rs2Field s.id.instr)

def serialInflight : Bool :=
  s.ex.valid && s.ex.ctrl.isSerial || s.mem.valid && s.mem.isSerial || s.wb.valid && s.wb.isSerial

def pipeBusyAheadOfId : Bool := s.ex.valid || s.mem.valid || s.wb.valid

def stallId : Bool :=
  stallEx s || loadUseHazard s ||
    (s.id.valid && Decode.isSerial s.id.instr && pipeBusyAheadOfId s) ||
    (s.id.valid && serialInflight s && !Decode.isSerial s.id.instr)

/-! ### Redirects and fetch -/

def branchRedirect : Bool :=
  (s.ex.takeBranch (exRs1Fwd s) (exRs2Fwd s) || s.ex.takeJal || s.ex.takeJalr) && !exTrap s && !stallEx s

def branchRedirectPc : Word :=
  if s.ex.takeJalr then s.ex.jalrTarget (exRs1Fwd s)
  else if s.ex.takeJal then s.ex.jalTarget
  else s.ex.branchTarget

/-- `flush_if` and `flush_id`. -/
def flushId : Bool := branchRedirect s || wbRedirect s

def ifIdSlotFreeNext : Bool := !s.id.valid || !stallId s

variable (e : Ext)

def allowIrqInject : Bool :=
  Csr.irqPending s.csr e && !s.ex.valid && !s.mem.valid && !s.wb.valid && !s.fetch.inflight &&
    !s.trapPending && !s.id.irq

def ifCanIssue : Bool :=
  !s.fetch.inflight && ifIdSlotFreeNext s && !branchRedirect s && !wbRedirect s && !s.trapPending &&
    !allowIrqInject s e

/-- `ifetch_req_valid` out of reset; `ifetch_req_addr` is `pc_q`. -/
def ifetchReqValid : Bool := ifCanIssue s e

def ifetchRspReady : Bool := s.fetch.inflight

/-- `ifetch_req_valid && ifetch_req_ready`. -/
def ifetchAccept : Bool := ifetchReqValid s i.ext && i.ifetchReqReady

def rspArriving : Bool := s.fetch.inflight && i.ifetchRspValid
def rspConsumable : Bool := rspArriving s i && !s.fetch.squash

def idWillBubble : Bool :=
  wbRedirect s || !s.id.valid || stallId s || (allowIrqInject s e && s.id.valid && !s.id.irq)

/-! ### Register file and CSR read in WB -/

def csrRdata : Word :=
  (Csr.readMux s.csr e s.wb.csrAddr).getD 0#32

def wbCommitRdData : Word := if s.wb.isCsr then csrRdata s e else s.wb.result

def rfWen : Bool := s.wb.valid && s.wb.rdWen && !s.wb.trap && s.wb.rd != 0#5

/-- A register read in ID with the bypass from WB. -/
def idRead (a : BitVec 5) : Word :=
  if rfWen s && s.wb.rd == a && a != 0#5 then wbCommitRdData s e else s.regs.read a

/-! ### Data bus -/

def memAmoStoreBeat : Bool := s.mem.isAmoRmw && s.mem.amoPhase
def memIsStoreOp : Bool := s.mem.isStore || s.mem.isSc || memAmoStoreBeat s
def memHasBusOp : Bool := s.mem.hasBusOp

/-- `amo_store_data`, from the loaded word and the source operand. -/
def amoStoreData (f : BitVec 5) (old rs2 : Word) : Word :=
  if f = AMO_SWAP then rs2
  else if f = AMO_ADD then old + rs2
  else if f = AMO_XOR then old ^^^ rs2
  else if f = AMO_AND then old &&& rs2
  else if f = AMO_OR then old ||| rs2
  else if f = AMO_MIN then (if old.slt rs2 then old else rs2)
  else if f = AMO_MAX then (if old.slt rs2 then rs2 else old)
  else if f = AMO_MINU then (if old.ult rs2 then old else rs2)
  else if f = AMO_MAXU then (if old.ult rs2 then rs2 else old)
  else rs2

def dmemReqValid : Bool := s.mem.valid && memHasBusOp s && s.mem.lsPending && !s.bus.reqFired
def dmemReqAddr : Word := alignWord s.mem.aluY
def dmemReqWen : Bool := memIsStoreOp s

def dmemReqWdata : Word :=
  if memAmoStoreBeat s then amoStoreData s.mem.amoFunct5 s.bus.amoOld s.mem.amoRs2 else s.mem.storeWdata

def dmemReqWmask : BitVec 4 :=
  if memIsStoreOp s then (if s.mem.isStore && !s.mem.isSc then s.mem.storeWmask else 0b1111#4)
  else if s.mem.funct3 = F3_LB ∨ s.mem.funct3 = F3_LBU then 0b0001#4
  else if s.mem.funct3 = F3_LH ∨ s.mem.funct3 = F3_LHU then 0b0011#4
  else 0b1111#4

def dmemReqSize : BitVec 2 :=
  if s.mem.isLr || s.mem.isSc || s.mem.isAmoRmw then 0b10#2
  else if s.mem.funct3 = F3_LB ∨ s.mem.funct3 = F3_LBU ∨ s.mem.funct3 = F3_SB then 0b00#2
  else if s.mem.funct3 = F3_LH ∨ s.mem.funct3 = F3_LHU ∨ s.mem.funct3 = F3_SH then 0b01#2
  else 0b10#2

/-- `dmem_req_valid && dmem_req_ready`. -/
def dmemAccept : Bool := dmemReqValid s && i.dmemReqReady

/-- Byte or halfword selection and sign extension of a load, for address `a`. -/
def loadAligned (f3 : BitVec 3) (a rdata : Word) : Word :=
  let b : BitVec 8 := rdata.extractLsb' (8 * (a.extractLsb' 0 2).toNat) 8
  let h : BitVec 16 := if a.getLsbD 1 then rdata.extractLsb' 16 16 else rdata.extractLsb' 0 16
  if f3 = F3_LB then b.signExtend 32
  else if f3 = F3_LBU then b.setWidth 32
  else if f3 = F3_LH then h.signExtend 32
  else if f3 = F3_LHU then h.setWidth 32
  else rdata

def memRspThisCycle : Bool := s.mem.valid && s.mem.lsPending && i.dmemRspValid

/-! ### Divider control -/

def divStartPulse : Bool :=
  s.ex.valid && s.ex.ctrl.isDiv && !s.div.started && !s.div.doneLatched && !stallMem s && !wbRedirect s

def divIn : DivUnit.In := s.ex.divIn (exRs1Fwd s) (exRs2Fwd s) (divStartPulse s)

/-! ## Next state -/

def fetchNext : FetchReg :=
  let accept := ifetchAccept s i
  let arriving := rspArriving s i
  let inflight := accept || (s.fetch.inflight && !arriving)
  { pc :=
      if wbRedirect s then wbRedirectPc s
      else if branchRedirect s then branchRedirectPc s
      else if accept then s.fetch.pc + 4
      else s.fetch.pc
    inflight := inflight
    inflightPc := if accept then s.fetch.pc else s.fetch.inflightPc
    squash :=
      if flushId s && inflight && !arriving then true
      else if accept || arriving then false
      else s.fetch.squash }

/-- The interrupt bubble; it takes the pc of the instruction it pre-empts. -/
def irqBubble : IfId where
  valid := true
  pc := if s.id.valid then s.id.pc else s.fetch.pc
  instr := 0#32
  fault := false
  pagefault := false
  irq := true
  irqCause := Csr.irqCause s.csr e

/-- The answered fetch enters ID. -/
def fetched : IfId where
  valid := true
  pc := s.fetch.inflightPc
  instr := i.ifetchRspData
  fault := i.ifetchRspFault
  pagefault := i.ifetchRspPagefault
  irq := false
  irqCause := 0

def idNext : IfId :=
  if flushId s then { s.id with valid := false, irq := false }
  else if ifIdSlotFreeNext s then
    if allowIrqInject s i.ext then irqBubble s i.ext
    else if rspConsumable s i then fetched s i
    else { s.id with valid := false, irq := false }
  else s.id

/-- The mode the decoder reads. -/
def mode : Decode.Mode := ⟨s.csr.privMode, Csr.mstatusTvm s.csr, Csr.mstatusTsr s.csr⟩

/-- The flags of the instruction in ID. -/
def Ctrl.ofId (id : IfId) (m : Decode.Mode) : Ctrl where
  rdWen := Decode.writesRd id.instr
  isJal := Decode.isJal id.instr
  isJalr := Decode.isJalr id.instr
  isBranch := Decode.isBranch id.instr
  isLoad := Decode.isLoad id.instr
  isStore := Decode.isStore id.instr
  isCsr := Decode.isCsr id.instr
  isEcall := Decode.isEcall id.instr
  isEbreak := Decode.isEbreak id.instr
  isMret := Decode.isMret id.instr
  isSret := Decode.isSret id.instr
  isMul := Decode.isMul id.instr
  isDiv := Decode.isDiv id.instr
  isLr := Decode.isLr id.instr
  isSc := Decode.isSc id.instr
  isAmoRmw := Decode.isAmoRmw id.instr
  isSerial := Decode.isSerial id.instr
  fetchFault := id.fault
  fetchPagefault := id.pagefault
  illegal := Decode.illegal id.instr m
  irq := id.irq

/-- The ID/EX register of an instruction that leaves ID with the given register values. -/
def IdEx.ofId (id : IfId) (m : Decode.Mode) (rs1Data rs2Data : Word) : IdEx where
  valid := true
  pc := id.pc
  instr := id.instr
  rs1Data := rs1Data
  rs2Data := rs2Data
  imm := Decode.imm id.instr
  aluOp := Decode.aluOp id.instr
  aluASel := Decode.aluASel id.instr
  aluBSel := Decode.aluBSel id.instr
  rd := rdField id.instr
  rs1 := rs1Field id.instr
  rs2 := rs2Field id.instr
  funct3 := QinglongCore.funct3 id.instr
  csrAddr := csrField id.instr
  amoFunct5 := QinglongCore.amoFunct5 id.instr
  irqCause := id.irqCause
  ctrl := Ctrl.ofId id m

def exAdvance : IdEx :=
  IdEx.ofId s.id (mode s) (idRead s e (rs1Field s.id.instr)) (idRead s e (rs2Field s.id.instr))

def IdEx.bubble (ex : IdEx) : IdEx := { ex with valid := false, ctrl := Ctrl.bubble }

def exNext : IdEx :=
  if stallEx s then s.ex
  else if idWillBubble s i.ext then s.ex.bubble
  else exAdvance s i.ext

/-- The fields of EX/MEM that a bubble clears. -/
def ExMem.bubble (m : ExMem) : ExMem :=
  { m with
    valid := false
    isLoad := false
    isStore := false
    isCsr := false
    isMret := false
    isSret := false
    isSerial := false
    isLr := false
    isSc := false
    isAmoRmw := false
    rdWen := false
    hasResult := false
    trap := false
    lsPending := false
    amoPhase := false }

/-- SC reservation hit, decided in EX. -/
def exScHit : Bool := s.resv.valid && s.resv.addr == (s.ex.lsAddr (exRs1Fwd s)).extractLsb' 2 30

/-- The EX/MEM register of an instruction that leaves EX: its operands, the divider's result, the
exception raised in EX and the reservation check. -/
def ExMem.ofEx (ex : IdEx) (rs1 rs2 divResult : Word) (trap : Option (Word × Word)) (scHit : Bool) :
    ExMem :=
  let c := ex.ctrl
  let ok := !trap.isSome
  let scMiss := c.isSc && ok && !scHit
  { valid := true
    pc := ex.pc
    instr := ex.instr
    aluY := if c.isLoad || c.isStore || ex.isAtomic then ex.lsAddr rs1 else ex.arithWb rs1 rs2 divResult
    hasResult :=
      scMiss || (c.rdWen && !c.isLoad && !c.isCsr && !c.isLr && !c.isSc && !c.isAmoRmw && ok)
    result := if scMiss then 1#32 else ex.arithWb rs1 rs2 divResult
    storeWdata := ex.storeWdata rs1 rs2
    storeWmask := ex.storeWmask rs1
    funct3 := ex.funct3
    rd := ex.rd
    rdWen := c.rdWen && ok
    isLoad := c.isLoad && ok
    isStore := c.isStore && ok
    isCsr := c.isCsr && ok
    isMret := c.isMret && ok
    isSret := c.isSret && ok
    isSerial := c.isSerial
    isLr := c.isLr && ok
    isSc := c.isSc && ok
    isAmoRmw := c.isAmoRmw && ok
    amoFunct5 := ex.amoFunct5
    amoRs2 := rs2
    amoPhase := false
    csrAddr := ex.csrAddr
    csrWdata := if ex.funct3.getLsbD 2 then ex.rs1.setWidth 32 else rs1
    csrOp := ex.funct3
    csrRs1imm := ex.rs1
    sfenceRs1 := rs1
    sfenceRs2 := rs2
    trap := trap.isSome
    cause := (trap.map Prod.fst).getD 0#32
    tval := (trap.map Prod.snd).getD 0#32
    lsPending := ok && (c.isLoad || c.isStore || c.isLr || c.isAmoRmw || (c.isSc && scHit)) }

def memAdvance : ExMem :=
  ExMem.ofEx s.ex (exRs1Fwd s) (exRs2Fwd s) s.div.result (exTrapInfo s) (exScHit s)

/-- MEM while it stalls: a response ends the beat, or turns an AMO to its store beat. -/
def memHold : ExMem :=
  if memRspThisCycle s i then
    if s.mem.isAmoRmw && !s.mem.amoPhase && !i.dmemRspFault then { s.mem with amoPhase := true }
    else { s.mem with lsPending := false }
  else s.mem

def memNext : ExMem :=
  let m :=
    if stallMem s then memHold s i
    else if stallEx s || !s.ex.valid then s.mem.bubble
    else memAdvance s
  if wbRedirect s then m.bubble else m

def busNext : MemBus :=
  let rsp := memRspThisCycle s i
  let clear := wbRedirect s || (!stallMem s && s.mem.valid && memHasBusOp s)
  let amoLoad := s.mem.isAmoRmw && !s.mem.amoPhase
  { reqFired :=
      if wbRedirect s then false else if rsp then false
      else if dmemAccept s i then true else s.bus.reqFired
    busFault := if clear then false else if rsp then i.dmemRspFault else s.bus.busFault
    busPagefault := if clear then false else if rsp then i.dmemRspPagefault else s.bus.busPagefault
    loadData :=
      if clear then 0#32
      else if rsp && !amoLoad then
        (if s.mem.isLr then i.dmemRspRdata else loadAligned s.mem.funct3 s.mem.aluY i.dmemRspRdata)
      else s.bus.loadData
    amoOld := if clear then 0#32 else if rsp && amoLoad then i.dmemRspRdata else s.bus.amoOld }

def resvNext : Resv :=
  if wbRedirect s || (!stallMem s && s.mem.valid && (s.mem.isSc || s.mem.isAmoRmw)) then
    { valid := false
      addr := if s.mem.isLr && memRspThisCycle s i && !i.dmemRspFault then s.mem.aluY.extractLsb' 2 30
        else s.resv.addr }
  else if s.mem.isLr && memRspThisCycle s i && !i.dmemRspFault then
    { valid := true, addr := s.mem.aluY.extractLsb' 2 30 }
  else s.resv

/-- The payload that WB takes from MEM in every cycle. -/
def MemWb.payload (m : ExMem) : MemWb where
  valid := false
  pc := m.pc
  instr := m.instr
  rd := m.rd
  rdWen := false
  result := 0#32
  trap := false
  cause := m.cause
  tval := m.tval
  isMret := false
  isSret := false
  isCsr := false
  isSerial := false
  csrAddr := m.csrAddr
  csrWdata := m.csrWdata
  csrOp := m.csrOp
  csrRs1imm := m.csrRs1imm
  sfenceRs1 := m.sfenceRs1
  sfenceRs2 := m.sfenceRs2

/-- The MEM/WB register of an instruction that leaves MEM, with what its bus access left behind. -/
def MemWb.ofMem (m : ExMem) (b : MemBus) : MemWb :=
  let base := { MemWb.payload m with valid := true, isSerial := m.isSerial }
  let isSt := m.isStore || m.isSc || m.isAmoRmw
  if m.hasBusOp && !m.hasResult then
    if b.busPagefault then
      { base with
        trap := true
        cause := if isSt then CAUSE_STORE_PAGE_FAULT else CAUSE_LOAD_PAGE_FAULT
        tval := m.aluY }
    else if b.busFault then
      { base with
        trap := true
        cause := if isSt then CAUSE_STORE_ACCESS_FAULT else CAUSE_LOAD_ACCESS_FAULT
        tval := m.aluY }
    else if m.isLr then { base with rdWen := m.rdWen, result := b.loadData }
    else if m.isSc then { base with rdWen := m.rdWen, result := 0#32 }
    else if m.isAmoRmw then { base with rdWen := m.rdWen, result := b.amoOld }
    else { base with rdWen := m.isLoad && m.rdWen, result := b.loadData }
  else
    { base with
      rdWen := m.rdWen
      result := m.result
      trap := m.trap
      isMret := m.isMret && !m.trap
      isSret := m.isSret && !m.trap
      isCsr := m.isCsr && !m.trap }

def MemWb.bubble (w : MemWb) : MemWb :=
  { w with
    valid := false
    trap := false
    rdWen := false
    isMret := false
    isSret := false
    isCsr := false
    isSerial := false }

def wbNext : MemWb :=
  let w := if s.mem.valid && !stallMem s then MemWb.ofMem s.mem s.bus else MemWb.payload s.mem
  if wbRedirect s then w.bubble else w

def divNext : DivReg :=
  let leaves := !stallEx s && s.ex.valid && s.ex.ctrl.isDiv && s.div.doneLatched
  { started :=
      if wbRedirect s || leaves then false else if divStartPulse s then true else s.div.started
    doneLatched :=
      if wbRedirect s || leaves then false else if s.divUnit.done then true else s.div.doneLatched
    result := if s.divUnit.done then s.divUnit.result else s.div.result }

def trapPendingNext : Bool :=
  if wbRedirect s then false
  else if exTrap s && s.ex.valid && !stallEx s then true
  else s.trapPending

/-- One clock edge out of reset. -/
def step : State where
  fetch := fetchNext s i
  id := idNext s i
  ex := exNext s i
  mem := memNext s i
  bus := busNext s i
  wb := wbNext s
  div := divNext s
  divUnit := DivUnit.step s.divUnit (divIn s)
  resv := resvNext s i
  trapPending := trapPendingNext s
  csr := Csr.step s.csr i.ext (csrIn s)
  regs := s.regs.write (rfWen s) s.wb.rd (wbCommitRdData s i.ext)

/-- The core out of reset, in cycle `t` of a run. -/
abbrev run (resetPc : Word) (regs : RegFile) (inp : Nat → In) : Nat → State :=
  Sync.run step (reset resetPc regs) inp

end QinglongCore.CorePipeline
