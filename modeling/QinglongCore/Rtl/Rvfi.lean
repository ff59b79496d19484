import QinglongCore.Rtl.CorePipeline

/-!
# RVFI tap (`core_pipeline_rvfi.svh`)

Shadow registers beside the stage registers, and the ports that report a retirement. They read the core and never
feed back into it. The CSR ports are left out.
-/

namespace QinglongCore.Rvfi

open CorePipeline

/-- What the tap carries from EX through MEM to WB: `mem_rvfi_*`, `wb_rvfi_*`. -/
structure Shadow where
  rs1Addr : BitVec 5
  rs2Addr : BitVec 5
  rs1Rdata : Word
  rs2Rdata : Word
  nextPc : Word
  memAddr : Word
  memRmask : BitVec 4
  memWmask : BitVec 4
  memRdata : Word
  memWdata : Word
  intr : Bool

def Shadow.zero : Shadow := ⟨0, 0, 0, 0, 0, 0, 0, 0, 0, 0, false⟩

structure State where
  rs1Held : Word
  rs2Held : Word
  stalled : Bool
  mem : Shadow
  wb : Shadow
  order : BitVec 64
  intrPending : Bool

def reset : State where
  rs1Held := 0
  rs2Held := 0
  stalled := false
  mem := Shadow.zero
  wb := Shadow.zero
  order := 0
  intrPending := false

/-! ## EX -/

section Ex

variable (ex : IdEx) (rs1 rs2 : Word)

/-- `ex_rvfi_next_pc`. -/
def nextPc : Word :=
  if ex.ctrl.isJal then ex.jalTarget
  else if ex.ctrl.isJalr then ex.jalrTarget rs1
  else if ex.ctrl.isBranch && ex.branchTaken rs1 rs2 then ex.branchTarget
  else ex.pc + 4

/-- The read mask of a load. -/
def loadRmask : BitVec 4 :=
  if ex.funct3 = F3_LB ∨ ex.funct3 = F3_LBU then 0b0001#4 <<< ((ex.lsAddr rs1).extractLsb' 0 2).toNat
  else if ex.funct3 = F3_LH ∨ ex.funct3 = F3_LHU then (if (ex.lsAddr rs1).getLsbD 1 then 0b1100#4 else 0b0011#4)
  else if ex.funct3 = F3_LW then 0b1111#4
  else 0b0000#4

/-- `ex_rvfi_mem_rmask`, `ex_rvfi_mem_wmask` and `ex_rvfi_mem_wdata`. -/
def memTrace (scHit : Bool) : BitVec 4 × BitVec 4 × Word :=
  if ex.ctrl.isLoad && !ex.lsMisaligned rs1 then (loadRmask ex rs1, 0b0000#4, 0#32)
  else if ex.ctrl.isStore && !ex.lsMisaligned rs1 then (0b0000#4, ex.storeWmask rs1, ex.storeWdata rs1 rs2)
  else if ex.ctrl.isLr && !ex.lsMisaligned rs1 then (0b1111#4, 0b0000#4, 0#32)
  else if ex.ctrl.isSc && !ex.lsMisaligned rs1 && scHit then (0b0000#4, 0b1111#4, rs2)
  else if ex.ctrl.isAmoRmw && !ex.lsMisaligned rs1 then (0b1111#4, 0b1111#4, 0#32)
  else (0b0000#4, 0b0000#4, 0#32)

end Ex

variable (s : CorePipeline.State) (i : In) (r : State)

/-- `ex_rs1_fwd_z` and `ex_rs2_fwd_z`. -/
def rs1FwdZ : Word := if s.ex.rs1 = 0#5 then 0#32 else exRs1Fwd s
def rs2FwdZ : Word := if s.ex.rs2 = 0#5 then 0#32 else exRs2Fwd s

def rs1Now : Word := if r.stalled then r.rs1Held else rs1FwdZ s
def rs2Now : Word := if r.stalled then r.rs2Held else rs2FwdZ s

/-! ## Next state -/

/-- The first stalled cycle of an instruction in EX. -/
def stalls : Bool := s.ex.valid && stallEx s && !r.stalled

/-- The instruction in EX is handed to MEM. -/
def advances : Bool := !stallEx s && s.ex.valid

def stalledNext : Bool :=
  if wbRedirect s || advances s then false else if stalls s r then true else r.stalled

/-- A response to a read beat, raw. -/
def memRdataNext : Word :=
  if memRspThisCycle s i && (s.mem.isLoad || s.mem.isLr || (s.mem.isAmoRmw && !s.mem.amoPhase)) then i.dmemRspRdata
  else r.mem.memRdata

def memNext : Shadow :=
  let trace := memTrace s.ex (exRs1Fwd s) (exRs2Fwd s) (exScHit s)
  if advances s then
    { rs1Addr := s.ex.rs1
      rs2Addr := s.ex.rs2
      rs1Rdata := rs1Now s r
      rs2Rdata := rs2Now s r
      nextPc := nextPc s.ex (exRs1Fwd s) (exRs2Fwd s)
      memAddr := alignWord (s.ex.lsAddr (exRs1Fwd s))
      memRmask := trace.1
      memWmask := trace.2.1
      memRdata := memRdataNext s i r
      memWdata := trace.2.2
      intr := s.ex.ctrl.irq }
  else { r.mem with memRdata := memRdataNext s i r }

def wbNext : Shadow :=
  if (CorePipeline.wbNext s).valid then
    { r.mem with
      memRdata :=
        if s.mem.isLoad || s.mem.isLr || (s.mem.isAmoRmw && !s.mem.amoPhase) then
          (if memRspThisCycle s i then i.dmemRspRdata else r.mem.memRdata)
        else 0#32 }
  else r.wb

/-- One clock edge out of reset, beside the core in state `s`. -/
def step : State where
  rs1Held := if stalls s r then rs1FwdZ s else r.rs1Held
  rs2Held := if stalls s r then rs2FwdZ s else r.rs2Held
  stalled := stalledNext s r
  mem := memNext s i r
  wb := wbNext s i r
  order := if s.wb.valid then r.order + 1 else r.order
  intrPending :=
    if s.wb.valid && s.wb.trap && s.wb.cause.msb then true else if s.wb.valid then false else r.intrPending

/-! ## Ports -/

/-- The ports of a retirement. -/
structure Port where
  valid : Bool
  order : BitVec 64
  insn : Word
  trap : Bool
  intr : Bool
  mode : BitVec 2
  rs1Addr : BitVec 5
  rs2Addr : BitVec 5
  rs1Rdata : Word
  rs2Rdata : Word
  rdAddr : BitVec 5
  rdWdata : Word
  pcRdata : Word
  pcWdata : Word
  memAddr : Word
  memRmask : BitVec 4
  memWmask : BitVec 4
  memRdata : Word
  memWdata : Word

/-- `rvfi_fetch_trap`. -/
def fetchTrap : Bool :=
  s.wb.trap && !s.wb.cause.msb &&
    (s.wb.cause == CAUSE_INSN_ADDR_MISALIGNED || s.wb.cause == CAUSE_INSN_ACCESS_FAULT ||
      s.wb.cause == CAUSE_INSN_PAGE_FAULT)

def port (e : Ext) : Port where
  valid := s.wb.valid && !(s.wb.valid && s.wb.trap && s.wb.cause.msb)
  order := r.order
  insn := if fetchTrap s then 0#32 else s.wb.instr
  trap := s.wb.trap && !s.wb.cause.msb
  intr := r.intrPending
  mode := priv s
  rs1Addr := r.wb.rs1Addr
  rs2Addr := r.wb.rs2Addr
  rs1Rdata := r.wb.rs1Rdata
  rs2Rdata := r.wb.rs2Rdata
  rdAddr := if rfWen s then s.wb.rd else 0#5
  rdWdata := if rfWen s then wbCommitRdData s e else 0#32
  pcRdata := s.wb.pc
  pcWdata := if wbRedirect s then wbRedirectPc s else r.wb.nextPc
  memAddr := r.wb.memAddr
  memRmask := if s.wb.trap then 0b0000#4 else r.wb.memRmask
  memWmask := if s.wb.trap then 0b0000#4 else r.wb.memWmask
  memRdata := r.wb.memRdata
  memWdata := r.wb.memWdata

/-- The tap in cycle `t` of a run of the core. -/
def run (resetPc : Word) (regs : RegFile) (inp : Nat → In) : Nat → State
  | 0 => reset
  | t + 1 => step (CorePipeline.run resetPc regs inp t) (inp t) (run resetPc regs inp t)

end QinglongCore.Rvfi
