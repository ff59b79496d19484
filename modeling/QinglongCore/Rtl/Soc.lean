import QinglongCore.Rtl.CorePipeline
import QinglongCore.Rtl.Mmu

/-!
# Core, request register and MMU (`soc_top.sv`)

The pipelined core, the register `dm_pipe_q` in its data request path, and the MMU. The buses behind the
MMU and the walker's memory port are inputs.
-/

namespace QinglongCore.Soc

/-- `dm_pipe_q_*`. -/
structure Pipe where
  valid : Bool
  req : Mmu.Req

structure State where
  core : CorePipeline.State
  pipe : Pipe
  mmu : Mmu.State

/-- The lines of the downstream buses, of the walker's memory port, and the interrupts. -/
structure In where
  ifReqReady : Bool
  ifRspValid : Bool
  ifRspData : Word
  ifRspFault : Bool
  dmReqReady : Bool
  dmRspValid : Bool
  dmRspRdata : Word
  dmRspFault : Bool
  ptwReqReady : Bool
  ptwRspValid : Bool
  ptwRspRdata : Word
  ptwRspFault : Bool
  ext : Ext

/-- The buses accept every request and answer none; no interrupt line is raised. -/
def In.ready : In where
  ifReqReady := true
  ifRspValid := false
  ifRspData := 0
  ifRspFault := false
  dmReqReady := true
  dmRspValid := false
  dmRspRdata := 0
  dmRspFault := false
  ptwReqReady := true
  ptwRspValid := false
  ptwRspRdata := 0
  ptwRspFault := false
  ext := ⟨false, false, false, false, 0⟩

/-- The answers of one cycle: of the fetch bus, of the data bus and of the walker's port. -/
def In.answer (ifetch dmem ptw : Option Word) : In :=
  { In.ready with
    ifRspValid := ifetch.isSome, ifRspData := ifetch.getD 0#32
    dmRspValid := dmem.isSome, dmRspRdata := dmem.getD 0#32
    ptwRspValid := ptw.isSome, ptwRspRdata := ptw.getD 0#32 }

/-- Reset clears the valid bit of the request register and leaves its payload. -/
def reset (resetPc : Word) (regs : RegFile) (payload : Mmu.Req) : State where
  core := CorePipeline.reset resetPc regs
  pipe := ⟨false, payload⟩
  mmu := Mmu.reset

variable (s : State) (i : In)

/-- `pmp_cfg_out[pi] = pmpcfg_q[pi / 4][(pi % 4) * 8 +: 8]`. -/
def pmpConfig (c : Csr.State) : Pmp.Config where
  cfg := fun n => (c.pmpcfg ⟨n.val / 4, by omega⟩).extractLsb' (n.val % 4 * 8) 8
  addr := c.pmpaddr

/-- The CSR outputs of the core. -/
def ctx (c : Csr.State) : Mmu.Ctx where
  satp := c.satp
  priv := c.privMode
  mprv := Csr.mstatusMprv c
  mpp := Csr.mpp c
  sum := Csr.sstatusSum c
  mxr := Csr.mstatusMxr c
  pmp := pmpConfig c

def sfence : Mmu.Sfence where
  valid := CorePipeline.wbIsSfence s.core
  rs1Nz := rs1Field s.core.wb.instr != 0#5
  rs1Va := s.core.wb.sfenceRs1
  rs2Nz := rs2Field s.core.wb.instr != 0#5
  rs2Asid := s.core.wb.sfenceRs2.extractLsb' 0 9

def ifPort : Mmu.Port where
  reqValid := CorePipeline.ifetchReqValid s.core i.ext
  req := Mmu.Req.fetch s.core.fetch.pc
  rspReady := CorePipeline.ifetchRspReady s.core
  dsReqReady := i.ifReqReady
  dsRspValid := i.ifRspValid
  dsRspData := i.ifRspData
  dsRspFault := i.ifRspFault

def dmPort : Mmu.Port where
  reqValid := s.pipe.valid
  req := s.pipe.req
  rspReady := true
  dsReqReady := i.dmReqReady
  dsRspValid := i.dmRspValid
  dsRspData := i.dmRspRdata
  dsRspFault := i.dmRspFault

def mmuIn : Mmu.In where
  ctx := ctx s.core.csr
  sfence := sfence s
  ifp := ifPort s i
  dmp := dmPort s i
  ptwReqReady := i.ptwReqReady
  ptwRspValid := i.ptwRspValid
  ptwRspRdata := i.ptwRspRdata
  ptwRspFault := i.ptwRspFault

def ifOut : Mmu.Out := Mmu.ifOut s.mmu (mmuIn s i)
def dmOut : Mmu.Out := Mmu.dmOut s.mmu (mmuIn s i)

/-- `core_dm_req_ready`. -/
def coreDmReqReady : Bool := !s.pipe.valid || (dmOut s i).reqReady

def dmPipeUpFire : Bool := CorePipeline.dmemReqValid s.core && coreDmReqReady s i
def dmPipeDnFire : Bool := s.pipe.valid && (dmOut s i).reqReady

def coreIn : CorePipeline.In where
  ifetchReqReady := (ifOut s i).reqReady
  ifetchRspValid := (ifOut s i).rspValid
  ifetchRspData := (ifOut s i).rspData
  ifetchRspFault := (ifOut s i).rspFault
  ifetchRspPagefault := (ifOut s i).rspPagefault
  dmemReqReady := coreDmReqReady s i
  dmemRspValid := (dmOut s i).rspValid
  dmemRspRdata := (dmOut s i).rspData
  dmemRspFault := (dmOut s i).rspFault
  dmemRspPagefault := (dmOut s i).rspPagefault
  ext := i.ext

def coreDmReq : Mmu.Req where
  addr := CorePipeline.dmemReqAddr s.core
  wen := CorePipeline.dmemReqWen s.core
  wdata := CorePipeline.dmemReqWdata s.core
  wmask := CorePipeline.dmemReqWmask s.core
  size := CorePipeline.dmemReqSize s.core

def pipeNext : Pipe :=
  if dmPipeUpFire s i then ⟨true, coreDmReq s⟩
  else if dmPipeDnFire s i then { s.pipe with valid := false }
  else s.pipe

/-- One clock edge out of reset. -/
def step : State where
  core := CorePipeline.step s.core (coreIn s i)
  pipe := pipeNext s i
  mmu := Mmu.step s.mmu (mmuIn s i)

abbrev run (resetPc : Word) (regs : RegFile) (payload : Mmu.Req) (inp : Nat → In) : Nat → State :=
  Sync.run step (reset resetPc regs payload) inp

end QinglongCore.Soc
