import QinglongCore.Rtl.CoreMulticycle
import QinglongCore.Rtl.Fabric
import QinglongCore.Rtl.Soc

/-!
# Multicycle core on the bus fabric (`soc_top.sv`, `sram_dp.sv`)

The multicycle core, the request register of its data side, the MMU, the fabric and SRAM port A, in the configuration
without the caches. `mmio`, `clint`, `plic`, the AXI slave and the interrupt lines are inputs.
-/

namespace QinglongCore.SocMulticycle

/-- Port A of `sram_dp`. Its registers have no reset. -/
structure PortA where
  rspValid : Bool
  rspRdata : Word

structure State where
  core : CoreMulticycle.State
  pipe : Soc.Pipe
  mmu : Mmu.State
  fabric : Fabric.State
  portA : PortA

structure In where
  mmio : Fabric.Device
  clint : Fabric.Device
  plic : Fabric.Device
  axi : Axi4Master.Lines
  ext : Ext

/-- The registers that reset leaves alone come up as they will. -/
structure PowerOn where
  regs : RegFile
  payload : Mmu.Req
  mem : BitVec 14 → Word
  rdata : Word
  portA : PortA

def reset (resetPc : Word) (p : PowerOn) : State where
  core := CoreMulticycle.reset resetPc p.regs
  pipe := ⟨false, p.payload⟩
  mmu := Mmu.reset
  fabric := Fabric.reset p.mem p.rdata
  portA := p.portA

variable (s : State) (i : In)

/-! ## Requests -/

def ctx : Mmu.Ctx := Soc.ctx s.core.csr

/-- What the core asks of the MMU; the answers of the buses are left open, and the request lines of the MMU do not
look at them. -/
def mmuAsk : Mmu.In where
  ctx := ctx s
  sfence := ⟨false, false, 0, false, 0⟩
  ifp :=
    { reqValid := CoreMulticycle.ifetchReqValid s.core i.ext
      req := Mmu.Req.fetch s.core.pc
      rspReady := CoreMulticycle.ifetchRspReady
      dsReqReady := false, dsRspValid := false, dsRspData := 0, dsRspFault := false }
  dmp :=
    { reqValid := s.pipe.valid
      req := s.pipe.req
      rspReady := CoreMulticycle.dmemRspReady s.core
      dsReqReady := false, dsRspValid := false, dsRspData := 0, dsRspFault := false }
  ptwReqReady := false
  ptwRspValid := false
  ptwRspRdata := 0
  ptwRspFault := false

/-- `if_req_valid` and `if_req_addr`. -/
def ifReqValid : Bool := (Mmu.ifOut s.mmu (mmuAsk s i)).dsReqValid
def ifReqAddr : Word := (Mmu.ifOut s.mmu (mmuAsk s i)).dsReq.addr

def dmReq : Axi4Master.Req :=
  let o := Mmu.dmOut s.mmu (mmuAsk s i)
  ⟨o.dsReqValid, o.dsReq.addr, o.dsReq.wen, o.dsReq.wdata, o.dsReq.wmask⟩

def sramAReqValid : Bool := ifReqValid s i && Fabric.isSram (ifReqAddr s i)

def fabricIn : Fabric.In where
  ptwReqValid := Mmu.ptwReqValid s.mmu
  ptwReqAddr := Mmu.ptwReqAddr s.mmu (mmuAsk s i)
  ifReqValid := ifReqValid s i
  ifReqAddr := ifReqAddr s i
  dmReq := dmReq s i
  ifSram := { reqReady := true, rsp := { valid := s.portA.rspValid, data := s.portA.rspRdata, fault := false } }
  mmio := i.mmio
  clint := i.clint
  plic := i.plic
  axi := i.axi

/-! ## Answers -/

def ifRsp : Fabric.Rsp := Fabric.ifRsp s.fabric (fabricIn s i)
def dmRsp : Fabric.Rsp := Fabric.dmRsp s.fabric (fabricIn s i)

/-- The inputs of the MMU with the answers of the buses. -/
def mmuAnswered : Mmu.In :=
  { mmuAsk s i with
    ifp :=
      { (mmuAsk s i).ifp with
        dsReqReady := Fabric.ifReqReady s.fabric (fabricIn s i)
        dsRspValid := (ifRsp s i).valid, dsRspData := (ifRsp s i).data, dsRspFault := (ifRsp s i).fault }
    dmp :=
      { (mmuAsk s i).dmp with
        dsReqReady := Fabric.dmReqReady s.fabric (fabricIn s i)
        dsRspValid := (dmRsp s i).valid, dsRspData := (dmRsp s i).data, dsRspFault := (dmRsp s i).fault }
    ptwReqReady := Fabric.ptwReqReady s.fabric (fabricIn s i)
    ptwRspValid := (Fabric.ptwRsp s.fabric).valid
    ptwRspRdata := (Fabric.ptwRsp s.fabric).data
    ptwRspFault := (Fabric.ptwRsp s.fabric).fault }

def ifOut : Mmu.Out := Mmu.ifOut s.mmu (mmuAnswered s i)
def dmOut : Mmu.Out := Mmu.dmOut s.mmu (mmuAnswered s i)

/-- `core_dm_req_ready`. -/
def coreDmReqReady : Bool := !s.pipe.valid || (dmOut s i).reqReady

def coreIn : CoreMulticycle.In where
  ifetchReqReady := (ifOut s i).reqReady
  ifetchRspValid := (ifOut s i).rspValid
  ifetchRspData := (ifOut s i).rspData
  ifetchRspFault := (ifOut s i).rspFault
  ifetchRspPagefault := (ifOut s i).rspPagefault
  dmemReqReady := coreDmReqReady s i
  dmemRspValid := (dmOut s i).rspValid
  dmemRspRdata := (dmOut s i).rspData
  dmemRspFault := (dmOut s i).rspFault
  dmemRspPagefault := (dmOut s i).rspPagefault
  ext := i.ext

/-! ## The clock edge -/

/-- `mmu_sfence_*`, raised as the SFENCE.VMA commits. -/
def sfence : Mmu.Sfence where
  valid :=
    Decode.isSfence s.core.instr && (CoreMulticycle.commit s.core (coreIn s i)).valid &&
      !(CoreMulticycle.commit s.core (coreIn s i)).trap
  rs1Nz := rs1Field s.core.instr != 0#5
  rs1Va := CoreMulticycle.rs1Data s.core
  rs2Nz := rs2Field s.core.instr != 0#5
  rs2Asid := (CoreMulticycle.rs2Data s.core).extractLsb' 0 9

def mmuIn : Mmu.In := { mmuAnswered s i with sfence := sfence s i }

def coreDmReq : Mmu.Req where
  addr := CoreMulticycle.dmemReqAddr s.core
  wen := CoreMulticycle.dmemReqWen s.core
  wdata := CoreMulticycle.dmemReqWdata s.core
  wmask := CoreMulticycle.dmemReqWmask s.core
  size := CoreMulticycle.dmemReqSize s.core

def pipeNext : Soc.Pipe :=
  if CoreMulticycle.dmemReqValid s.core i.ext && coreDmReqReady s i then ⟨true, coreDmReq s⟩
  else if s.pipe.valid && (dmOut s i).reqReady then { s.pipe with valid := false }
  else s.pipe

def portANext : PortA where
  rspValid := sramAReqValid s i
  rspRdata := if sramAReqValid s i then s.fabric.sram.mem (Fabric.bWordAddr (ifReqAddr s i)) else s.portA.rspRdata

/-- One clock edge out of reset. -/
def step : State where
  core := CoreMulticycle.step s.core (coreIn s i)
  pipe := pipeNext s i
  mmu := Mmu.step s.mmu (mmuIn s i)
  fabric := Fabric.step s.fabric (fabricIn s i)
  portA := portANext s i

abbrev run (resetPc : Word) (p : PowerOn) (inp : Nat → In) : Nat → State := Sync.run step (reset resetPc p) inp

end QinglongCore.SocMulticycle
