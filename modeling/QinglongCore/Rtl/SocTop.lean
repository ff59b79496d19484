import QinglongCore.Rtl.Clint
import QinglongCore.Rtl.Console
import QinglongCore.Rtl.Plic
import QinglongCore.Rtl.Soc
import QinglongCore.Rtl.SramDp

/-!
# The chip (`soc_top.sv`)

The pipelined core with its MMU, the bus fabric, port A of the SRAM, the console port, the CLINT and the PLIC, wired
up as in the configuration without caches. What is left outside is the AXI slave, the console's readiness and the
interrupt line of the UART.
-/

namespace QinglongCore.SocTop

open Axi4Master (Req Lines)

def PLIC_NUM_SOURCES : Nat := 4
def PLIC_NUM_CTX : Nat := 2

structure State where
  soc : Soc.State
  fabric : Fabric.State
  aRspValid : Bool
  aRspRdata : Word
  mmio : Mmio.State
  clint : Clint.State
  plic : Plic.State PLIC_NUM_SOURCES PLIC_NUM_CTX

structure In where
  consoleReady : Bool
  axi : Lines
  uartIrq : Bool

/-- What reset leaves undefined: the registers of the core, the payload of the request register, the contents of the
SRAM and the read data of its ports. -/
structure Unreset where
  regs : RegFile
  payload : Mmu.Req
  mem : BitVec 14 → Word
  aRdata : Word
  bRdata : Word

def reset (resetPc : Word) (x : Unreset) : State where
  soc := Soc.reset resetPc x.regs x.payload
  fabric := Fabric.reset x.mem x.bRdata
  aRspValid := false
  aRspRdata := x.aRdata
  mmio := Mmio.reset
  clint := Clint.reset
  plic := Plic.reset PLIC_NUM_SOURCES PLIC_NUM_CTX

variable (s : State) (i : In)

/-! ## Interrupts -/

def plicSources : BitVec PLIC_NUM_SOURCES := Plic.putBit 0 1 i.uartIrq

/-- The interrupt lines from the CLINT and the two contexts of the PLIC. -/
def ext : Ext where
  mti := Clint.mti s.clint
  msi := Clint.msi s.clint
  mei := Plic.irqO s.plic (0 : Fin 2)
  sei := Plic.irqO s.plic (1 : Fin 2)
  mtime := s.clint.mtime

/-! ## Requests -/

/-- Inputs to read the request lines of the MMU off, which do not look at the answers of the buses. -/
def unanswered : Soc.In := { Soc.In.ready with ext := ext s }

def ifReqValid : Bool := (Soc.ifOut s.soc (unanswered s)).dsReqValid
def ifReqAddr : Word := (Soc.ifOut s.soc (unanswered s)).dsReq.addr

def dmReq : Req :=
  let o := Soc.dmOut s.soc (unanswered s)
  ⟨o.dsReqValid, o.dsReq.addr, o.dsReq.wen, o.dsReq.wdata, o.dsReq.wmask⟩

def mmioReq : Req := { dmReq s with valid := (dmReq s).valid && Fabric.dmIsMmio (dmReq s).addr }
def clintReq : Req := { dmReq s with valid := (dmReq s).valid && Fabric.dmIsClint (dmReq s).addr }
def plicReq : Req := { dmReq s with valid := (dmReq s).valid && Fabric.dmIsPlic (dmReq s).addr }
def sramAReqValid : Bool := ifReqValid s && Fabric.isSram (ifReqAddr s)

/-- The lines around the bus fabric. -/
def fabricIn : Fabric.In where
  ptwReqValid := Mmu.ptwReqValid s.soc.mmu
  ptwReqAddr := Mmu.ptwReqAddr s.soc.mmu (Soc.mmuIn s.soc (unanswered s))
  ifReqValid := ifReqValid s
  ifReqAddr := ifReqAddr s
  dmReq := dmReq s
  ifSram := ⟨true, ⟨s.aRspValid, s.aRspRdata, false⟩⟩
  mmio := ⟨Mmio.reqReady (mmioReq s) i.consoleReady, ⟨s.mmio.rspValid, s.mmio.rspRdata, s.mmio.rspFault⟩⟩
  clint := ⟨true, ⟨s.clint.rspValid, s.clint.rspRdata, s.clint.rspFault⟩⟩
  plic := ⟨true, ⟨s.plic.rspValid, s.plic.rspRdata, s.plic.rspFault⟩⟩
  axi := i.axi

/-- The lines around the core and the MMU. -/
def socIn : Soc.In where
  ifReqReady := Fabric.ifReqReady s.fabric (fabricIn s i)
  ifRspValid := (Fabric.ifRsp s.fabric (fabricIn s i)).valid
  ifRspData := (Fabric.ifRsp s.fabric (fabricIn s i)).data
  ifRspFault := (Fabric.ifRsp s.fabric (fabricIn s i)).fault
  dmReqReady := Fabric.dmReqReady s.fabric (fabricIn s i)
  dmRspValid := (Fabric.dmRsp s.fabric (fabricIn s i)).valid
  dmRspRdata := (Fabric.dmRsp s.fabric (fabricIn s i)).data
  dmRspFault := (Fabric.dmRsp s.fabric (fabricIn s i)).fault
  ptwReqReady := Fabric.ptwReqReady s.fabric (fabricIn s i)
  ptwRspValid := (Fabric.ptwRsp s.fabric).valid
  ptwRspRdata := (Fabric.ptwRsp s.fabric).data
  ptwRspFault := (Fabric.ptwRsp s.fabric).fault
  ext := ext s

/-- The lines of the core. -/
def coreIn : CorePipeline.In := Soc.coreIn s.soc (socIn s i)

/-! ## The clock edge -/

/-- One clock edge out of reset. -/
def step : State where
  soc := Soc.step s.soc (socIn s i)
  fabric := Fabric.step s.fabric (fabricIn s i)
  aRspValid := sramAReqValid s
  aRspRdata := if sramAReqValid s then s.fabric.sram.mem (Fabric.bWordAddr (ifReqAddr s)) else s.aRspRdata
  mmio := Mmio.step s.mmio (mmioReq s) i.consoleReady
  clint := Clint.step s.clint (clintReq s)
  plic := Plic.step s.plic ⟨plicReq s, plicSources i⟩

/-- The chip out of reset, in cycle `t` of a run. -/
abbrev run (resetPc : Word) (x : Unreset) (inp : Nat → In) : Nat → State := Sync.run step (reset resetPc x) inp

/-! ## What the chip shows -/

/-- The bytes that have come out of the console port before cycle `t`. -/
def printed (c : Nat → State) : Nat → List (BitVec 8)
  | 0 => []
  | t + 1 => printed c t ++ if (c t).mmio.consoleValid then [(c t).mmio.consoleByte] else []

/-- The code that the program has left with. -/
def exitCode : Option Word := if s.mmio.exitValid then some s.mmio.exitCode else none

variable {s i}

/-! ## The request lines -/

section
variable (x : Mmu.Side) (c : Mmu.Ctx) (a : Mmu.Access) (p : Mmu.Port) (ready valid : Bool) (data : Word) (fault : Bool)

/-- A port with other answers of the downstream bus. -/
def answered : Mmu.Port :=
  { p with dsReqReady := ready, dsRspValid := valid, dsRspData := data, dsRspFault := fault }

theorem muxed_answered : (x.muxed c a (answered p ready valid data fault)).dsReqValid = (x.muxed c a p).dsReqValid ∧
    (x.muxed c a (answered p ready valid data fault)).dsReq = (x.muxed c a p).dsReq := by
  have hb : x.branch c a (answered p ready valid data fault) = x.branch c a p := rfl
  rw [Mmu.Side.muxed, hb, Mmu.Side.muxed]
  cases x.branch c a p <;> exact ⟨rfl, rfl⟩

/-- The MMU raises its requests whatever the buses answer. -/
theorem out_answered : (x.out c a (answered p ready valid data fault)).dsReqValid = (x.out c a p).dsReqValid ∧
    (x.out c a (answered p ready valid data fault)).dsReq = (x.out c a p).dsReq := by
  have hk : x.pmpKill c a (answered p ready valid data fault) = x.pmpKill c a p := rfl
  rw [Mmu.Side.out, hk, Mmu.Side.out]
  split_ifs
  · exact ⟨rfl, by rw [(muxed_answered x c a p ready valid data fault).2]⟩
  · exact muxed_answered x c a p ready valid data fault

end

theorem ifOut_req (i : In) : (Soc.ifOut s.soc (socIn s i)).dsReqValid = ifReqValid s ∧
    (Soc.ifOut s.soc (socIn s i)).dsReq.addr = ifReqAddr s := by
  have h := out_answered s.soc.mmu.ifs (Soc.ctx s.soc.core.csr) (Mmu.ifAccess (Soc.ctx s.soc.core.csr))
    (Soc.ifPort s.soc (unanswered s)) (socIn s i).ifReqReady (socIn s i).ifRspValid (socIn s i).ifRspData
    (socIn s i).ifRspFault
  exact ⟨h.1, congrArg Mmu.Req.addr h.2⟩

theorem dmOut_req (i : In) : (Soc.dmOut s.soc (socIn s i)).dsReqValid = (dmReq s).valid ∧
    (Soc.dmOut s.soc (socIn s i)).dsReq = (Soc.dmOut s.soc (unanswered s)).dsReq :=
  out_answered s.soc.mmu.dms (Soc.ctx s.soc.core.csr) (Mmu.dmAccess (Soc.ctx s.soc.core.csr))
    (Soc.dmPort s.soc (unanswered s)) (socIn s i).dmReqReady (socIn s i).dmRspValid (socIn s i).dmRspRdata
    (socIn s i).dmRspFault

end QinglongCore.SocTop
