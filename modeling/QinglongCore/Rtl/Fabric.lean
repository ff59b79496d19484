import QinglongCore.Rtl.Axi4Master

/-!
# Bus fabric (`soc_top.sv`, `sram_dp.sv`)

The paths from the page walker, the fetch side and the data side of the MMU to SRAM port B and the AXI master,
with the two arbiters, the responders of bad addresses and the merges of the responses, in the configuration
without the data cache. The path of fetches to the SRAM, `mmio`, `clint` and `plic` are inputs.
-/

namespace QinglongCore.Fabric

open Axi4Master (Req Lines)

/-- The values of `inflight_client_q`. -/
inductive Client where
  | ptw | ifetch | dmem
  deriving DecidableEq, Repr

/-- A response port: `*_rsp_valid`, `*_rsp_rdata`, `*_rsp_fault`. -/
structure Rsp where
  valid : Bool
  data : Word
  fault : Bool
  deriving DecidableEq

/-- The side of a responder that a request path ends in. -/
structure Device where
  reqReady : Bool
  rsp : Rsp

/-- `ptw_mem_req_*`, `if_req_*` (reads) and `dm_req_*`, the responders that are not modelled, and the AXI slave. -/
structure In where
  ptwReqValid : Bool
  ptwReqAddr : Word
  ifReqValid : Bool
  ifReqAddr : Word
  dmReq : Req
  ifSram : Device
  mmio : Device
  clint : Device
  plic : Device
  axi : Lines

/-- Port B of `sram_dp`: the array and the registers of the response, of 2^14 words. -/
structure Sram where
  mem : BitVec 14 → Word
  bRspValid : Bool
  bRspRdata : Word

structure State where
  sram : Sram
  lastWasPtw : Bool
  master : Axi4Master.State
  inflightClient : Client
  arbLastGrantIf : Bool
  ptwBadRspValid : Bool
  ifBadRspValid : Bool
  dmemBadRspValid : Bool

/-- The SRAM array has no reset. -/
def reset (mem : BitVec 14 → Word) (rdata : Word) : State where
  sram := ⟨mem, false, rdata⟩
  lastWasPtw := false
  master := Axi4Master.reset
  inflightClient := .ptw
  arbLastGrantIf := false
  ptwBadRspValid := false
  ifBadRspValid := false
  dmemBadRspValid := false

/-! ## Address decode -/

def isSram (a : Word) : Bool := a.extractLsb' 16 16 == 0x8000#16

/-- `ptw_is_axi` and `if_is_axi`. -/
def isAxi (a : Word) : Bool := a.extractLsb' 28 4 == 0x4#4

def dmIsClint (a : Word) : Bool := a.extractLsb' 20 12 == 0x020#12
def dmIsPlic (a : Word) : Bool := a.extractLsb' 24 8 == 0x0C#8
def dmIsAxi (a : Word) : Bool := a.extractLsb' 28 4 == 0x4#4 || a.extractLsb' 28 4 == 0xC#4
def dmIsMmio (a : Word) : Bool := a.extractLsb' 16 16 == 0xD058#16

variable (s : State) (i : In)

def ptwIsBad : Bool := i.ptwReqValid && !isSram i.ptwReqAddr && !isAxi i.ptwReqAddr
def ifIsBad : Bool := i.ifReqValid && !isSram i.ifReqAddr && !isAxi i.ifReqAddr

def dmIsBad : Bool :=
  i.dmReq.valid && !isSram i.dmReq.addr && !dmIsMmio i.dmReq.addr && !dmIsClint i.dmReq.addr &&
    !dmIsPlic i.dmReq.addr && !dmIsAxi i.dmReq.addr

/-! ## SRAM port B -/

def ptwSramReqValid : Bool := i.ptwReqValid && isSram i.ptwReqAddr
def dmSramReqValid : Bool := i.dmReq.valid && isSram i.dmReq.addr

/-- `arb_pick_ptw`. -/
def arbPickPtw : Bool := ptwSramReqValid i

def sramBReq : Req :=
  if arbPickPtw i then ⟨ptwSramReqValid i, i.ptwReqAddr, false, 0, 0xF⟩ else { i.dmReq with valid := dmSramReqValid i }

def sramBReqReady : Bool := true

def bWordAddr (a : Word) : BitVec 14 := a.extractLsb' 2 14

def sramNext : Sram :=
  let r := sramBReq i
  let n := bWordAddr r.addr
  if r.valid then
    if r.wen then
      { s.sram with
        bRspValid := true
        mem := fun k => if k = n then mergeBytes (s.sram.mem n) r.wdata r.wmask else s.sram.mem k }
    else { s.sram with bRspValid := true, bRspRdata := s.sram.mem n }
  else { s.sram with bRspValid := false }

/-! ## AXI arbiter -/

def ptwAxiReqValid : Bool := i.ptwReqValid && isAxi i.ptwReqAddr
def ifAxiReqValid : Bool := i.ifReqValid && isAxi i.ifReqAddr
def axiReqValid : Bool := i.dmReq.valid && dmIsAxi i.dmReq.addr

/-- `arb_pick_ptw_ax`, `arb_pick_if` and `arb_pick_dm`. -/
def arbPickPtwAx : Bool := ptwAxiReqValid i
def arbPickIf : Bool := !arbPickPtwAx i && ifAxiReqValid i && (!axiReqValid i || !s.arbLastGrantIf)
def arbPickDm : Bool := !arbPickPtwAx i && !arbPickIf s i && axiReqValid i

def amReq : Req where
  valid := ptwAxiReqValid i || ifAxiReqValid i || axiReqValid i
  addr := if arbPickPtwAx i then i.ptwReqAddr else if arbPickIf s i then i.ifReqAddr else i.dmReq.addr
  wen := if arbPickPtwAx i then false else if arbPickIf s i then false else i.dmReq.wen
  wdata := if arbPickPtwAx i then 0 else if arbPickIf s i then 0 else i.dmReq.wdata
  wmask := if arbPickPtwAx i then 0 else if arbPickIf s i then 0 else i.dmReq.wmask

def amReqReady : Bool := Axi4Master.reqReady s.master
def amFired : Bool := (amReq s i).valid && amReqReady s

/-- The responses of the master, seen by the client that is in flight. -/
def axiRsp (c : Client) : Rsp where
  valid := s.master.rspValid && s.inflightClient == c
  data := s.master.rspRdata
  fault := s.master.rspFault && s.inflightClient == c

/-- The responses of port B, seen by the walker and by the data side. -/
def sramBRsp (ptw : Bool) : Rsp := ⟨s.sram.bRspValid && s.lastWasPtw == ptw, s.sram.bRspRdata, false⟩

/-! ## Ports of the clients -/

def ptwReqReady : Bool :=
  if isSram i.ptwReqAddr then sramBReqReady
  else if isAxi i.ptwReqAddr then arbPickPtwAx i && amReqReady s
  else true

def ptwRsp : Rsp where
  valid := (sramBRsp s true).valid || (axiRsp s .ptw).valid || s.ptwBadRspValid
  data := if (sramBRsp s true).valid then (sramBRsp s true).data
    else if (axiRsp s .ptw).valid then (axiRsp s .ptw).data else 0
  fault := (axiRsp s .ptw).fault || s.ptwBadRspValid

def ifReqReady : Bool :=
  if isSram i.ifReqAddr then i.ifSram.reqReady
  else if isAxi i.ifReqAddr then arbPickIf s i && amReqReady s
  else true

def ifRsp : Rsp where
  valid := i.ifSram.rsp.valid || (axiRsp s .ifetch).valid || s.ifBadRspValid
  data := if i.ifSram.rsp.valid then i.ifSram.rsp.data
    else if (axiRsp s .ifetch).valid then (axiRsp s .ifetch).data else 0
  fault := i.ifSram.rsp.fault || (axiRsp s .ifetch).fault || s.ifBadRspValid

def dmReqReady : Bool :=
  if isSram i.dmReq.addr then (if arbPickPtw i then false else sramBReqReady)
  else if dmIsMmio i.dmReq.addr then i.mmio.reqReady
  else if dmIsClint i.dmReq.addr then i.clint.reqReady
  else if dmIsPlic i.dmReq.addr then i.plic.reqReady
  else if dmIsAxi i.dmReq.addr then arbPickDm s i && amReqReady s
  else true

def dmRsp : Rsp where
  valid := (sramBRsp s false).valid || i.mmio.rsp.valid || i.clint.rsp.valid || i.plic.rsp.valid ||
    (axiRsp s .dmem).valid || s.dmemBadRspValid
  data := if (sramBRsp s false).valid then (sramBRsp s false).data
    else if i.mmio.rsp.valid then i.mmio.rsp.data
    else if i.clint.rsp.valid then i.clint.rsp.data
    else if i.plic.rsp.valid then i.plic.rsp.data
    else if (axiRsp s .dmem).valid then (axiRsp s .dmem).data else 0
  fault := (sramBRsp s false).fault || i.mmio.rsp.fault || i.clint.rsp.fault || i.plic.rsp.fault ||
    (axiRsp s .dmem).fault || s.dmemBadRspValid

/-! ## Next state -/

/-- One clock edge out of reset. -/
def step : State where
  sram := sramNext s i
  lastWasPtw := if (sramBReq i).valid && sramBReqReady then arbPickPtw i else s.lastWasPtw
  master := Axi4Master.step s.master (amReq s i) i.axi
  inflightClient :=
    if amFired s i then (if arbPickPtwAx i then .ptw else if arbPickIf s i then .ifetch else .dmem)
    else s.inflightClient
  arbLastGrantIf := if amFired s i && (arbPickIf s i || arbPickDm s i) then arbPickIf s i else s.arbLastGrantIf
  ptwBadRspValid := ptwIsBad i
  ifBadRspValid := ifIsBad i && !s.ifBadRspValid
  dmemBadRspValid := dmIsBad i

end QinglongCore.Fabric
