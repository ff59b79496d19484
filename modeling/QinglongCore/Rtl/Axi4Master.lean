import QinglongCore.Rtl.Defs

/-!
# AXI master (`axi4_master.sv`)

One transfer of one beat at a time. The constant attributes of the bus are left out.
-/

namespace QinglongCore.Axi4Master

inductive Fsm where
  | idle | write | writeB | read | readR
  deriving DecidableEq, Repr

/-- A request on a native port. -/
structure Req where
  valid : Bool
  addr : Word
  wen : Bool
  wdata : Word
  wmask : BitVec 4

/-- The lines from the slave. -/
structure Lines where
  awready : Bool
  wready : Bool
  bvalid : Bool
  bresp : BitVec 2
  arready : Bool
  rvalid : Bool
  rdata : Word
  rresp : BitVec 2

structure State where
  fsm : Fsm
  addr : Word
  wdata : Word
  wmask : BitVec 4
  awSent : Bool
  wSent : Bool
  rspValid : Bool
  rspFault : Bool
  rspRdata : Word
  cooldown : BitVec 4

def reset : State where
  fsm := .idle
  addr := 0
  wdata := 0
  wmask := 0
  awSent := false
  wSent := false
  rspValid := false
  rspFault := false
  rspRdata := 0
  cooldown := 0

variable (s : State) (r : Req) (l : Lines)

/-! ## Outputs -/

def reqReady : Bool := s.fsm == .idle && !s.rspValid && s.cooldown == 0

def awvalid : Bool := s.fsm == .write && !s.awSent
def wvalid : Bool := s.fsm == .write && !s.wSent
def bready : Bool := s.fsm == .writeB
def arvalid : Bool := s.fsm == .read
def rready : Bool := s.fsm == .readR

/-! ## Next state -/

def awDone : Bool := s.awSent || (awvalid s && l.awready)
def wDone : Bool := s.wSent || (wvalid s && l.wready)

/-- One clock edge out of reset. -/
def step : State :=
  let s' :=
    { s with
      rspValid := false, rspFault := false
      cooldown := if s.cooldown != 0 then s.cooldown - 1 else s.cooldown }
  match s.fsm with
  | .idle =>
      if r.valid && reqReady s then
        { s' with
          addr := r.addr, wdata := r.wdata, wmask := r.wmask, awSent := false, wSent := false
          fsm := if r.wen then .write else .read }
      else s'
  | .write =>
      { s' with
        awSent := awDone s l, wSent := wDone s l
        fsm := if awDone s l && wDone s l then .writeB else .write }
  | .writeB =>
      if l.bvalid then
        { s' with rspValid := true, rspRdata := 0, rspFault := l.bresp != 0, fsm := .idle, cooldown := 8 }
      else s'
  | .read => if arvalid s && l.arready then { s' with fsm := .readR } else s'
  | .readR =>
      if l.rvalid then
        { s' with rspValid := true, rspRdata := l.rdata, rspFault := l.rresp != 0, fsm := .idle, cooldown := 8 }
      else s'

end QinglongCore.Axi4Master
