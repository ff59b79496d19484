import QinglongCore.Rtl.Axi4Master

/-!
# BRAM slave (`axil_bram_big.sv`)

The memory has `2 ^ n` words, `n` being `AWIDTH`. The protection bits of the bus are not used and left out.
-/

namespace QinglongCore

/-- The lines that a master drives, on the bus or on a slave port. -/
structure Axi4Master.Drive where
  awvalid : Bool
  awaddr : Word
  wvalid : Bool
  wdata : Word
  wstrb : BitVec 4
  bready : Bool
  arvalid : Bool
  araddr : Word
  rready : Bool

def Axi4Master.drive (s : Axi4Master.State) : Axi4Master.Drive where
  awvalid := Axi4Master.awvalid s
  awaddr := s.addr
  wvalid := Axi4Master.wvalid s
  wdata := s.wdata
  wstrb := s.wmask
  bready := Axi4Master.bready s
  arvalid := Axi4Master.arvalid s
  araddr := s.addr
  rready := Axi4Master.rready s

namespace AxilBramBig

structure State (n : Nat) where
  mem : BitVec n → Word
  awHs : Bool
  wHs : Bool
  awaddr : Word
  wdata : Word
  wstrb : BitVec 4
  bvalid : Bool
  arHs : Bool
  rvalid : Bool
  araddr : Word
  rdata : Word

variable {n : Nat} (s : State n) (m : Axi4Master.Drive)

/-- Reset leaves the memory and the latched addresses and data as they are. -/
def reset : State n :=
  { s with awHs := false, wHs := false, bvalid := false, arHs := false, rvalid := false, rdata := 0 }

@[simp] def awready : Bool := !s.awHs
@[simp] def wready : Bool := !s.wHs
@[simp] def arready : Bool := !s.arHs

/-- The lines of the slave: every response is OKAY. -/
def lines : Axi4Master.Lines where
  awready := awready s
  wready := wready s
  bvalid := s.bvalid
  bresp := 0
  arready := arready s
  rvalid := s.rvalid
  rdata := s.rdata
  rresp := 0

/-- The word that a bus address names: its bits `AWIDTH+1:2`. -/
def index (n : Nat) (a : Word) : BitVec n := a.extractLsb' 2 n

def awIdx : BitVec n := index n s.awaddr
def arIdx : BitVec n := index n s.araddr

/-- One clock edge out of reset. -/
def step : State n :=
  let aw := m.awvalid && awready s
  let w := m.wvalid && wready s
  let write := s.awHs && s.wHs && !s.bvalid
  let bDone := s.bvalid && m.bready
  let ar := m.arvalid && arready s
  let read := s.arHs && !s.rvalid
  let rDone := s.rvalid && m.rready
  { mem := fun k =>
      if write && k == awIdx s then mergeBytes (s.mem k) s.wdata s.wstrb else s.mem k
    awaddr := if aw then m.awaddr else s.awaddr
    awHs := if bDone then false else if aw then true else s.awHs
    wdata := if w then m.wdata else s.wdata
    wstrb := if w then m.wstrb else s.wstrb
    wHs := if bDone then false else if w then true else s.wHs
    bvalid := if bDone then false else if write then true else s.bvalid
    araddr := if ar then m.araddr else s.araddr
    arHs := if rDone then false else if ar then true else s.arHs
    rdata := if read then s.mem (arIdx s) else s.rdata
    rvalid := if rDone then false else if read then true else s.rvalid }

end AxilBramBig

end QinglongCore
