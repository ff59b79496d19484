import QinglongCore.Rtl.AxilBramBig

/-!
# Router of the Linux test bench (`axi4_router_linux.sv`)

Slave 0 is the DDR, slave 1 the UART; everything else goes to a stub inside that answers DECERR.
-/

namespace QinglongCore.Axi4RouterLinux

open Axi4Master (Drive Lines)

/-- 0 = DDR, 1 = UART, 2 = DECERR. -/
def decode (addr : Word) : BitVec 2 :=
  if addr.extractLsb' 28 4 == 0x4 then 0
  else if addr.extractLsb' 28 4 == 0xC then 1
  else 2

structure State where
  selW : BitVec 2
  selWValid : Bool
  selR : BitVec 2
  selRValid : Bool
  dAw : Bool
  dW : Bool
  dB : Bool
  dAr : Bool
  dR : Bool

def reset : State where
  selW := 0
  selWValid := false
  selR := 0
  selRValid := false
  dAw := false
  dW := false
  dB := false
  dAr := false
  dR := false

variable (s : State) (m : Drive) (s₀ s₁ : Lines)

@[simp] def selWNow : BitVec 2 := decode m.awaddr
@[simp] def selRNow : BitVec 2 := decode m.araddr
@[simp] def selWEff : BitVec 2 := if s.selWValid then s.selW else selWNow m

/-- The one of three lines that belongs to the selected slave. -/
@[simp] def pick {α : Type} (sel : BitVec 2) (a b c : α) : α := if sel == 0 then a else if sel == 1 then b else c

/-! ## The stub -/

@[simp] def dAwready : Bool := !s.dAw
@[simp] def dWready : Bool := !s.dW
@[simp] def dArready : Bool := !s.dAr

/-! ## Towards the master -/

@[simp] def bRealValid : Bool := pick s.selW s₀.bvalid s₁.bvalid s.dB
@[simp] def rRealValid : Bool := pick s.selR s₀.rvalid s₁.rvalid s.dR

def lines : Lines where
  awready := pick (selWNow m) s₀.awready s₁.awready (dAwready s)
  wready := pick (selWEff s m) s₀.wready s₁.wready (dWready s)
  bvalid := if s.selWValid then bRealValid s s₀ s₁ else false
  bresp := if s.selWValid then pick s.selW s₀.bresp s₁.bresp 0b11 else 0
  arready := pick (selRNow m) s₀.arready s₁.arready (dArready s)
  rvalid := if s.selRValid then rRealValid s s₀ s₁ else false
  rdata := if s.selRValid then pick s.selR s₀.rdata s₁.rdata 0 else 0
  rresp := if s.selRValid then pick s.selR s₀.rresp s₁.rresp 0b11 else 0

/-! ## Towards the slaves -/

/-- The lines driven to the slave with number `k`. -/
def slave (k : BitVec 2) : Drive where
  awvalid := m.awvalid && selWNow m == k
  awaddr := m.awaddr
  wvalid := m.wvalid && selWEff s m == k
  wdata := m.wdata
  wstrb := m.wstrb
  bready := s.selWValid && s.selW == k && m.bready
  arvalid := m.arvalid && selRNow m == k
  araddr := m.araddr
  rready := s.selRValid && s.selR == k && m.rready

/-- One clock edge out of reset. -/
def step : State :=
  let l := lines s m s₀ s₁
  let bDone := s.dB && m.bready && s.selW == 2
  let rDone := s.dR && m.rready && s.selR == 2
  { dAw := if bDone then false else if m.awvalid && dAwready s && selWNow m == 2 then true else s.dAw
    dW := if bDone then false else if m.wvalid && dWready s && selWEff s m == 2 then true else s.dW
    dB := if bDone then false else if s.dAw && s.dW && !s.dB then true else s.dB
    dAr := if rDone then false else if m.arvalid && dArready s && selRNow m == 2 then true else s.dAr
    dR := if rDone then false else if s.dAr && !s.dR then true else s.dR
    selW := if m.awvalid && l.awready then selWNow m else s.selW
    selWValid := if m.awvalid && l.awready then true else if l.bvalid && m.bready then false else s.selWValid
    selR := if m.arvalid && l.arready then selRNow m else s.selR
    selRValid := if m.arvalid && l.arready then true else if l.rvalid && m.rready then false else s.selRValid }

end QinglongCore.Axi4RouterLinux
