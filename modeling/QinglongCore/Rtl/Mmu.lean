import QinglongCore.Base.Sync
import QinglongCore.Rtl.Pmp

/-!
# MMU (`mmu.sv`)

The fetch and the data side are the same circuit over their own registers; what differs is the access they
make (`Access`) and that only the data side has a payload. The page-table walker is shared.
-/

namespace QinglongCore.Mmu

/-! ## Ports -/

/-- The CSR inputs. -/
structure Ctx where
  satp : Word
  priv : BitVec 2
  mprv : Bool
  mpp : BitVec 2
  sum : Bool
  mxr : Bool
  pmp : Pmp.Config

/-- A request with its payload; the fetch side leaves the payload zero. -/
structure Req where
  addr : Word
  wen : Bool
  wdata : Word
  wmask : BitVec 4
  size : BitVec 2

def Req.fetch (addr : Word) : Req := ⟨addr, false, 0, 0, 0⟩

/-- The inputs of one side: the request of the core and the answers of the downstream bus. -/
structure Port where
  reqValid : Bool
  req : Req
  rspReady : Bool
  dsReqReady : Bool
  dsRspValid : Bool
  dsRspData : Word
  dsRspFault : Bool

/-- The outputs of one side. -/
structure Out where
  reqReady : Bool
  rspValid : Bool
  rspData : Word
  rspFault : Bool
  rspPagefault : Bool
  dsReqValid : Bool
  dsReq : Req
  dsRspReady : Bool

/-- `sfence_vma_i` with its operands. -/
structure Sfence where
  valid : Bool
  rs1Nz : Bool
  rs1Va : Word
  rs2Nz : Bool
  rs2Asid : BitVec 9

structure In where
  ctx : Ctx
  sfence : Sfence
  ifp : Port
  dmp : Port
  ptwReqReady : Bool
  ptwRspValid : Bool
  ptwRspRdata : Word
  ptwRspFault : Bool

/-! ## Registers -/

structure TlbEntry where
  valid : Bool
  isSp : Bool
  asid : BitVec 9
  g : Bool
  vpn : BitVec 20
  ppn : BitVec 22
  r : Bool
  w : Bool
  x : Bool
  u : Bool
  a : Bool
  d : Bool
  deriving DecidableEq

def TlbEntry.zero : TlbEntry := ⟨false, false, 0, false, 0, 0, false, false, false, false, false, false⟩

/-- The walk-result registers of a side. -/
structure Xlate where
  valid : Bool
  fault : Bool
  pa : Word
  va : Word
  deriving DecidableEq

structure Side where
  xlate : Xlate
  tlb : Fin 4 → TlbEntry
  repl : Fin 4
  pmpPending : Bool

inductive PtwFsm where
  | idle | l1Req | l1Wait | l0Req | l0Wait
  deriving DecidableEq, Repr

structure Ptw where
  state : PtwFsm
  /-- `ptw_side_q`, set for the data side. -/
  side : Bool
  isFetch : Bool
  isStore : Bool
  effPriv : BitVec 2
  va : Word
  l1Ppn1 : BitVec 12
  l1Ppn0 : BitVec 10

structure State where
  ptw : Ptw
  ifs : Side
  dms : Side

def Side.reset : Side where
  xlate := ⟨false, false, 0, 0⟩
  tlb := fun _ => TlbEntry.zero
  repl := 0
  pmpPending := false

def reset : State where
  ptw := ⟨.idle, false, false, false, PRV_M, 0, 0, 0⟩
  ifs := Side.reset
  dms := Side.reset

/-! ## Translation in force -/

namespace Ctx

variable (c : Ctx)

def satpOn : Bool := c.satp.getLsbD 31
def asid : BitVec 9 := c.satp.extractLsb' 22 9
def dmEffPriv : BitVec 2 := if c.priv = PRV_M ∧ c.mprv = true then c.mpp else c.priv
def xlateIf : Bool := c.satpOn && c.priv != PRV_M
def xlateDm : Bool := c.satpOn && c.dmEffPriv != PRV_M

end Ctx

/-- What distinguishes the sides: `xlate_*`, the privilege of the access, and whether it fetches. -/
structure Access where
  xlate : Bool
  effPriv : BitVec 2
  isFetch : Bool

def ifAccess (c : Ctx) : Access := ⟨c.xlateIf, c.priv, true⟩
def dmAccess (c : Ctx) : Access := ⟨c.xlateDm, c.dmEffPriv, false⟩

def permOk (effPriv : BitVec 2) (isFetch isStore r w x u a d sum mxr : Bool) : Bool :=
  let opOk := if isFetch then x else if isStore then r && w else r || (mxr && x)
  let uOk :=
    if effPriv = PRV_U then u
    else if effPriv = PRV_S then (if isFetch then !u else !u || sum)
    else true
  opOk && uOk && a && (!isStore || d)

/-! ## Lookup and forwarding of a side -/

def tlbMatch (e : TlbEntry) (va : Word) (asid : BitVec 9) : Bool :=
  e.valid && (e.g || e.asid == asid) && e.vpn.extractLsb' 10 10 == va.extractLsb' 22 10 &&
    (e.isSp || e.vpn.extractLsb' 0 10 == va.extractLsb' 12 10)

/-- The matching entry of the highest index. -/
def lookup (tlb : Fin 4 → TlbEntry) (va : Word) (asid : BitVec 9) : Option TlbEntry :=
  if tlbMatch (tlb 3) va asid then some (tlb 3)
  else if tlbMatch (tlb 2) va asid then some (tlb 2)
  else if tlbMatch (tlb 1) va asid then some (tlb 1)
  else if tlbMatch (tlb 0) va asid then some (tlb 0)
  else none

/-- The physical address of a hit, cut to 32 bits. -/
def TlbEntry.pa (e : TlbEntry) (va : Word) : Word :=
  if e.isSp then (e.ppn.extractLsb' 10 10 ++ va.extractLsb' 0 22)
  else (e.ppn.extractLsb' 0 20 ++ va.extractLsb' 0 12)

def TlbEntry.permOk (e : TlbEntry) (c : Ctx) (a : Access) (wen : Bool) : Bool :=
  Mmu.permOk a.effPriv a.isFetch wen e.r e.w e.x e.u e.a e.d c.sum c.mxr

/-- The branches of the forwarding multiplexer, in its order. -/
inductive Branch where
  | bare | tlbGo | tlbDeny | forward | faultReply | wait
  deriving DecidableEq, Repr

namespace Side

variable (x : Side) (c : Ctx) (a : Access) (p : Port)

def hit : Option TlbEntry := lookup x.tlb p.req.addr c.asid

def tlbGo : Bool :=
  a.xlate && match x.hit c p with
    | some e => e.permOk c a p.req.wen
    | none => false

def tlbDeny : Bool :=
  a.xlate && match x.hit c p with
    | some e => !e.permOk c a p.req.wen
    | none => false

def tlbPa : Word := ((x.hit c p).map fun e => e.pa p.req.addr).getD (0#20 ++ p.req.addr.extractLsb' 0 12)

/-- `*_xlate_va_match`: equal virtual page numbers. -/
def vaMatch : Bool := x.xlate.va.extractLsb' 12 20 == p.req.addr.extractLsb' 12 20

def cacheUsable : Bool := x.xlate.valid && x.vaMatch p
def cacheLive : Bool := x.xlate.valid && (!p.reqValid || x.vaMatch p)
def forward : Bool := a.xlate && x.cacheLive p && !x.xlate.fault
def faultReply : Bool := a.xlate && x.cacheLive p && x.xlate.fault
def needsWalk : Bool := a.xlate && p.reqValid && (x.hit c p).isNone && !x.cacheUsable p

def branch : Branch :=
  if !a.xlate then .bare
  else if x.tlbGo c a p then .tlbGo
  else if x.tlbDeny c a p then .tlbDeny
  else if x.forward a p then .forward
  else if x.faultReply a p then .faultReply
  else .wait

/-- `*_pmp_addr` where `*_pmp_active` may be raised. -/
def pmpAddr : Option Word :=
  if !a.xlate then some p.req.addr
  else if x.tlbGo c a p then some (x.tlbPa c p)
  else if x.xlate.valid && !x.xlate.fault && x.vaMatch p then some x.xlate.pa
  else none

def pmpAccess : Pmp.Access :=
  if a.isFetch then ⟨false, false, true⟩ else ⟨!p.req.wen, p.req.wen, false⟩

def pmpKillComb : Bool :=
  match x.pmpAddr c a p with
  | some pa => p.reqValid && Pmp.fault c.pmp a.effPriv pa (pmpAccess a p)
  | none => false

def pmpKill : Bool := x.pmpKillComb c a p || x.pmpPending

/-- A branch that passes the request to address `pa` and the response through. -/
def pass (pa : Word) : Out where
  reqReady := p.dsReqReady
  rspValid := p.dsRspValid
  rspData := p.dsRspData
  rspFault := p.dsRspFault
  rspPagefault := false
  dsReqValid := p.reqValid
  dsReq := { p.req with addr := pa }
  dsRspReady := p.rspReady

/-- A branch that answers the core itself. -/
def refuse (pagefault : Bool) : Out where
  reqReady := true
  rspValid := true
  rspData := 0
  rspFault := !pagefault
  rspPagefault := pagefault
  dsReqValid := false
  dsReq := ⟨0, false, 0, 0, 0⟩
  dsRspReady := true

def stall : Out where
  reqReady := false
  rspValid := false
  rspData := 0
  rspFault := false
  rspPagefault := false
  dsReqValid := false
  dsReq := ⟨0, false, 0, 0, 0⟩
  dsRspReady := true

/-- The multiplexer before the PMP override. -/
def muxed : Out :=
  match x.branch c a p with
  | .bare => pass p p.req.addr
  | .tlbGo => pass p (x.tlbPa c p)
  | .tlbDeny => refuse true
  | .forward => pass p x.xlate.pa
  | .faultReply => refuse true
  | .wait => stall

/-- A PMP denial answers with an access fault and leaves the other request lines as they are. -/
def out : Out :=
  if x.pmpKill c a p then
    { refuse false with dsReq := { (x.muxed c a p).dsReq with wen := false } }
  else x.muxed c a p

/-! ### Handshakes -/

def forwardRspDone : Bool := x.forward a p && p.dsRspValid && p.rspReady
def faultRspDone : Bool := x.faultReply a p && p.rspReady
def tlbReqFire : Bool := x.tlbGo c a p && p.reqValid && p.dsReqReady
def tlbRspFire : Bool := x.tlbGo c a p && p.dsRspValid && p.rspReady
def tlbDenyFire : Bool := x.tlbDeny c a p && p.reqValid && p.rspReady

end Side

/-! ## Page-table walker -/

variable (s : State) (i : In)

def ifAcc : Access := ifAccess i.ctx
def dmAcc : Access := dmAccess i.ctx

def ifOut : Out := s.ifs.out i.ctx (ifAcc i) i.ifp
def dmOut : Out := s.dms.out i.ctx (dmAcc i) i.dmp

def ifNeedsWalk : Bool := s.ifs.needsWalk i.ctx (ifAcc i) i.ifp
def dmNeedsWalk : Bool := s.dms.needsWalk i.ctx (dmAcc i) i.dmp
def launchIf : Bool := s.ptw.state == .idle && ifNeedsWalk s i
def launchDm : Bool := s.ptw.state == .idle && !ifNeedsWalk s i && dmNeedsWalk s i

namespace Pte

variable (pte : Word)

def v : Bool := pte.getLsbD 0
def r : Bool := pte.getLsbD 1
def w : Bool := pte.getLsbD 2
def x : Bool := pte.getLsbD 3
def u : Bool := pte.getLsbD 4
def g : Bool := pte.getLsbD 5
def a : Bool := pte.getLsbD 6
def d : Bool := pte.getLsbD 7
def ppn0 : BitVec 10 := pte.extractLsb' 10 10
def ppn1 : BitVec 12 := pte.extractLsb' 20 12
def isLeaf : Bool := r pte || x pte
def isBad : Bool := !v pte || (w pte && !r pte)

end Pte

/-- `{satp[21:0], 12'd0} + vpn1 * 4`, cut to 32 bits. -/
def l1Addr (satp va : Word) : Word :=
  (satp.extractLsb' 0 20 ++ 0#12) + (0#20 ++ va.extractLsb' 22 10 ++ 0#2)

def l0Addr (ppn1 : BitVec 12) (ppn0 : BitVec 10) (va : Word) : Word :=
  (ppn1.extractLsb' 0 10 ++ ppn0 ++ 0#12) + (0#20 ++ va.extractLsb' 12 10 ++ 0#2)

def ptwReqValid : Bool := s.ptw.state == .l1Req || s.ptw.state == .l0Req

def ptwReqAddr : Word :=
  match s.ptw.state with
  | .l1Req => l1Addr i.ctx.satp s.ptw.va
  | .l0Req => l0Addr s.ptw.l1Ppn1 s.ptw.l1Ppn0 s.ptw.va
  | _ => 0

def ptePermOk : Bool :=
  permOk s.ptw.effPriv s.ptw.isFetch s.ptw.isStore (Pte.r i.ptwRspRdata) (Pte.w i.ptwRspRdata)
    (Pte.x i.ptwRspRdata) (Pte.u i.ptwRspRdata) (Pte.a i.ptwRspRdata) (Pte.d i.ptwRspRdata)
    i.ctx.sum i.ctx.mxr

/-- The response of the level-1 read ends the walk with a fault. -/
def l1Bad : Bool := i.ptwRspFault || Pte.isBad i.ptwRspRdata
def l1Misaligned : Bool := Pte.ppn0 i.ptwRspRdata != 0#10
def l1LeafOk : Bool := !l1Misaligned i && ptePermOk s i
def l0WellFormed : Bool := !i.ptwRspFault && !Pte.isBad i.ptwRspRdata && Pte.isLeaf i.ptwRspRdata
def l0LeafOk : Bool := l0WellFormed i && ptePermOk s i

def ptwNext : Ptw :=
  match s.ptw.state with
  | .idle =>
      if launchIf s i then
        { s.ptw with
          state := .l1Req, side := false, va := i.ifp.req.addr, isFetch := true, isStore := false
          effPriv := i.ctx.priv }
      else if launchDm s i then
        { s.ptw with
          state := .l1Req, side := true, va := i.dmp.req.addr, isFetch := false
          isStore := i.dmp.req.wen, effPriv := i.ctx.dmEffPriv }
      else s.ptw
  | .l1Req => if i.ptwReqReady then { s.ptw with state := .l1Wait } else s.ptw
  | .l1Wait =>
      if i.ptwRspValid then
        if l1Bad i || Pte.isLeaf i.ptwRspRdata then { s.ptw with state := .idle }
        else
          { s.ptw with
            state := .l0Req, l1Ppn1 := Pte.ppn1 i.ptwRspRdata, l1Ppn0 := Pte.ppn0 i.ptwRspRdata }
      else s.ptw
  | .l0Req => if i.ptwReqReady then { s.ptw with state := .l0Wait } else s.ptw
  | .l0Wait => if i.ptwRspValid then { s.ptw with state := .idle } else s.ptw

/-- What the end of a walk writes into the walk-result registers `x` of its side. -/
def walkXlate (x : Xlate) : Option Xlate :=
  let pte := i.ptwRspRdata
  match s.ptw.state with
  | .l1Wait =>
      if i.ptwRspValid then
        if l1Bad i then some { x with valid := true, fault := true, va := s.ptw.va }
        else if Pte.isLeaf pte then
          some
            { valid := true
              fault := !l1LeafOk s i
              pa := if l1LeafOk s i then (Pte.ppn1 pte).extractLsb' 0 10 ++ s.ptw.va.extractLsb' 0 22 else 0
              va := s.ptw.va }
        else none
      else none
  | .l0Wait =>
      if i.ptwRspValid then
        some
          { valid := true
            fault := !l0LeafOk s i
            pa :=
              if l0LeafOk s i then
                (Pte.ppn1 pte).extractLsb' 0 10 ++ Pte.ppn0 pte ++ s.ptw.va.extractLsb' 0 12
              else 0
            va := s.ptw.va }
      else none
  | _ => none

/-- The TLB entry made of a leaf. -/
def fillEntry (asid : BitVec 9) (isSp : Bool) (va pte : Word) : TlbEntry where
  valid := true
  isSp := isSp
  asid := asid
  g := Pte.g pte
  vpn := if isSp then va.extractLsb' 22 10 ++ 0#10 else va.extractLsb' 12 20
  ppn := if isSp then Pte.ppn1 pte ++ 0#10 else Pte.ppn1 pte ++ Pte.ppn0 pte
  r := Pte.r pte
  w := Pte.w pte
  x := Pte.x pte
  u := Pte.u pte
  a := Pte.a pte
  d := Pte.d pte

/-- The entry that the end of a walk fills into the TLB of its side. -/
def walkFill : Option TlbEntry :=
  match s.ptw.state with
  | .l1Wait =>
      if i.ptwRspValid && !l1Bad i && Pte.isLeaf i.ptwRspRdata && !l1Misaligned i then
        some (fillEntry i.ctx.asid true s.ptw.va i.ptwRspRdata)
      else none
  | .l0Wait =>
      if i.ptwRspValid && l0WellFormed i then
        some (fillEntry i.ctx.asid false s.ptw.va i.ptwRspRdata)
      else none
  | _ => none

/-! ## Next state -/

/-- SFENCE.VMA drops the entry. -/
def Sfence.hits (f : Sfence) (e : TlbEntry) : Bool :=
  let vpnMatch :=
    if e.isSp then e.vpn.extractLsb' 10 10 == f.rs1Va.extractLsb' 22 10
    else e.vpn == f.rs1Va.extractLsb' 12 20
  let asidMatch := e.asid == f.rs2Asid
  f.valid &&
    if !f.rs1Nz && !f.rs2Nz then true
    else if f.rs1Nz && !f.rs2Nz then vpnMatch
    else if !f.rs1Nz && f.rs2Nz then !e.g && asidMatch
    else !e.g && asidMatch && vpnMatch

namespace Side

variable (x : Side) (c : Ctx) (a : Access) (p : Port)

/-- The walk-result registers: end of a walk, then a request or a denial of the TLB that is not answered
in the same cycle, then the clear at the end of a transaction. -/
def xlateNext (walk : Option Xlate) : Xlate :=
  let x₁ := walk.getD x.xlate
  let x₂ :=
    if x.tlbReqFire c a p && !x.tlbRspFire c a p && !x.xlate.valid then
      { valid := true, fault := false, pa := x.tlbPa c p, va := p.req.addr }
    else x₁
  let x₃ :=
    if x.tlbDeny c a p && p.reqValid && !x.tlbDenyFire c a p && !x.xlate.valid then
      { x₂ with valid := true, fault := true, va := p.req.addr }
    else x₂
  if x.forwardRspDone a p || x.faultRspDone a p || x.tlbRspFire c a p || x.tlbDenyFire c a p then
    { x₃ with valid := false, fault := false }
  else x₃

/-- The TLB: fill at the replacement index, then SFENCE.VMA, which looks at the entry before the fill. -/
def tlbNext (f : Sfence) (fill : Option TlbEntry) : Fin 4 → TlbEntry := fun k =>
  let old := x.tlb k
  let e := match fill with
    | some e => if k = x.repl then e else old
    | none => old
  if f.hits old then { e with valid := false } else e

def pmpPendingNext : Bool :=
  if x.pmpKillComb c a p && p.reqValid && !p.rspReady then true
  else if x.pmpPending && p.rspReady then false
  else x.pmpPending

def next (f : Sfence) (walk : Option Xlate) (fill : Option TlbEntry) : Side where
  xlate := x.xlateNext c a p walk
  tlb := x.tlbNext f fill
  repl := if fill.isSome then x.repl + 1 else x.repl
  pmpPending := x.pmpPendingNext c a p

end Side

/-- One clock edge out of reset. -/
def step : State where
  ptw := ptwNext s i
  ifs := s.ifs.next i.ctx (ifAcc i) i.ifp i.sfence
    (if s.ptw.side then none else walkXlate s i s.ifs.xlate) (if s.ptw.side then none else walkFill s i)
  dms := s.dms.next i.ctx (dmAcc i) i.dmp i.sfence
    (if s.ptw.side then walkXlate s i s.dms.xlate else none) (if s.ptw.side then walkFill s i else none)

def run (inp : Nat → In) : Nat → State := Sync.run step reset inp

end QinglongCore.Mmu
