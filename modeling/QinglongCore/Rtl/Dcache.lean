import QinglongCore.Rtl.Cache

/-!
# Data cache (`dcache.sv`)
-/

namespace QinglongCore.Dcache

open Cache

inductive Fsm where
  | idle | lookup | wt | fill | wtMiss | done
  deriving DecidableEq, Repr

/-- `core_req_*`. -/
structure CoreReq where
  addr : Word
  wen : Bool
  wdata : Word
  wmask : BitVec 4

structure In where
  coreReqValid : Bool
  coreReq : CoreReq
  memReqReady : Bool
  memRspValid : Bool
  memRspRdata : Word

/-- The counters stop at `LINE_WORDS` and are naturals. -/
structure State where
  fsm : Fsm
  saved : CoreReq
  arr : Arrays
  rd : ReadRegs
  fillReqCnt : Nat
  fillRspCnt : Nat
  victimWay : Way
  fillFault : Bool
  wtReqFired : Bool
  wtRspSeen : Bool
  rspHit : Bool
  rspWay : Way
  fillTarget : Word

/-- The data and tag arrays and the read registers have no reset. -/
def reset (tag : Way → BitVec 6 → BitVec 20) (data : Way → BitVec 6 → BitVec 4 → Word) (rd : ReadRegs) : State where
  fsm := .idle
  saved := ⟨0, false, 0, 0⟩
  arr := Arrays.reset tag data
  rd := rd
  fillReqCnt := 0
  fillRspCnt := 0
  victimWay := 0
  fillFault := false
  wtReqFired := false
  wtRspSeen := false
  rspHit := false
  rspWay := 0
  fillTarget := 0

variable (s : State) (i : In)

def idx : BitVec 6 := aIdx s.saved.addr
def woff : BitVec 4 := aWoff s.saved.addr

/-! ## Outputs -/

def coreReqReady : Bool := s.fsm == .idle
def coreRspValid : Bool := s.fsm == .done
def coreRspRdata : Word := if s.rspHit then s.rd.data s.rspWay else s.fillTarget
def coreRspFault : Bool := s.fsm == .done && !s.rspHit && s.fillFault

/-- `mem_req_*`: the beats of a fill, or the store. -/
structure MemReq where
  valid : Bool
  addr : Word
  wen : Bool
  wmask : BitVec 4
  wdata : Word

def memReq : MemReq :=
  match s.fsm with
  | .fill => ⟨decide (s.fillReqCnt < LINE_WORDS), beatAddr s.saved.addr s.fillReqCnt, false, 0, 0⟩
  | .wt | .wtMiss => ⟨!s.wtReqFired, wordAddr s.saved.addr, true, s.saved.wmask, s.saved.wdata⟩
  | _ => ⟨false, 0, false, 0, 0⟩

/-! ## Next state -/

def acceptReq : Bool := s.fsm == .idle && i.coreReqValid
def memReqFired : Bool := (memReq s).valid && i.memReqReady
def fillRspCntD : Nat := if s.fsm == .fill && i.memRspValid then s.fillRspCnt + 1 else s.fillRspCnt
def fillEnds : Bool := s.fsm == .fill && fillRspCntD s i == LINE_WORDS
def commits : Bool := fillEnds s i && !s.fillFault

/-- The store has been taken and answered. -/
def wtEnds : Bool := (memReqFired s i || s.wtReqFired) && (i.memRspValid || s.wtRspSeen)

def readNext : ReadRegs :=
  if acceptReq s i then s.arr.read (aIdx i.coreReq.addr) (aWoff i.coreReq.addr)
  else s.arr.read (idx s) (woff s)

/-- The word of a beat, with the store merged into its target word. -/
def beatData : Word :=
  if s.saved.wen && BitVec.ofNat 4 s.fillRspCnt == woff s then mergeBytes i.memRspRdata s.saved.wdata s.saved.wmask
  else i.memRspRdata

def arrNext : Arrays :=
  let m₁ := if commits s i then (s.arr.setTag (idx s) s.victimWay (aTag s.saved.addr)).setValid (idx s) s.victimWay else s.arr
  match s.fsm, hitWay s.rd s.saved.addr with
  | .lookup, some w =>
      let m₂ := m₁.touch (idx s) w
      if s.saved.wen then
        m₂.setData (idx s) w (woff s) (mergeBytes (s.arr.data w (idx s) (woff s)) s.saved.wdata s.saved.wmask)
      else m₂
  | _, _ =>
      let m₂ := if commits s i then m₁.touch (idx s) s.victimWay else m₁
      if s.fsm == .fill && i.memRspValid then
        m₂.setData (idx s) s.victimWay (BitVec.ofNat 4 s.fillRspCnt) (beatData s i)
      else m₂

/-- One clock edge out of reset. -/
def step : State :=
  let s' := { s with arr := arrNext s i, rd := readNext s i }
  match s.fsm with
  | .idle => if acceptReq s i then { s' with fsm := .lookup, saved := i.coreReq } else s'
  | .lookup =>
      match hitWay s.rd s.saved.addr with
      | some w =>
          if s.saved.wen then
            { s' with fsm := .wt, rspHit := true, rspWay := w, wtReqFired := false, wtRspSeen := false }
          else { s' with fsm := .done, rspHit := true, rspWay := w }
      | none =>
          { s' with
            fsm := .fill, victimWay := plruPick (s.arr.plru (idx s)), fillReqCnt := 0, fillRspCnt := 0
            fillFault := false }
  | .wt | .wtMiss =>
      { s' with
        fsm := if wtEnds s i then .done else s.fsm
        wtReqFired := memReqFired s i || s.wtReqFired
        wtRspSeen := i.memRspValid || s.wtRspSeen }
  | .fill =>
      let s₁ :=
        { s' with
          fillReqCnt := if memReqFired s i then s.fillReqCnt + 1 else s.fillReqCnt
          fillRspCnt := fillRspCntD s i
          fillTarget :=
            if i.memRspValid && BitVec.ofNat 4 s.fillRspCnt == woff s then i.memRspRdata else s.fillTarget }
      if fillEnds s i then
        let s₂ := { s₁ with rspHit := false, rspWay := s.victimWay }
        if s.saved.wen && !s.fillFault then { s₂ with fsm := .wtMiss, wtReqFired := false, wtRspSeen := false }
        else { s₂ with fsm := .done }
      else s₁
  | .done => { s' with fsm := .idle }

end QinglongCore.Dcache
