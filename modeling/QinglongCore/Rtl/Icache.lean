import QinglongCore.Rtl.Cache

/-!
# Instruction cache (`icache.sv`)
-/

namespace QinglongCore.Icache

open Cache

inductive Fsm where
  | idle | lookup | fill | done
  deriving DecidableEq, Repr

structure In where
  coreReqValid : Bool
  coreReqAddr : Word
  memReqReady : Bool
  memRspValid : Bool
  memRspData : Word
  memRspFault : Bool
  invalidate : Bool

/-- The counters stop at `LINE_WORDS` and are naturals. -/
structure State where
  fsm : Fsm
  savedAddr : Word
  arr : Arrays
  rd : ReadRegs
  fillReqCnt : Nat
  fillRspCnt : Nat
  victimWay : Way
  fillFault : Bool
  rspHit : Bool
  rspWay : Way
  fillTarget : Word

/-- The data and tag arrays and the read registers have no reset. -/
def reset (tag : Way → BitVec 6 → BitVec 20) (data : Way → BitVec 6 → BitVec 4 → Word) (rd : ReadRegs) : State where
  fsm := .idle
  savedAddr := 0
  arr := Arrays.reset tag data
  rd := rd
  fillReqCnt := 0
  fillRspCnt := 0
  victimWay := 0
  fillFault := false
  rspHit := false
  rspWay := 0
  fillTarget := 0

variable (s : State) (i : In)

def idx : BitVec 6 := aIdx s.savedAddr

/-! ## Outputs -/

def coreReqReady : Bool := s.fsm == .idle && !i.invalidate
def coreRspValid : Bool := s.fsm == .done
def coreRspData : Word := if s.rspHit then s.rd.data s.rspWay else s.fillTarget
def coreRspFault : Bool := s.fsm == .done && !s.rspHit && s.fillFault
def memReqValid : Bool := s.fsm == .fill && decide (s.fillReqCnt < LINE_WORDS)
def memReqAddr : Word := beatAddr s.savedAddr s.fillReqCnt

/-! ## Next state -/

def acceptReq : Bool := s.fsm == .idle && i.coreReqValid

/-- A beat that carries a word. -/
def cleanBeat : Bool := s.fsm == .fill && i.memRspValid && !i.memRspFault

def fillRspCntD : Nat := if s.fsm == .fill && i.memRspValid then s.fillRspCnt + 1 else s.fillRspCnt
def fillFaultD : Bool := s.fillFault || (s.fsm == .fill && i.memRspValid && i.memRspFault)

/-- The fill ends in this cycle. -/
def fillEnds : Bool := s.fsm == .fill && fillRspCntD s i == LINE_WORDS

def commits : Bool := fillEnds s i && !fillFaultD s i

def readNext : ReadRegs :=
  if acceptReq s i then s.arr.read (aIdx i.coreReqAddr) (aWoff i.coreReqAddr)
  else s.arr.read (idx s) (aWoff s.savedAddr)

/-- The valid bits are cleared before a commit sets one; the victim way takes each word as it comes in. -/
def arrNext : Arrays :=
  let m₁ := if i.invalidate then s.arr.clearValid else s.arr
  let m₂ := if commits s i then (m₁.setTag (idx s) s.victimWay (aTag s.savedAddr)).setValid (idx s) s.victimWay else m₁
  let m₃ :=
    match s.fsm, hitWay s.rd s.savedAddr with
    | .lookup, some w => m₂.touch (idx s) w
    | _, _ => if commits s i then m₂.touch (idx s) s.victimWay else m₂
  if cleanBeat s i then m₃.setData (idx s) s.victimWay (BitVec.ofNat 4 s.fillRspCnt) i.memRspData else m₃

/-- One clock edge out of reset. -/
def step : State :=
  let s' := { s with arr := arrNext s i, rd := readNext s i }
  match s.fsm with
  | .idle => if acceptReq s i then { s' with fsm := .lookup, savedAddr := i.coreReqAddr } else s'
  | .lookup =>
      match hitWay s.rd s.savedAddr with
      | some w => { s' with fsm := .done, rspHit := true, rspWay := w }
      | none =>
          { s' with
            fsm := .fill, victimWay := plruPick (s.arr.plru (idx s)), fillReqCnt := 0, fillRspCnt := 0
            fillFault := false }
  | .fill =>
      let s₁ :=
        { s' with
          fillReqCnt := if memReqValid s && i.memReqReady then s.fillReqCnt + 1 else s.fillReqCnt
          fillRspCnt := fillRspCntD s i
          fillFault := fillFaultD s i
          fillTarget :=
            if cleanBeat s i && BitVec.ofNat 4 s.fillRspCnt == aWoff s.savedAddr then i.memRspData
            else s.fillTarget }
      if fillEnds s i then { s₁ with fsm := .done, rspHit := false, rspWay := s.victimWay } else s₁
  | .done => { s' with fsm := .idle }

end QinglongCore.Icache
