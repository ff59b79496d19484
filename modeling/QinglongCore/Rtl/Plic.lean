import Mathlib.Data.Fintype.Basic
import Mathlib.Data.Nat.Log
import QinglongCore.Rtl.Axi4Master

/-!
# Platform-level interrupt controller (`plic.sv`)

Generic in `NUM_SOURCES`, which counts the reserved source 0, and in `NUM_CTX`.
-/

namespace QinglongCore.Plic

/-- `$clog2(NUM_SOURCES+1)`, the width of a source ID. -/
abbrev idWidth (numSources : Nat) : Nat := Nat.clog 2 (numSources + 1)

structure State (numSources numCtx : Nat) where
  priority : Fin numSources → BitVec 3
  pending : BitVec numSources
  enable : Fin numCtx → BitVec numSources
  threshold : Fin numCtx → BitVec 3
  claimedSrc : Fin numCtx → BitVec (idWidth numSources)
  inflight : BitVec numSources
  rspValid : Bool
  rspRdata : Word
  rspFault : Bool

def reset (numSources numCtx : Nat) : State numSources numCtx where
  priority := fun _ => 0
  pending := 0
  enable := fun _ => 0
  threshold := fun _ => 0
  claimedSrc := fun _ => 0
  inflight := 0
  rspValid := false
  rspRdata := 0
  rspFault := false

/-- The bus request and the source lines of one cycle. -/
structure In (numSources : Nat) where
  req : Axi4Master.Req
  sources : BitVec numSources

/-- `v` with bit `n` replaced by `b`, for a vector of parametric width. -/
def putBit {w : Nat} (v : BitVec w) (n : Nat) (b : Bool) : BitVec w :=
  if b then v ||| BitVec.twoPow w n else v &&& ~~~(BitVec.twoPow w n)

variable {N C : Nat}

/-! ## Address decode -/

/-- The register that an offset selects. -/
inductive Reg (N C : Nat) where
  | priority (i : Fin N)
  | noPriority
  | pending
  | enable (c : Fin C)
  | threshold (c : Fin C)
  | claim (c : Fin C)
  | unmapped

/-- `req_addr[23:0]`, in the 32 bits that the comparisons with the parameters take place in. -/
def off (a : Word) : Word := (a.extractLsb' 0 24).setWidth 32

def prioIdx (a : Word) : Nat := (off a >>> 2).toNat
def enCtx (a : Word) : Nat := ((off a - 0x2000#32) / 0x80#32).toNat
def ctxRel (a : Word) : Word := off a - 0x200000#32
def ctxIdx (a : Word) : Nat := (ctxRel a / 0x1000#32).toNat
def ctxOff (a : Word) : BitVec 12 := (ctxRel a).extractLsb' 0 12

def inPrioWindow (a : Word) : Bool := (off a).ult 0x1000#32
def inPending (a : Word) : Bool := off a == 0x1000#32

def inEnableWindow (C : Nat) (a : Word) : Bool :=
  (0x2000#32).ule (off a) && (off a).ult (0x2000#32 + BitVec.ofNat 32 C * 0x80#32)

def inCtxWindow (C : Nat) (a : Word) : Bool :=
  (0x200000#32).ule (off a) && (off a).ult (0x200000#32 + BitVec.ofNat 32 C * 0x1000#32)

/-- The windows in the order of the branches. -/
def decode (a : Word) : Reg N C :=
  if inPrioWindow a then
    if h : prioIdx a < N then .priority ⟨prioIdx a, h⟩ else .noPriority
  else if inPending a then .pending
  else if inEnableWindow C a then
    if h : enCtx a < C then .enable ⟨enCtx a, h⟩ else .unmapped
  else if inCtxWindow C a then
    if h : ctxIdx a < C then
      if ctxOff a = 0x000#12 then .threshold ⟨ctxIdx a, h⟩
      else if ctxOff a = 0x004#12 then .claim ⟨ctxIdx a, h⟩
      else .unmapped
    else .unmapped
  else .unmapped

/-! ## Pick -/

variable (s : State N C) (i : In N)

/-- `for (int s = 1; s < NUM_SOURCES; s++)`. -/
def sources (N : Nat) : List (Fin N) := (List.finRange N).filter fun j => j.val != 0

/-- One turn of the loop of `pick_best_src`, on `best_prio` and `best_idx`. -/
def scan (c : Fin C) (best : BitVec 3 × BitVec (idWidth N)) (j : Fin N) : BitVec 3 × BitVec (idWidth N) :=
  if (s.enable c).getLsbD j && s.pending.getLsbD j && (s.threshold c).ult (s.priority j)
      && best.1.ult (s.priority j) then
    (s.priority j, BitVec.ofNat _ j)
  else best

def pickBestSrc (c : Fin C) : BitVec (idWidth N) := ((sources N).foldl (scan s c) (0, 0)).2

def irqO (c : Fin C) : Bool := pickBestSrc s c != 0

/-! ## The clock edge -/

/-- The gateway: a high line is latched unless its source is in flight; source 0 never is. -/
def gateway : BitVec N := putBit (s.pending ||| (i.sources &&& ~~~s.inflight)) 0 false

/-- The registers before the bus access of the cycle. -/
def latched : State N C :=
  { s with pending := gateway s i, rspValid := i.req.valid, rspRdata := 0, rspFault := false }

/-- A claim takes the source that the pick reads off the registers as they were. -/
def claimed (c : Fin C) : State N C :=
  let g := latched s i
  let best := pickBestSrc s c
  if best != 0 then
    { g with
      rspRdata := best.setWidth 32
      pending := putBit g.pending best.toNat false
      inflight := putBit g.inflight best.toNat true
      claimedSrc := fun d => if d = c then best else g.claimedSrc d }
  else { g with rspRdata := best.setWidth 32 }

/-- A completion releases the source that it names, whichever context claimed it. -/
def completed (c : Fin C) : State N C :=
  let g := latched s i
  if i.req.wdata.toNat < N && i.req.wdata != 0 then
    { g with
      inflight := putBit g.inflight (i.req.wdata.setWidth (Nat.clog 2 N)).toNat false
      claimedSrc := fun d =>
        if d = c && s.claimedSrc c == i.req.wdata.setWidth (idWidth N) then 0 else g.claimedSrc d }
  else g

/-- The bus write of a cycle. -/
def write : State N C :=
  let g := latched s i
  match decode i.req.addr with
  | .priority j =>
      if 0 < j.val && i.req.wmask.getLsbD 0 then
        { g with priority := fun k => if k = j then i.req.wdata.setWidth 3 else g.priority k }
      else g
  | .noPriority => g
  | .pending => g
  | .enable c =>
      let new := (mergeBytes ((s.enable c).setWidth 32) i.req.wdata i.req.wmask).setWidth N
      { g with enable := fun d => if d = c then putBit new 0 false else g.enable d }
  | .threshold c =>
      if i.req.wmask.getLsbD 0 then
        { g with threshold := fun d => if d = c then i.req.wdata.setWidth 3 else g.threshold d }
      else g
  | .claim c => completed s i c
  | .unmapped => { g with rspFault := true }

/-- The bus read of a cycle. -/
def read : State N C :=
  let g := latched s i
  match decode i.req.addr with
  | .priority j => { g with rspRdata := (s.priority j).setWidth 32 }
  | .noPriority => g
  | .pending => { g with rspRdata := s.pending.setWidth 32 }
  | .enable c => { g with rspRdata := (s.enable c).setWidth 32 }
  | .threshold c => { g with rspRdata := (s.threshold c).setWidth 32 }
  | .claim c => claimed s i c
  | .unmapped => { g with rspFault := true }

/-- One clock edge out of reset. -/
def step : State N C :=
  if i.req.valid then
    if i.req.wen then write s i else read s i
  else latched s i

end QinglongCore.Plic
