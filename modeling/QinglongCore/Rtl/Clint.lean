import QinglongCore.Rtl.Axi4Master

/-!
# Core-local interruptor (`clint.sv`)
-/

namespace QinglongCore

/-- One of the two words of a 64-bit counter. -/
inductive Half where
  | lo | hi
  deriving DecidableEq, Repr

/-- `v[31:0]` or `v[63:32]`. -/
def half (v : BitVec 64) : Half → Word
  | .lo => v.extractLsb' 0 32
  | .hi => v.extractLsb' 32 32

/-- `v` with one half replaced, a nonblocking assignment to that part. -/
def putHalf (v : BitVec 64) (h : Half) (w : Word) : BitVec 64 :=
  match h with
  | .lo => half v .hi ++ w
  | .hi => w ++ half v .lo

namespace Clint

structure State where
  mtime : BitVec 64
  mtimecmp : BitVec 64
  msip : Bool
  rspValid : Bool
  rspRdata : Word
  rspFault : Bool

def reset : State where
  mtime := 0
  mtimecmp := 0xFFFFFFFFFFFFFFFF
  msip := false
  rspValid := false
  rspRdata := 0
  rspFault := false

def OFF_MSIP : BitVec 16 := 0x0000#16
def OFF_TCMP_LO : BitVec 16 := 0x4000#16
def OFF_TCMP_HI : BitVec 16 := 0x4004#16
def OFF_MTIME_LO : BitVec 16 := 0xBFF8#16
def OFF_MTIME_HI : BitVec 16 := 0xBFFC#16

variable (s : State) (r : Axi4Master.Req)

def mti : Bool := s.mtimecmp.ule s.mtime
def msi : Bool := s.msip

def off : BitVec 16 := r.addr.extractLsb' 0 16

def addrAnyHit : Bool :=
  off r == OFF_MSIP || off r == OFF_TCMP_LO || off r == OFF_TCMP_HI || off r == OFF_MTIME_LO || off r == OFF_MTIME_HI

/-- The registers before the bus access of the cycle: the counter runs. -/
def counted : State :=
  { s with mtime := s.mtime + 1, rspValid := false, rspRdata := 0, rspFault := false }

/-- A write merges into the register as it was, and assigns one half of the counter that has just been counted. -/
def write : State :=
  let g := { counted s with rspValid := true }
  if off r = OFF_MSIP then { g with msip := if r.wmask.getLsbD 0 then r.wdata.getLsbD 0 else s.msip }
  else if off r = OFF_TCMP_LO then
    { g with mtimecmp := putHalf g.mtimecmp .lo (mergeBytes (half s.mtimecmp .lo) r.wdata r.wmask) }
  else if off r = OFF_TCMP_HI then
    { g with mtimecmp := putHalf g.mtimecmp .hi (mergeBytes (half s.mtimecmp .hi) r.wdata r.wmask) }
  else if off r = OFF_MTIME_LO then
    { g with mtime := putHalf g.mtime .lo (mergeBytes (half s.mtime .lo) r.wdata r.wmask) }
  else if off r = OFF_MTIME_HI then
    { g with mtime := putHalf g.mtime .hi (mergeBytes (half s.mtime .hi) r.wdata r.wmask) }
  else g

def read : State :=
  { counted s with
    rspValid := true
    rspRdata :=
      if off r = OFF_MSIP then BitVec.setWidth 32 (BitVec.ofBool s.msip)
      else if off r = OFF_TCMP_LO then half s.mtimecmp .lo
      else if off r = OFF_TCMP_HI then half s.mtimecmp .hi
      else if off r = OFF_MTIME_LO then half s.mtime .lo
      else if off r = OFF_MTIME_HI then half s.mtime .hi
      else 0 }

/-- One clock edge out of reset. -/
def step : State :=
  if r.valid then
    if !addrAnyHit r then { counted s with rspValid := true, rspFault := true }
    else if r.wen then write s r
    else read s r
  else counted s

end Clint

end QinglongCore
