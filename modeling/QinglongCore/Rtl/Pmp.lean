import QinglongCore.Rtl.Defs

/-!
# Physical memory protection (`pmp.sv`)
-/

namespace QinglongCore.Pmp

def A_OFF : BitVec 2 := 0b00#2
def A_TOR : BitVec 2 := 0b01#2
def A_NA4 : BitVec 2 := 0b10#2
def A_NAPOT : BitVec 2 := 0b11#2

/-- The configuration exported by the CSR file. -/
structure Config where
  cfg : Fin 16 → BitVec 8
  addr : Fin 16 → Word

/-- The kind of access that is checked. -/
structure Access where
  isRead : Bool
  isWrite : Bool
  isExec : Bool

variable (p : Config) (priv : BitVec 2) (a : Word) (k : Access)

def mode (n : Fin 16) : BitVec 2 := (p.cfg n).extractLsb' 3 2
def thisAddr (n : Fin 16) : BitVec 30 := (p.addr n).extractLsb' 0 30
def prevAddr (n : Fin 16) : BitVec 30 := if n = 0 then 0 else thisAddr p (n - 1)

def matchTor (n : Fin 16) : Bool :=
  (prevAddr p n).ule (a.extractLsb' 2 30) && (a.extractLsb' 2 30).ult (thisAddr p n)

def matchNa4 (n : Fin 16) : Bool := a.extractLsb' 2 30 == thisAddr p n

/-- The bits above the run of trailing ones select the granule. -/
def cmpMask (n : Fin 16) : BitVec 30 := ~~~(thisAddr p n ^^^ (thisAddr p n + 1))

def matchNapot (n : Fin 16) : Bool :=
  a.extractLsb' 2 30 &&& cmpMask p n == thisAddr p n &&& cmpMask p n

def matched (n : Fin 16) : Bool :=
  if mode p n = A_TOR then matchTor p a n
  else if mode p n = A_NA4 then matchNa4 p a n
  else if mode p n = A_NAPOT then matchNapot p a n
  else false

def allowed (n : Fin 16) : Bool :=
  (priv == PRV_M && !(p.cfg n).getLsbD 7) ||
    (k.isRead && (p.cfg n).getLsbD 0 || k.isWrite && (p.cfg n).getLsbD 1 || k.isExec && (p.cfg n).getLsbD 2)

def anyActive : Bool := (List.finRange 16).any fun n => mode p n != A_OFF

/-- The first matching entry decides; without one only M-mode passes. -/
def decision : Bool :=
  match (List.finRange 16).find? (matched p a) with
  | some n => allowed p priv k n
  | none => priv == PRV_M

def fault : Bool := anyActive p && !decision p priv a k

end QinglongCore.Pmp
