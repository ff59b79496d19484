import QinglongCore.Rtl.Defs

/-!
# Sv32 address translation

The two-level lookup of the architecture, for accesses of U- and S-mode. Addresses have 34 bits and are cut
to the 32 bits of the bus; a page fault is `none`.
-/

namespace QinglongCore.Sv32

inductive Mode where
  | user | supervisor
  deriving DecidableEq, Repr

def Mode.bits : Mode → BitVec 2
  | .user => PRV_U
  | .supervisor => PRV_S

inductive Kind where
  | fetch | load | store
  deriving DecidableEq, Repr

/-- A page-table entry. -/
structure Pte where
  ppn : BitVec 22
  d : Bool
  a : Bool
  g : Bool
  u : Bool
  x : Bool
  w : Bool
  r : Bool
  v : Bool
  deriving DecidableEq

namespace Pte

def ofWord (w : Word) : Pte where
  ppn := w.extractLsb' 10 22
  d := w.getLsbD 7
  a := w.getLsbD 6
  g := w.getLsbD 5
  u := w.getLsbD 4
  x := w.getLsbD 3
  w := w.getLsbD 2
  r := w.getLsbD 1
  v := w.getLsbD 0

variable (p : Pte)

def invalid : Bool := !p.v || (!p.r && p.w)
def isLeaf : Bool := p.r || p.x
def ppn0 : BitVec 10 := p.ppn.extractLsb' 0 10
def ppn1 : BitVec 12 := p.ppn.extractLsb' 10 12

end Pte

def vpn1 (va : Word) : BitVec 10 := va.extractLsb' 22 10
def vpn0 (va : Word) : BitVec 10 := va.extractLsb' 12 10

/-- The bus address of entry `idx` of the table in page `ppn`. -/
def entryAddr (ppn : BitVec 22) (idx : BitVec 10) : Word :=
  ((ppn ++ 0#12 : BitVec 34) + (0#22 ++ idx ++ 0#2 : BitVec 34)).setWidth 32

/-- A leaf and the level it is found at. -/
structure Leaf where
  isSp : Bool
  pte : Pte
  deriving DecidableEq

def Leaf.pa (l : Leaf) (va : Word) : Word :=
  if l.isSp then (l.pte.ppn1 ++ va.extractLsb' 0 22 : BitVec 34).setWidth 32
  else (l.pte.ppn ++ va.extractLsb' 0 12 : BitVec 34).setWidth 32

/-- The well-formed leaf that maps `va`; `mem` reads an entry, or faults. -/
def leafOf (mem : Word → Option Word) (root : BitVec 22) (va : Word) : Option Leaf :=
  match (mem (entryAddr root (vpn1 va))).map Pte.ofWord with
  | none => none
  | some p₁ =>
      if p₁.invalid then none
      else if p₁.isLeaf then
        if p₁.ppn0 = 0 then some ⟨true, p₁⟩ else none
      else
        match (mem (entryAddr p₁.ppn (vpn0 va))).map Pte.ofWord with
        | none => none
        | some p₀ => if p₀.invalid || !p₀.isLeaf then none else some ⟨false, p₀⟩

/-- Execute, read and write permission, the rules for user pages, and the accessed and dirty bits. -/
def permitted (m : Mode) (k : Kind) (sum mxr : Bool) (p : Pte) : Bool :=
  let op :=
    match k with
    | .fetch => p.x
    | .load => p.r || (mxr && p.x)
    | .store => p.w
  let page :=
    match m with
    | .user => p.u
    | .supervisor => if k = .fetch then !p.u else !p.u || sum
  op && page && p.a && (k != .store || p.d)

/-- The physical address of `va`, or a page fault. -/
def translate (mem : Word → Option Word) (root : BitVec 22) (m : Mode) (k : Kind) (sum mxr : Bool)
    (va : Word) : Option Word :=
  match leafOf mem root va with
  | some l => if permitted m k sum mxr l.pte then some (l.pa va) else none
  | none => none

end QinglongCore.Sv32
