import QinglongCore.Rtl.Defs

/-!
# Iterative divider (`div_unit.sv`)
-/

namespace QinglongCore.DivUnit

inductive Fsm where
  | idle | init | compute | fixup
  deriving DecidableEq, Repr

/-- The registers of `div_unit.sv`. -/
structure State where
  state : Fsm
  done : Bool
  result : Word
  rem : Bool
  negQ : Bool
  negR : Bool
  divByZero : Bool
  overflow : Bool
  remainder : Word
  quotient : Word
  divisorAbs : Word
  dividendAbs : Word
  iter : BitVec 6
  deriving DecidableEq

/-- The operand ports. -/
structure In where
  start : Bool
  isSigned : Bool
  wantRem : Bool
  dividend : Word
  divisor : Word

def reset : State where
  state := .idle
  done := false
  result := 0
  rem := false
  negQ := false
  negR := false
  divByZero := false
  overflow := false
  remainder := 0
  quotient := 0
  divisorAbs := 0
  dividendAbs := 0
  iter := 0

def In.dividendNeg (i : In) : Bool := i.isSigned && i.dividend.msb
def In.divisorNeg (i : In) : Bool := i.isSigned && i.divisor.msb
def In.dividendAbs (i : In) : Word := if i.dividendNeg then ~~~i.dividend + 1 else i.dividend
def In.divisorAbs (i : In) : Word := if i.divisorNeg then ~~~i.divisor + 1 else i.divisor
def In.divByZero (i : In) : Bool := i.divisor == 0#32
def In.overflow (i : In) : Bool :=
  i.isSigned && i.dividend == 0x80000000#32 && i.divisor == 0xFFFFFFFF#32

/-- `r_shift`: the remainder shifted left, the top bit of the remaining dividend shifted in. -/
def State.rShift (s : State) : BitVec 33 := s.remainder ++ s.dividendAbs.extractLsb' 31 1
def State.rSub (s : State) : BitVec 33 := s.rShift - s.divisorAbs.setWidth 33
def State.rGe (s : State) : Bool := !s.rSub.msb

/-- The registers the `S_IDLE` branch captures on `start`. -/
def start (s : State) (i : In) : State :=
  { s with
    done := false
    rem := i.wantRem
    divByZero := i.divByZero
    overflow := i.overflow
    negQ := xor i.dividendNeg i.divisorNeg
    negR := i.dividendNeg
    divisorAbs := i.divisorAbs
    dividendAbs := i.dividendAbs
    remainder := 0
    quotient := 0
    iter := 0
    state := .init }

/-- One iteration of the restoring divide. -/
def computeStep (s : State) : State :=
  { s with
    done := false
    remainder := if s.rGe then s.rSub.setWidth 32 else s.rShift.setWidth 32
    quotient := s.quotient.extractLsb' 0 31 ++ BitVec.ofBool s.rGe
    dividendAbs := s.dividendAbs.extractLsb' 0 31 ++ 0#1
    iter := s.iter + 1
    state := if s.iter = 31#6 then .fixup else .compute }

def step (s : State) (i : In) : State :=
  match s.state with
  | .idle => if i.start then start s i else { s with done := false }
  | .init =>
      if s.divByZero then
        { s with
          result := if s.rem then (if s.negR then ~~~s.dividendAbs + 1 else s.dividendAbs)
            else 0xFFFFFFFF#32
          done := true
          state := .idle }
      else if s.overflow then
        { s with result := if s.rem then 0#32 else 0x80000000#32, done := true, state := .idle }
      else { s with done := false, state := .compute }
  | .compute => computeStep s
  | .fixup =>
      { s with
        result := if s.rem then (if s.negR then ~~~s.remainder + 1 else s.remainder)
          else (if s.negQ then ~~~s.quotient + 1 else s.quotient)
        done := true
        state := .idle }

end QinglongCore.DivUnit
