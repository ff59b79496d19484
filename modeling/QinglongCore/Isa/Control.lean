import QinglongCore.Rtl.Decode

/-!
# Control transfer of the instruction set

The successor of an instruction that does not trap, as a function of its word, its pc and its operands.
-/

namespace QinglongCore.Isa

/-- The condition of a conditional branch. -/
def branchTaken (f3 : BitVec 3) (a b : Word) : Bool :=
  if f3 = F3_BEQ then a == b
  else if f3 = F3_BNE then a != b
  else if f3 = F3_BLT then a.slt b
  else if f3 = F3_BGE then !a.slt b
  else if f3 = F3_BLTU then a.ult b
  else if f3 = F3_BGEU then !a.ult b
  else false

def nextPc (w pc rs1 rs2 : Word) : Word :=
  if Decode.isJalr w then (rs1 + Decode.imm w) &&& ~~~1#32
  else if Decode.isJal w || (Decode.isBranch w && branchTaken (funct3 w) rs1 rs2) then pc + Decode.imm w
  else pc + 4

end QinglongCore.Isa
