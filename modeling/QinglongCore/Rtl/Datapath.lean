import QinglongCore.Rtl.Defs

/-!
# Combinational blocks (`alu.sv`, `imm_gen.sv`, `mul_unit.sv`, `regfile.sv`)
-/

namespace QinglongCore

/-! ## Immediates -/

def immI (w : Word) : Word := (w.extractLsb' 20 12).signExtend 32

def immS (w : Word) : Word := (w.extractLsb' 25 7 ++ w.extractLsb' 7 5).signExtend 32

def immB (w : Word) : Word :=
  (w.extractLsb' 31 1 ++ w.extractLsb' 7 1 ++ w.extractLsb' 25 6 ++ w.extractLsb' 8 4 ++ 0#1).signExtend 32

def immU (w : Word) : Word := w.extractLsb' 12 20 ++ 0#12

def immJ (w : Word) : Word :=
  (w.extractLsb' 31 1 ++ w.extractLsb' 12 8 ++ w.extractLsb' 20 1 ++ w.extractLsb' 21 10 ++ 0#1).signExtend 32

/-! ## ALU -/

def ALU_ADD : BitVec 4 := 0#4
def ALU_SUB : BitVec 4 := 1#4
def ALU_AND : BitVec 4 := 2#4
def ALU_OR : BitVec 4 := 3#4
def ALU_XOR : BitVec 4 := 4#4
def ALU_SLL : BitVec 4 := 5#4
def ALU_SRL : BitVec 4 := 6#4
def ALU_SRA : BitVec 4 := 7#4
def ALU_SLT : BitVec 4 := 8#4
def ALU_SLTU : BitVec 4 := 9#4
def ALU_COPY_B : BitVec 4 := 10#4

def aluEq (a b : Word) : Bool := a == b
def aluLt (a b : Word) : Bool := a.slt b
def aluLtu (a b : Word) : Bool := a.ult b

/-- The output `y` of `alu.sv`. -/
def aluY (op : BitVec 4) (a b : Word) : Word :=
  let shamt := (b.extractLsb' 0 5).toNat
  if op = ALU_ADD then a + b
  else if op = ALU_SUB then a - b
  else if op = ALU_AND then a &&& b
  else if op = ALU_OR then a ||| b
  else if op = ALU_XOR then a ^^^ b
  else if op = ALU_SLL then a <<< shamt
  else if op = ALU_SRL then a >>> shamt
  else if op = ALU_SRA then a.sshiftRight shamt
  else if op = ALU_SLT then BitVec.setWidth 32 (BitVec.ofBool (aluLt a b))
  else if op = ALU_SLTU then BitVec.setWidth 32 (BitVec.ofBool (aluLtu a b))
  else if op = ALU_COPY_B then b
  else 0#32

/-! ## Multiplier -/

/-- `mul_unit.sv`: operands extended to 33 bits, 66-bit signed product, high or low word of it. -/
def mulUnit (a b : Word) (aSigned bSigned hi : Bool) : Word :=
  let aExt : BitVec 33 := if aSigned then a.signExtend 33 else a.setWidth 33
  let bExt : BitVec 33 := if bSigned then b.signExtend 33 else b.setWidth 33
  let prod : BitVec 66 := aExt.signExtend 66 * bExt.signExtend 66
  if hi then prod.extractLsb' 32 32 else prod.extractLsb' 0 32

/-! ## Register file -/

/-- The registers `x1 .. x31`; the entry of index 0 is never read. -/
abbrev RegFile := BitVec 5 → Word

/-- An asynchronous read port, `x0` hardwired to zero. -/
def RegFile.read (r : RegFile) (a : BitVec 5) : Word := if a = 0#5 then 0#32 else r a

/-- The write port on a clock edge. -/
def RegFile.write (r : RegFile) (wen : Bool) (a : BitVec 5) (d : Word) : RegFile :=
  fun x => if wen && a != 0#5 && x == a then d else r x

theorem RegFile.read_write (r : RegFile) (wen : Bool) (rd : BitVec 5) (d : Word) (a : BitVec 5) :
    (r.write wen rd d).read a = if wen && rd != 0#5 && rd == a then d else r.read a := by
  unfold read write
  by_cases ha : a = 0#5
  · subst ha
    cases wen <;> by_cases hr : rd = 0#5 <;> simp [hr]
  · by_cases hr : a = rd
    · subst hr; simp [ha]
    · simp [ha, hr, Ne.symm hr]

theorem RegFile.write_false (r : RegFile) (rd : BitVec 5) (d : Word) : r.write false rd d = r := by
  funext x; simp [RegFile.write]

end QinglongCore
