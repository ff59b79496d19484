import QinglongCore.Isa.Control
import QinglongCore.Isa.StoreLog
import QinglongCore.Rtl.Lemmas.DivUnit

/-!
# The instruction set as a machine

One instruction a step: what it retires with, which accesses it makes to the data bus, and the state it leaves
behind. Traps, interrupts and CSRs are outside of it.
-/

namespace QinglongCore.Isa

/-! ## Accesses -/

inductive Access where
  | read (a : Word) (size : BitVec 2)
  | write (a : Word) (size : BitVec 2) (data : Word) (mask : BitVec 4)
  deriving DecidableEq

def Access.addr : Access → Word
  | .read a _ => a
  | .write a _ _ _ => a

def Access.store : Access → Option Store
  | .read _ _ => none
  | .write a _ d m => some ⟨a, d, m⟩

/-- The word at `a` after the accesses of `l`, the oldest first. -/
def contents (mem₀ : Word → Word) (l : List Access) (a : Word) : Word :=
  written mem₀ (l.filterMap Access.store).reverse (alignWord a)

/-! ## Values -/

section
variable (w pc a b : Word)

def operand (sel : BitVec 2) (x y z : Word) : Word :=
  if sel = 0#2 then x else if sel = 1#2 then y else if sel = 2#2 then z else x

def alu : Word :=
  aluY (Decode.aluOp w) (operand (Decode.aluASel w) a pc 0#32) (operand (Decode.aluBSel w) b (Decode.imm w) 4#32)

def divIn : DivUnit.In where
  start := true
  isSigned := !(funct3 w).getLsbD 0
  wantRem := (funct3 w).getLsbD 1
  dividend := a
  divisor := b

/-- The result of an instruction that does not access memory. -/
def arith : Word :=
  if Decode.isDiv w then DivUnit.answer (divIn w a b)
  else if Decode.isMul w then
    mulUnit a b (funct3 w == F3_MULH || funct3 w == F3_MULHSU) (funct3 w == F3_MULH) (funct3 w != F3_MUL)
  else if Decode.isJal w || Decode.isJalr w then pc + 4
  else alu w pc a b

def lsAddr : Word := if Decode.isAtomic w then a else a + Decode.imm w

def size : BitVec 2 :=
  if Decode.isAtomic w then 0b10#2
  else if funct3 w = F3_LB ∨ funct3 w = F3_LBU ∨ funct3 w = F3_SB then 0b00#2
  else if funct3 w = F3_LH ∨ funct3 w = F3_LHU ∨ funct3 w = F3_SH then 0b01#2
  else 0b10#2

end

section
variable (f3 : BitVec 3) (a x : Word)

/-- The lanes of the word to store that hold the value `x`. -/
def laneData : Word :=
  let b := x.extractLsb' 0 8
  let h := x.extractLsb' 0 16
  if f3 = F3_SB then
    match a.extractLsb' 0 2 with
    | 0#2 => 0#24 ++ b
    | 1#2 => 0#16 ++ b ++ 0#8
    | 2#2 => 0#8 ++ b ++ 0#16
    | _ => b ++ 0#24
  else if f3 = F3_SH then
    if a.getLsbD 1 then h ++ 0#16 else 0#16 ++ h
  else x

def laneMask : BitVec 4 :=
  if f3 = F3_SB then
    match a.extractLsb' 0 2 with
    | 0#2 => 0b0001#4
    | 1#2 => 0b0010#4
    | 2#2 => 0b0100#4
    | _ => 0b1000#4
  else if f3 = F3_SH then
    if a.getLsbD 1 then 0b1100#4 else 0b0011#4
  else 0b1111#4

/-- The value that a load from `a` takes out of the word `x`. -/
def loadValue : Word :=
  let b : BitVec 8 := x.extractLsb' (8 * (a.extractLsb' 0 2).toNat) 8
  let h : BitVec 16 := if a.getLsbD 1 then x.extractLsb' 16 16 else x.extractLsb' 0 16
  if f3 = F3_LB then b.signExtend 32
  else if f3 = F3_LBU then b.setWidth 32
  else if f3 = F3_LH then h.signExtend 32
  else if f3 = F3_LHU then h.setWidth 32
  else x

end

/-- What an AMO stores. -/
def amoValue (f : BitVec 5) (old b : Word) : Word :=
  if f = AMO_SWAP then b
  else if f = AMO_ADD then old + b
  else if f = AMO_XOR then old ^^^ b
  else if f = AMO_AND then old &&& b
  else if f = AMO_OR then old ||| b
  else if f = AMO_MIN then (if old.slt b then old else b)
  else if f = AMO_MAX then (if old.slt b then b else old)
  else if f = AMO_MINU then (if old.ult b then old else b)
  else (if old.ult b then b else old)

/-! ## Exceptions -/

/-- Neither a SYSTEM instruction nor FENCE.I. -/
def ordinary (w : Word) : Bool := !Decode.isSystem w && !(Decode.isMisc w && funct3 w == 0b001#3)

def legal (w : Word) : Bool := !(Decode.illegalOpcode w || Decode.illegalOpImm w || Decode.illegalOp w)

def misaligned (x : Word) : Bool := x.extractLsb' 0 2 != 0#2

/-- A control transfer goes to a misaligned target. -/
def strays (w pc a b : Word) : Bool :=
  (Decode.isJalr w || Decode.isJal w || (Decode.isBranch w && branchTaken (funct3 w) a b)) &&
    misaligned (nextPc w pc a b)

/-- An access is misaligned for its size. -/
def straddles (w a : Word) : Bool :=
  if Decode.isAtomic w || ((Decode.isLoad w || Decode.isStore w) && funct3 w == F3_LW) then misaligned (lsAddr w a)
  else (Decode.isLoad w || Decode.isStore w) && size w == 0b01#2 && (lsAddr w a).getLsbD 0

/-- The word performs without an exception. -/
def sound (w pc a b : Word) : Bool := ordinary w && legal w && !strays w pc a b && !straddles w a

/-! ## Instructions -/

/-- The state between two instructions; `link` is the word that LR has reserved. -/
structure Arch where
  pc : Word
  regs : RegFile
  link : Option (BitVec 30)
  accesses : List Access

/-- What the commit port shows of an instruction. -/
structure Retirement where
  pc : Word
  insn : Word
  rdWen : Bool
  rd : BitVec 5
  rdData : Word
  trap : Bool
  deriving DecidableEq

section
variable (mem₀ : Word → Word) (A : Arch) (w : Word)

namespace Arch

def rs1 : Word := A.regs.read (rs1Field w)
def rs2 : Word := A.regs.read (rs2Field w)
def sound : Bool := Isa.sound w A.pc (A.rs1 w) (A.rs2 w)
def addr : Word := lsAddr w (A.rs1 w)
def scHit : Bool := A.link == some ((A.addr w).extractLsb' 2 30)

/-- The word that an access of the instruction finds in memory. -/
def old : Word := contents mem₀ A.accesses (A.addr w)

def readAccess : Access := .read (alignWord (A.addr w)) (size w)

def writeAccess : Access :=
  if Decode.isStore w then
    .write (alignWord (A.addr w)) (size w) (laneData (funct3 w) (A.addr w) (A.rs2 w)) (laneMask (funct3 w) (A.addr w))
  else if Decode.isSc w then .write (alignWord (A.addr w)) (size w) (A.rs2 w) 0b1111#4
  else .write (alignWord (A.addr w)) (size w) (amoValue (amoFunct5 w) (A.old mem₀ w) (A.rs2 w)) 0b1111#4

/-- The accesses of the instruction `w`. -/
def makes : List Access :=
  if Decode.isLoad w || Decode.isLr w then [A.readAccess w]
  else if Decode.isStore w || (Decode.isSc w && A.scHit w) then [A.writeAccess mem₀ w]
  else if Decode.isAmoRmw w then [A.readAccess w, A.writeAccess mem₀ w]
  else []

/-- What the result port shows; after a plain load or store, the lanes of the word it leaves in memory. -/
def result : Word :=
  if Decode.isLoad w || Decode.isStore w then
    loadValue (funct3 w) (A.addr w) (contents mem₀ (A.accesses ++ A.makes mem₀ w) (A.addr w))
  else if Decode.isLr w || Decode.isAmoRmw w then A.old mem₀ w
  else if Decode.isSc w then (if A.scHit w then 0#32 else 1#32)
  else arith w A.pc (A.rs1 w) (A.rs2 w)

def retires : Retirement := ⟨A.pc, w, Decode.writesRd w, rdField w, A.result mem₀ w, false⟩

/-- The state behind the instruction `w`. -/
def exec : Arch where
  pc := nextPc w A.pc (A.rs1 w) (A.rs2 w)
  regs := A.regs.write (Decode.writesRd w) (rdField w) (A.result mem₀ w)
  link :=
    if Decode.isLr w then some ((A.addr w).extractLsb' 2 30)
    else if Decode.isSc w || Decode.isAmoRmw w then none
    else A.link
  accesses := A.accesses ++ A.makes mem₀ w

/-- The word at the pc. -/
def insn : Word := contents mem₀ A.accesses A.pc

/-- The machine after `k` instructions. -/
def run : Nat → Arch
  | 0 => A
  | k + 1 => (run k).exec mem₀ ((run k).insn mem₀)

/-- What the first `k` instructions retire with. -/
def trace : Nat → List Retirement
  | 0 => []
  | k + 1 => trace k ++ [(A.run mem₀ k).retires mem₀ ((A.run mem₀ k).insn mem₀)]

end Arch

end

/-! ## Accesses of an instruction -/

namespace Arch

variable {mem₀ : Word → Word} {A : Arch} {w : Word}

theorem makes_read (h : (Decode.isLoad w || Decode.isLr w) = true) : A.makes mem₀ w = [A.readAccess w] := by
  simp [makes, h]

theorem makes_store (h : Decode.isStore w = true) : A.makes mem₀ w = [A.writeAccess mem₀ w] := by
  have hl : Decode.isLoad w = false := by
    cases hl : Decode.isLoad w
    · rfl
    · rw [Decode.isStore_of_isLoad hl] at h
      simp at h
  have hlr := (Decode.not_atomic_of_access (w := w) (by simp [h])).1
  simp [makes, h, hl, hlr]

theorem makes_sc (h : Decode.isSc w = true) :
    A.makes mem₀ w = if A.scHit w then [A.writeAccess mem₀ w] else [] := by
  obtain ⟨hlr, ha⟩ := Decode.of_isSc h
  obtain ⟨hl, hs⟩ := Decode.of_isAmo (Decode.isAmo_of_isSc h)
  simp [makes, h, hl, hlr, hs, ha]

theorem makes_amo (h : Decode.isAmoRmw w = true) :
    A.makes mem₀ w = [A.readAccess w, A.writeAccess mem₀ w] := by
  obtain ⟨ha, hlr, hsc⟩ := Decode.of_isAmoRmw h
  obtain ⟨hl, hs⟩ := Decode.of_isAmo ha
  simp [makes, h, hl, hlr, hs, hsc]

theorem makes_none (hl : Decode.isLoad w = false) (hs : Decode.isStore w = false)
    (ha : Decode.isAtomic w = false) : A.makes mem₀ w = [] := by
  simp only [Decode.isAtomic, Bool.or_eq_false_iff] at ha
  simp [makes, hl, hs, ha]

theorem makes_cases (h : A.makes mem₀ w ≠ []) : (Decode.isLoad w || Decode.isLr w) = true ∨ Decode.isStore w = true ∨
    (Decode.isSc w = true ∧ A.scHit w = true) ∨ Decode.isAmoRmw w = true := by
  unfold makes at h
  split_ifs at h with h₁ h₂ h₃
  · exact .inl h₁
  · simp only [Bool.or_eq_true, Bool.and_eq_true] at h₂
    exact .inr (h₂.imp id .inl)
  · exact .inr (.inr (.inr h₃))
  · simp at h

theorem bus_of_makes (h : A.makes mem₀ w ≠ []) :
    (Decode.isLoad w || Decode.isStore w || Decode.isAtomic w) = true := by
  unfold Decode.isAtomic
  rcases makes_cases h with h | h | ⟨h, -⟩ | h
  · rw [Bool.or_eq_true] at h
    rcases h with h | h <;> simp [h]
  all_goals simp [h]

theorem writeAccess_addr : (A.writeAccess mem₀ w).addr = alignWord (A.addr w) := by
  unfold writeAccess
  split_ifs <;> rfl

/-- All accesses of an instruction go to its word. -/
theorem makes_addr {x : Access} (h : x ∈ A.makes mem₀ w) : x.addr = alignWord (A.addr w) := by
  unfold makes at h
  split_ifs at h <;> simp only [List.mem_cons, List.not_mem_nil, or_false] at h
  · rw [h]
    rfl
  · rw [h, writeAccess_addr]
  · rcases h with h | h
    · rw [h]
      rfl
    · rw [h, writeAccess_addr]

end Arch

end QinglongCore.Isa
