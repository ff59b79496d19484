import Mathlib.Algebra.Group.Int.Defs
import Mathlib.Algebra.Group.Nat.Defs
import QinglongCore.Base.ByteMemory
import QinglongCore.Rv32.Syntax

/-!
# What the instructions of RV32IMA do

A hart with a memory of bytes, little-endian, that it fetches from too. Accesses and targets that are not aligned end
the run: exceptions are outside of it. A reservation is for a word, and ends with SC and with an AMO.
-/

namespace Rv32

/-- The registers, `x0` among them. -/
@[ext]
structure Regs where
  get : Reg → BitVec 32
  get_zero : get 0#5 = 0#32

@[ext]
structure State where
  pc : BitVec 32
  regs : Regs
  mem : BitVec 32 → BitVec 8
  link : Option (BitVec 30)

/-! ## Registers and memory -/

def Regs.set (r : Regs) (rd : Reg) (v : BitVec 32) : Regs where
  get x := if x = rd ∧ rd ≠ 0#5 then v else r.get x
  get_zero := by
    rw [if_neg fun h => h.2 h.1.symm]
    exact r.get_zero

section
variable (m : BitVec 32 → BitVec 8)

def byMemory (n : Nat) : BitVec 8 := m (BitVec.ofNat 32 n)

/-- The number in the `n` bytes from `a` on. -/
def load (a : BitVec 32) (n : Nat) : BitVec (8 * n) := ByteMemory.read (byMemory m) a.toNat n

/-- The low `n` bytes of `x` are written from `a` on. -/
def store (a : BitVec 32) (n : Nat) (x b : BitVec 32) : BitVec 8 :=
  ByteMemory.write (byMemory m) a.toNat n x b.toNat

end

/-! ## Operations -/

/-- A truth value in a register. -/
def flag (p : Bool) : BitVec 32 := if p then 1#32 else 0#32

section
variable (a b : BitVec 32)

def BranchOp.holds : BranchOp → Bool
  | beq => a == b
  | bne => a != b
  | blt => a.toInt < b.toInt
  | bge => b.toInt ≤ a.toInt
  | bltu => a.toNat < b.toNat
  | bgeu => b.toNat ≤ a.toNat

def ImmOp.value : ImmOp → BitVec 32
  | addi => a + b
  | slti => flag (a.toInt < b.toInt)
  | sltiu => flag (a.toNat < b.toNat)
  | xori => a ^^^ b
  | ori => a ||| b
  | andi => a &&& b

def ShiftOp.value (n : Nat) : ShiftOp → BitVec 32
  | slli => a <<< n
  | srli => a >>> n
  | srai => a.sshiftRight n

def RegOp.value : RegOp → BitVec 32
  | add => a + b
  | sub => a - b
  | sll => a <<< (b.toNat % 32)
  | slt => flag (a.toInt < b.toInt)
  | sltu => flag (a.toNat < b.toNat)
  | xor => a ^^^ b
  | srl => a >>> (b.toNat % 32)
  | sra => a.sshiftRight (b.toNat % 32)
  | or => a ||| b
  | and => a &&& b
  | mul => BitVec.ofInt 32 (a.toInt * b.toInt)
  | mulh => BitVec.ofInt 32 (a.toInt * b.toInt / 2 ^ 32)
  | mulhsu => BitVec.ofInt 32 (a.toInt * b.toNat / 2 ^ 32)
  | mulhu => BitVec.ofNat 32 (a.toNat * b.toNat / 2 ^ 32)
  | div => if b = 0#32 then BitVec.ofInt 32 (-1) else BitVec.ofInt 32 (a.toInt.tdiv b.toInt)
  | divu => if b = 0#32 then BitVec.ofInt 32 (-1) else BitVec.ofNat 32 (a.toNat / b.toNat)
  | rem => if b = 0#32 then a else BitVec.ofInt 32 (a.toInt.tmod b.toInt)
  | remu => if b = 0#32 then a else BitVec.ofNat 32 (a.toNat % b.toNat)

def AmoOp.value : AmoOp → BitVec 32
  | swap => b
  | add => a + b
  | xor => a ^^^ b
  | or => a ||| b
  | and => a &&& b
  | min => if a.toInt ≤ b.toInt then a else b
  | max => if b.toInt ≤ a.toInt then a else b
  | minu => if a.toNat ≤ b.toNat then a else b
  | maxu => if b.toNat ≤ a.toNat then a else b

end

def LoadOp.width : LoadOp → Nat
  | lb | lbu => 1
  | lh | lhu => 2
  | lw => 4

def LoadOp.value (m : BitVec 32 → BitVec 8) (a : BitVec 32) : LoadOp → BitVec 32
  | lb => (load m a 1).signExtend 32
  | lh => (load m a 2).signExtend 32
  | lw => load m a 4
  | lbu => (load m a 1).setWidth 32
  | lhu => (load m a 2).setWidth 32

def StoreOp.width : StoreOp → Nat
  | sb => 1
  | sh => 2
  | sw => 4

/-! ## Steps -/

namespace State

variable (s : State)

def next : State := { s with pc := s.pc + 4#32 }

def set (rd : Reg) (v : BitVec 32) : State := { s with regs := s.regs.set rd v }

def goto (a : BitVec 32) : Option State := if 4 ∣ a.toNat then some { s with pc := a } else none

def word (a : BitVec 32) : BitVec 30 := a.extractLsb' 2 30

def exec : Instr → Option State
  | .lui rd v => some (s.set rd (v ++ 0#12)).next
  | .auipc rd v => some (s.set rd (s.pc + (v ++ 0#12))).next
  | .jal rd v => (s.set rd (s.pc + 4#32)).goto (s.pc + (v ++ 0#1).signExtend 32)
  | .jalr rd rs1 v => (s.set rd (s.pc + 4#32)).goto ((s.regs.get rs1 + v.signExtend 32) &&& ~~~1#32)
  | .branch o rs1 rs2 v =>
      if o.holds (s.regs.get rs1) (s.regs.get rs2) then s.goto (s.pc + (v ++ 0#1).signExtend 32) else some s.next
  | .load o rd rs1 v =>
      let a := s.regs.get rs1 + v.signExtend 32
      if o.width ∣ a.toNat then some (s.set rd (o.value s.mem a)).next else none
  | .store o rs1 rs2 v =>
      let a := s.regs.get rs1 + v.signExtend 32
      if o.width ∣ a.toNat then some { s with mem := store s.mem a o.width (s.regs.get rs2) }.next else none
  | .imm o rd rs1 v => some (s.set rd (o.value (s.regs.get rs1) (v.signExtend 32))).next
  | .shift o rd rs1 n => some (s.set rd (o.value (s.regs.get rs1) n.toNat)).next
  | .reg o rd rs1 rs2 => some (s.set rd (o.value (s.regs.get rs1) (s.regs.get rs2))).next
  | .lr rd rs1 _ =>
      let a := s.regs.get rs1
      if 4 ∣ a.toNat then some { s.set rd (load s.mem a 4) with link := some (word a) }.next else none
  | .sc rd rs1 rs2 _ =>
      let a := s.regs.get rs1
      if 4 ∣ a.toNat then
        if s.link = some (word a) then
          some { s.set rd 0#32 with mem := store s.mem a 4 (s.regs.get rs2), link := none }.next
        else some { s.set rd 1#32 with link := none }.next
      else none
  | .amo o rd rs1 rs2 _ =>
      let a := s.regs.get rs1
      if 4 ∣ a.toNat then
        let old := load s.mem a 4
        some { s.set rd old with mem := store s.mem a 4 (o.value old (s.regs.get rs2)), link := none }.next
      else none
  | .fence _ _ _ => some s.next

def fetch : Option Instr := if 4 ∣ s.pc.toNat then decode (load s.mem s.pc 4) else none

def step : Option State := s.fetch.bind s.exec

/-- The state after `n` instructions. -/
def run : Nat → Option State
  | 0 => some s
  | n + 1 => (run n).bind step

/-- No instruction among the first `n` has been stored to since the start. -/
def CodeKept (n : Nat) : Prop := ∀ j k s' s'', j ≤ k → k < n → s.run j = some s' → s.run k = some s'' →
  load s'.mem s''.pc 4 = load s''.mem s''.pc 4

variable {s} {s' : State} {j k : Nat}

theorem fetch_of {i : Instr} (hd : 4 ∣ s.pc.toNat) (hw : encode i = load s.mem s.pc 4) : s.fetch = some i :=
  (if_pos hd).trans (decode_eq_some.mpr hw)

theorem run_succ : s.run (k + 1) = (s.run k).bind step := rfl

theorem run_isSome (h : (s.run k).isSome) (hj : j ≤ k) : (s.run j).isSome := by
  induction hj with
  | refl => exact h
  | step hk ih =>
      refine ih ?_
      rw [run_succ] at h
      exact Option.isSome_of_isSome_bind h

/-- The last step of a run. -/
theorem run_last (h : s.run (k + 1) = some s') : ∃ s₁ i, s.run k = some s₁ ∧ 4 ∣ s₁.pc.toNat ∧
    encode i = load s₁.mem s₁.pc 4 ∧ s₁.exec i = some s' := by
  rw [run_succ, Option.bind_eq_some_iff] at h
  obtain ⟨s₁, h₁, hstep⟩ := h
  rw [step, Option.bind_eq_some_iff] at hstep
  obtain ⟨i, hf, he⟩ := hstep
  rw [fetch] at hf
  split_ifs at hf with hd
  exact ⟨s₁, i, h₁, hd, decode_eq_some.mp hf, he⟩

/-! ## Alignment of the pc -/

theorem next_aligned (h : 4 ∣ s.pc.toNat) : 4 ∣ s.next.pc.toNat := by
  show 4 ∣ (s.pc + 4#32).toNat
  rw [BitVec.toNat_add]
  have h4 : (4#32).toNat = 4 := rfl
  omega

theorem goto_aligned {a : BitVec 32} (h : s.goto a = some s') : 4 ∣ s'.pc.toNat := by
  unfold goto at h
  split_ifs at h with hd
  cases h
  exact hd

theorem exec_aligned {i : Instr} (h : s.exec i = some s') (hd : 4 ∣ s.pc.toNat) : 4 ∣ s'.pc.toNat := by
  have hn (s₁ : State) (hpc : s₁.pc = s.pc) : 4 ∣ s₁.next.pc.toNat := next_aligned (hpc ▸ hd)
  cases i with
  | lui | auipc | imm | shift | reg | fence =>
      cases h
      exact hn _ rfl
  | jal | jalr => exact goto_aligned h
  | branch =>
      simp only [exec] at h
      split_ifs at h
      · exact goto_aligned h
      · cases h
        exact hn _ rfl
  | load | store | lr | sc | amo =>
      simp only [exec] at h
      split_ifs at h <;> cases h <;> exact hn _ rfl

theorem run_aligned (hd : 4 ∣ s.pc.toNat) (h : s.run k = some s') : 4 ∣ s'.pc.toNat := by
  induction k generalizing s' with
  | zero =>
      cases h
      exact hd
  | succ k ih =>
      obtain ⟨s₁, i, h₁, -, -, he⟩ := run_last h
      exact exec_aligned he (ih h₁)

end State

end Rv32
