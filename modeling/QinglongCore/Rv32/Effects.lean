import QinglongCore.Rv32.Semantics

/-!
# What the instructions of RV32IMA do to memory

An instruction reads data from at most one address and writes to at most one. The memory at the end of a run is the
one at its start with the writes of the run made in order.
-/

namespace Rv32

/-- The low bytes of `value` go to `addr`, as many as `op` stores. -/
structure Write where
  op : StoreOp
  addr : BitVec 32
  value : BitVec 32
  deriving DecidableEq

namespace Write

def apply (w : Write) (m : BitVec 32 → BitVec 8) : BitVec 32 → BitVec 8 := store m w.addr w.op.width w.value

/-- The write does not reach the byte `b`. -/
def Misses (w : Write) (b : BitVec 32) : Prop := b.toNat < w.addr.toNat ∨ w.addr.toNat + w.op.width ≤ b.toNat

theorem apply_misses {w : Write} {b : BitVec 32} (h : w.Misses b) (m : BitVec 32 → BitVec 8) : w.apply m b = m b := by
  rw [apply, store, ByteMemory.write_out h, byMemory, BitVec.ofNat_toNat, BitVec.setWidth_eq]

end Write

namespace State

variable (s : State)

/-- The address that the instruction reads data from. -/
def reads : Instr → Option (BitVec 32)
  | .load _ _ rs1 v => some (s.regs.get rs1 + v.signExtend 32)
  | .lr _ rs1 _ | .amo _ _ rs1 _ _ => some (s.regs.get rs1)
  | _ => none

def writes : Instr → Option Write
  | .store o rs1 rs2 v => some ⟨o, s.regs.get rs1 + v.signExtend 32, s.regs.get rs2⟩
  | .sc _ rs1 rs2 _ =>
      let a := s.regs.get rs1
      if s.link = some (word a) then some ⟨.sw, a, s.regs.get rs2⟩ else none
  | .amo o _ rs1 rs2 _ =>
      let a := s.regs.get rs1
      some ⟨.sw, a, o.value (load s.mem a 4) (s.regs.get rs2)⟩
  | _ => none

/-- The write of the instruction at the pc. -/
def write : Option Write := s.fetch.bind s.writes

/-- What the first `n` instructions write, the oldest first. -/
def written : Nat → List Write
  | 0 => []
  | n + 1 => written n ++ ((s.run n).bind write).toList

variable {s} {s' : State} {i : Instr} {w : Write} {n : Nat}

theorem exec_mem (h : s.exec i = some s') : s'.mem = ((s.writes i).map Write.apply).getD id s.mem := by
  cases i with
  | lui | auipc | imm | shift | reg | fence =>
      cases h
      rfl
  | jal | jalr =>
      simp only [exec, goto] at h
      split_ifs at h
      cases h
      rfl
  | branch =>
      simp only [exec, goto] at h
      split_ifs at h <;> cases h <;> rfl
  | load | store | lr | amo =>
      simp only [exec] at h
      split_ifs at h
      cases h
      rfl
  | sc rd rs1 rs2 q =>
      simp only [exec] at h
      split_ifs at h with hd hl
      · cases h
        rw [writes, if_pos hl]
        rfl
      · cases h
        rw [writes, if_neg hl]
        rfl

theorem write_of_fetch (h : s.fetch = some i) : s.write = s.writes i := by rw [write, h, Option.bind_some]

theorem step_mem (h : s.step = some s') : s'.mem = (s.write.map Write.apply).getD id s.mem := by
  rw [step, Option.bind_eq_some_iff] at h
  obtain ⟨i, hf, he⟩ := h
  rw [write_of_fetch hf]
  exact exec_mem he

theorem written_succ {s₁ : State} (h : s.run n = some s₁) : s.written (n + 1) = s.written n ++ s₁.write.toList := by
  rw [written, h, Option.bind_some]

theorem written_prefix {k : Nat} (h : k ≤ n) : s.written k <+: s.written n := by
  induction h with
  | refl => exact List.prefix_rfl
  | step _ ih => exact ih.trans (List.prefix_append _ _)

/-- The memory at the end of a run. -/
theorem run_mem (h : s.run n = some s') : s'.mem = (s.written n).foldl (fun m w => w.apply m) s.mem := by
  induction n generalizing s' with
  | zero =>
      cases h
      rfl
  | succ n ih =>
      rw [run_succ, Option.bind_eq_some_iff] at h
      obtain ⟨s₁, h₁, hstep⟩ := h
      rw [step_mem hstep, ih h₁, written_succ h₁, List.foldl_append]
      cases s₁.write <;> rfl

/-- A byte that no instruction writes to keeps its value. -/
theorem run_mem_misses (h : s.run n = some s') {b : BitVec 32} (hb : ∀ w ∈ s.written n, w.Misses b) :
    s'.mem b = s.mem b := by
  rw [run_mem h]
  generalize s.written n = l at hb
  generalize s.mem = m
  induction l generalizing m with
  | nil => rfl
  | cons w l ih =>
      rw [List.foldl_cons, ih fun x hx => hb x (List.mem_cons_of_mem _ hx)]
      exact Write.apply_misses (hb w List.mem_cons_self) m

end State

end Rv32
