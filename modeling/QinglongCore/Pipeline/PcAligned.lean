import QinglongCore.Csr.Epc
import QinglongCore.Pipeline.Lemmas.Steps

/-!
# The pcs of the pipeline are word-aligned

Every pc in the pipeline comes from the fetch pc, and the fetch pc from a target that did not trap in EX, from a trap
vector, from an exception program counter or from the pc in WB.
-/

namespace QinglongCore.CorePipeline

open Isa (Aligned aligned_of_lowBits aligned_zero aligned_alignWord aligned_offset)

/-- The pcs of all stages and the exception program counters. -/
structure PcsAligned (s : State) : Prop where
  fetch : Aligned s.fetch.pc
  inflight : Aligned s.fetch.inflightPc
  id : Aligned s.id.pc
  ex : Aligned s.ex.pc
  mem : Aligned s.mem.pc
  wb : Aligned s.wb.pc
  csr : Csr.EpcAligned s.csr

/-- `commit_pc`, where `commit_valid` is raised. -/
def retiredPc (s : State) : Option Word := if s.wb.valid then some s.wb.pc else none

variable {s : State} {i : In} {e : Ext} {pc : Word} {regs : RegFile}

theorem pcsAligned_reset (h : Aligned pc) : PcsAligned (reset pc regs) :=
  ⟨h, aligned_zero, aligned_zero, aligned_zero, aligned_zero, aligned_zero, Csr.epcAligned_reset⟩

/-! ## Targets -/

/-- An instruction that does not trap in EX does not go to a misaligned target. -/
theorem IdEx.misalignedTarget_of_no_trap {ex : IdEx} {rs1 rs2 : Word} {p : BitVec 2} (hv : ex.valid = true)
    (ht : ex.trapInfo rs1 rs2 p = none) : ex.misalignedTarget rs1 rs2 = none := by
  cases hm : ex.misalignedTarget rs1 rs2
  case none => rfl
  case some a =>
    simp only [IdEx.trapInfo, hv, hm] at ht
    grind

theorem aligned_branchRedirectPc (h : branchRedirect s = true) : Aligned (branchRedirectPc s) := by
  obtain ⟨hv, -, ht, -⟩ := branchRedirect_elim h
  have hnone : exTrapInfo s = none := by simpa [exTrap] using ht
  have hm := IdEx.misalignedTarget_of_no_trap hv hnone
  simp only [branchRedirect, Bool.and_eq_true, Bool.or_eq_true] at h
  obtain ⟨⟨htake, -⟩, -⟩ := h
  unfold IdEx.misalignedTarget at hm
  split_ifs at hm with hb hr hj
  simp only [Bool.and_eq_true, not_and, Bool.not_eq_true] at hb hr hj
  unfold branchRedirectPc
  split_ifs with h₁ h₂
  · exact aligned_of_lowBits (hr h₁)
  · exact aligned_of_lowBits (hj h₂)
  · rcases htake with (hb' | hj') | hr'
    · exact aligned_of_lowBits (hb hb')
    · exact absurd hj' h₂
    · exact absurd hr' h₁

theorem aligned_vectored (tvec cause : Word) : Aligned (vectored tvec cause) := by
  unfold vectored
  split
  · exact (aligned_alignWord tvec).add (aligned_offset cause)
  · exact aligned_alignWord tvec

theorem PcsAligned.wbRedirectPc (h : PcsAligned s) : Aligned (wbRedirectPc s) := by
  unfold CorePipeline.wbRedirectPc
  split_ifs
  · exact h.csr.mepc
  · exact h.csr.sepc
  · exact h.wb.add_four
  · exact aligned_vectored _ _
  · exact aligned_vectored _ _
  · exact aligned_alignWord _

/-! ## Stages -/

theorem PcsAligned.fetchNext_pc (h : PcsAligned s) (i : In) : Aligned (fetchNext s i).pc := by
  simp only [fetchNext]
  split_ifs with hw hb ha
  · exact h.wbRedirectPc
  · exact aligned_branchRedirectPc hb
  · exact h.fetch.add_four
  · exact h.fetch

theorem PcsAligned.fetchNext_inflightPc (h : PcsAligned s) (i : In) : Aligned (fetchNext s i).inflightPc := by
  simp only [fetchNext]
  split
  · exact h.fetch
  · exact h.inflight

theorem PcsAligned.irqBubble_pc (h : PcsAligned s) (e : Ext) : Aligned (irqBubble s e).pc := by
  simp only [irqBubble]
  split
  · exact h.id
  · exact h.fetch

theorem PcsAligned.idNext_pc (h : PcsAligned s) (i : In) : Aligned (idNext s i).pc := by
  unfold idNext
  split_ifs
  · exact h.id
  · exact h.irqBubble_pc _
  · exact h.inflight
  · exact h.id
  · exact h.id

theorem PcsAligned.exNext_pc (h : PcsAligned s) (i : In) : Aligned (exNext s i).pc := by
  unfold exNext
  split_ifs
  · exact h.ex
  · exact h.ex
  · exact h.id

theorem memNext_pc (s : State) (i : In) : (memNext s i).pc = s.mem.pc ∨ (memNext s i).pc = s.ex.pc := by
  simp only [memNext]
  split_ifs <;> simp [ExMem.bubble]

theorem PcsAligned.memNext_pc (h : PcsAligned s) (i : In) : Aligned (memNext s i).pc := by
  rcases CorePipeline.memNext_pc s i with hp | hp
  · rw [hp]
    exact h.mem
  · rw [hp]
    exact h.ex

theorem wbNext_pc (s : State) : (wbNext s).pc = s.mem.pc := by
  simp only [wbNext]
  split_ifs <;> simp [MemWb.bubble, MemWb.payload]

theorem PcsAligned.step (h : PcsAligned s) (i : In) : PcsAligned (step s i) where
  fetch := h.fetchNext_pc i
  inflight := h.fetchNext_inflightPc i
  id := h.idNext_pc i
  ex := h.exNext_pc i
  mem := h.memNext_pc i
  wb := by
    rw [step_wb, wbNext_pc]
    exact h.mem
  csr := h.csr.step fun _ => h.wb

theorem pcsAligned_run (h : Aligned pc) (inp : Nat → In) (t : Nat) : PcsAligned (run pc regs inp t) := by
  induction t with
  | zero => exact pcsAligned_reset h
  | succ t ih => exact ih.step (inp t)

end QinglongCore.CorePipeline
