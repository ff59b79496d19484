import QinglongCore.Pipeline.PcAligned
import QinglongCore.Rtl.CoreMulticycle

/-!
# The pcs of both cores are word-aligned

The multicycle core has one pc and the copy of it that an instruction leaves behind while it waits.
-/

namespace QinglongCore

open Isa (Aligned aligned_of_lowBits aligned_zero aligned_alignWord aligned_offset)

namespace CoreMulticycle

structure PcsAligned (s : State) : Prop where
  pc : Aligned s.pc
  lat : Aligned s.lat.pc
  csr : Csr.EpcAligned s.csr

variable {s : State} {i : In} {e : Ext} {pc : Word} {regs : RegFile}

theorem pcsAligned_reset (h : Aligned pc) : PcsAligned (reset pc regs) := ⟨h, aligned_zero, Csr.epcAligned_reset⟩

/-! ## Targets -/

/-- An instruction that S_EXEC performs does not go to a misaligned target. -/
theorem misalignedTarget_of_no_trap (h : execTrap s e = none) : misalignedTarget s = none := by
  cases hm : misalignedTarget s
  case none => rfl
  case some a =>
    simp only [execTrap, hm] at h
    grind

theorem PcsAligned.execPc (h : PcsAligned s) (ht : execTrap s e = none) : Aligned (execPc s) := by
  have hm := misalignedTarget_of_no_trap ht
  unfold misalignedTarget at hm
  split_ifs at hm with hb hr hj
  simp only [Bool.and_eq_true, not_and, Bool.not_eq_true, and_imp] at hb hr hj
  unfold CoreMulticycle.execPc
  cases kind s.instr
  case mret => exact h.csr.mepc
  case sret => exact h.csr.sepc
  case single =>
    dsimp only
    split_ifs with h₁ h₂ h₃
    · exact aligned_of_lowBits (hj h₁)
    · exact aligned_of_lowBits (hr h₂)
    · rw [Bool.and_eq_true] at h₃
      exact aligned_of_lowBits (hb h₃.1 h₃.2)
    · exact h.pc.add_four
  all_goals exact h.pc.add_four

/-- What S_EXEC commits without a trap has none. -/
theorem execTrap_of_commit (hf : s.fsm = .exec) (ht : (commit s i).trap = false) : execTrap s i.ext = none := by
  simp only [commit, hf, commitExec] at ht
  cases hx : execTrap s i.ext
  case none => rfl
  case some x =>
    rw [hx] at ht
    simp [Commit.trapped] at ht

/-! ## Step -/

theorem PcsAligned.pcNext (h : PcsAligned s) (i : In) : Aligned (pcNext s i) := by
  unfold CoreMulticycle.pcNext
  split_ifs with hv ht hq hf
  · exact (aligned_alignWord _).add (aligned_offset _)
  · exact aligned_alignWord _
  · exact h.execPc (execTrap_of_commit hf (by simpa using ht))
  · exact h.lat.add_four
  · exact h.pc

theorem execLatch_pc (s : State) : (execLatch s).pc = s.pc ∨ (execLatch s).pc = s.lat.pc := by
  unfold execLatch
  cases kind s.instr <;> simp

theorem latNext_pc (s : State) (i : In) : (latNext s i).pc = s.pc ∨ (latNext s i).pc = s.lat.pc := by
  unfold latNext
  cases s.fsm
  case exec =>
    dsimp only
    split
    · exact execLatch_pc s
    · exact .inr rfl
  case mem =>
    dsimp only
    split_ifs <;> exact .inr rfl
  case amoWait =>
    dsimp only
    split <;> exact .inr rfl
  all_goals exact .inr rfl

theorem PcsAligned.latNext_pc (h : PcsAligned s) (i : In) : Aligned (latNext s i).pc := by
  rcases CoreMulticycle.latNext_pc s i with hp | hp
  · rw [hp]
    exact h.pc
  · rw [hp]
    exact h.lat

theorem PcsAligned.trapPc (h : PcsAligned s) : Aligned (trapPc s) := by
  unfold CoreMulticycle.trapPc
  split
  · exact h.lat
  · exact h.pc

theorem PcsAligned.step (h : PcsAligned s) (i : In) : PcsAligned (step s i) where
  pc := h.pcNext i
  lat := h.latNext_pc i
  csr := h.csr.step fun _ => h.trapPc

theorem pcsAligned_run (h : Aligned pc) (inp : Nat → In) (t : Nat) : PcsAligned (run pc regs inp t) := by
  induction t with
  | zero => exact pcsAligned_reset h
  | succ t ih => exact ih.step (inp t)

/-! ## What retires -/

def retiredPc (s : State) (i : In) : Option Word := if (commit s i).valid then some (commit s i).pc else none

theorem PcsAligned.commit_pc (h : PcsAligned s) (i : In) : Aligned (commit s i).pc := by
  have hp : (commit s i).pc = s.pc ∨ (commit s i).pc = s.lat.pc := by
    unfold commit commitFetch commitExec commitMem commitAmoWait commitDiv
    cases s.fsm
    case amoStore => exact .inl rfl
    case exec =>
      left
      dsimp only
      cases execTrap s i.ext
      case some x => rfl
      case none =>
        cases kind s.instr
        case sc =>
          dsimp only
          split <;> rfl
        all_goals rfl
    all_goals
      dsimp only
      split_ifs <;> simp [Commit.trapped, Commit.retired, Commit.none]
  rcases hp with hp | hp
  · rw [hp]
    exact h.pc
  · rw [hp]
    exact h.lat

end CoreMulticycle

/-- A core fetches from an aligned address, and what retires has one. -/
structure PcAligned (fetchPc : Word) (retiredPc : Option Word) : Prop where
  fetch : Aligned fetchPc
  retired : ∀ a, retiredPc = some a → Aligned a

theorem pcAligned_of_port {fetchPc a : Word} {valid : Bool} (hf : Aligned fetchPc) (ha : Aligned a) :
    PcAligned fetchPc (if valid then some a else none) := by
  refine ⟨hf, fun b hb => ?_⟩
  cases valid
  · simp at hb
  · simp only [if_true, Option.some.injEq] at hb
    exact hb ▸ ha

/-- From an aligned reset vector both cores keep their pcs aligned, in every run. -/
theorem pc_aligned (resetPc : Word) (regs : RegFile) (inp : Nat → CorePipeline.In) (t : Nat) (h : Aligned resetPc) :
    PcAligned (CorePipeline.run resetPc regs inp t).fetch.pc
      (CorePipeline.retiredPc (CorePipeline.run resetPc regs inp t)) ∧
    PcAligned (CoreMulticycle.run resetPc regs inp t).pc
      (CoreMulticycle.retiredPc (CoreMulticycle.run resetPc regs inp t) (inp t)) := by
  have hp : CorePipeline.PcsAligned (CorePipeline.run resetPc regs inp t) := CorePipeline.pcsAligned_run h inp t
  have hm : CoreMulticycle.PcsAligned (CoreMulticycle.run resetPc regs inp t) := CoreMulticycle.pcsAligned_run h inp t
  exact ⟨pcAligned_of_port hp.fetch hp.wb, pcAligned_of_port hm.pc (hm.commit_pc (inp t))⟩

/-- `jal x0, 8` wherever they fetch. -/
def leaping (_ : Nat) : CorePipeline.In := .fetching (some 0x0080006F#32)

/-- Both cores jump from the reset vector of the system on, and retire a jump in cycle 17. -/
theorem pc_aligned_leaping :
    (PcAligned (CorePipeline.run RESET_PC (fun _ => 0) leaping 17).fetch.pc
        (CorePipeline.retiredPc (CorePipeline.run RESET_PC (fun _ => 0) leaping 17)) ∧
      PcAligned (CoreMulticycle.run RESET_PC (fun _ => 0) leaping 17).pc
        (CoreMulticycle.retiredPc (CoreMulticycle.run RESET_PC (fun _ => 0) leaping 17) (leaping 17))) ∧
    CorePipeline.retiredPc (CorePipeline.run RESET_PC (fun _ => 0) leaping 17) = some (RESET_PC + 24) ∧
    CoreMulticycle.retiredPc (CoreMulticycle.run RESET_PC (fun _ => 0) leaping 17) (leaping 17) =
      some (RESET_PC + 40) :=
  ⟨pc_aligned RESET_PC (fun _ => 0) leaping 17 (by decide), by decide +kernel, by decide +kernel⟩

end QinglongCore
