import QinglongCore.Isa.Acceptance
import QinglongCore.Pipeline.AmoFault
import QinglongCore.Pipeline.Lemmas.Words
import QinglongCore.Pipeline.Privilege

/-!
# Words that are no instruction

What the decoder rejects in ID traps in WB and has no other effect. What it accepts is an encoding, apart from the
function fields that it does not check.
-/

namespace QinglongCore.CorePipeline

/-! ## Statement -/

/-- The word in EX raises an illegal-instruction exception. -/
def IllegalTrap (s : State) : Prop := ∃ v, exTrapInfo s = some (CAUSE_ILLEGAL_INSN, v)

section Statement

variable (pc : Word) (regs : RegFile) (inp : Nat → In)

/-- The instruction that was in EX in cycle `t` is in WB two cycles later, where it traps and does nothing else. -/
structure CommitsIllegal (t : Nat) : Prop where
  name : (births pc regs inp (t + 2)).wb = (births pc regs inp t).ex
  trap : trapTakeWb (run pc regs inp (t + 2)) = true
  epc : (run pc regs inp (t + 2)).wb.pc = (run pc regs inp t).ex.pc
  cause : (run pc regs inp (t + 2)).wb.cause = CAUSE_ILLEGAL_INSN
  tval : (run pc regs inp (t + 2)).wb.tval = (run pc regs inp t).ex.instr
  csr : csrEnWb (run pc regs inp (t + 2)) = false ∧ mretWb (run pc regs inp (t + 2)) = false ∧
    sretWb (run pc regs inp (t + 2)) = false ∧ retireWb (run pc regs inp (t + 2)) = false
  regs : (run pc regs inp (t + 3)).regs = (run pc regs inp (t + 2)).regs

/-- The word in EX in cycle `t` has no effect but an illegal-instruction trap, which it takes unless an instruction in
front of it redirects. -/
structure Rejected (t : Nat) : Prop where
  noJump : branchRedirect (run pc regs inp t) = false
  noAccess : ∀ u, t ≤ u → (run pc regs inp u).mem.valid = true →
    (births pc regs inp u).mem = (births pc regs inp t).ex → dmemReqValid (run pc regs inp u) = false
  commits : wbRedirect (run pc regs inp t) = true ∨ wbRedirect (run pc regs inp (t + 1)) = true ∨
    CommitsIllegal pc regs inp t

/-- The word in EX in cycle `t` is an RV32IMA instruction unless it is illegal, is not illegal if it is one and its
privilege permits it, and is rejected if it is illegal. -/
structure DecodedExactly (t : Nat) : Prop where
  valid : ¬ IllegalTrap (run pc regs inp t) → Isa.Valid (run pc regs inp t).ex.instr
  accepted : Isa.Valid (run pc regs inp t).ex.instr →
    Decode.Permitted (run pc regs inp t).ex.instr (mode (run pc regs inp t)) → ¬ IllegalTrap (run pc regs inp t)
  rejected : IllegalTrap (run pc regs inp t) → Rejected pc regs inp t

end Statement

variable {s : State} {i : In}

/-! ## The decision taken in ID -/

theorem IdEx.Decoded.illegal {ex : IdEx} (h : ex.Decoded) : ∃ m, ex.ctrl.illegal = Decode.illegal ex.instr m := by
  obtain ⟨id, m, d₁, d₂, rfl, -⟩ := h
  exact ⟨m, rfl⟩

/-- What was decided about the word in EX is what the decoder would decide now. -/
theorem LegalNow.illegal_ex (h : LegalNow s) (hsp : Spaced s) (hv : s.ex.valid = true) :
    s.ex.ctrl.illegal = Decode.illegal s.ex.instr (mode s) := by
  have hd := hsp.ex_decoded hv
  cases hs : s.ex.ctrl.isSerial
  · obtain ⟨m, hm⟩ := hd.illegal
    rw [hm]
    exact Decode.illegal_mode (hd.isSerial ▸ hs) m _
  · exact h.ex hv hs

/-- An instruction in EX that was fetched without a fault. -/
structure Fetched (s : State) : Prop where
  valid : s.ex.valid = true
  irq : s.ex.ctrl.irq = false
  fault : s.ex.ctrl.fetchFault = false
  pagefault : s.ex.ctrl.fetchPagefault = false

theorem Fetched.trapInfo (h : Fetched s) (hi : s.ex.ctrl.illegal = true) :
    exTrapInfo s = some (CAUSE_ILLEGAL_INSN, s.ex.instr) := by
  simp [exTrapInfo, IdEx.trapInfo, h.valid, h.irq, h.fault, h.pagefault, hi]

theorem Fetched.illegalTrap_iff (h : Fetched s) : IllegalTrap s ↔ s.ex.ctrl.illegal = true := by
  refine ⟨fun ⟨v, ht⟩ => ?_, fun hi => ⟨_, h.trapInfo hi⟩⟩
  by_contra hl
  rw [Bool.not_eq_true] at hl
  simp only [exTrapInfo, IdEx.trapInfo, h.valid, h.irq, h.fault, h.pagefault, hl, CAUSE_ILLEGAL_INSN,
    CAUSE_ECALL_FROM_U, CAUSE_ECALL_FROM_S, CAUSE_ECALL_FROM_M, CAUSE_BREAKPOINT, CAUSE_INSN_ADDR_MISALIGNED,
    CAUSE_LOAD_ADDR_MISALIGNED, CAUSE_STORE_ADDR_MISALIGNED] at ht
  grind

/-! ## A rejected word -/

namespace Fetched

variable (h : Fetched s) (hsp : Spaced s) (hi : s.ex.ctrl.illegal = true)

include h hi

theorem trapped : exTrap s = true := by rw [exTrap, h.trapInfo hi]; rfl

theorem no_jump : branchRedirect s = false := by simp [branchRedirect, h.trapped hi]

theorem mem_trap : (memAdvance s).trap = true ∧ (memAdvance s).cause = CAUSE_ILLEGAL_INSN ∧
    (memAdvance s).tval = s.ex.instr ∧ (memAdvance s).pc = s.ex.pc := by
  simp [memAdvance, ExMem.ofEx, h.trapInfo hi]

include hsp

/-- It is no DIV/REM word, so it leaves EX at once. -/
theorem stallEx : CorePipeline.stallEx s = false := by
  rw [hsp.stallEx_of_ex h.valid]
  cases hst : exDivStall s
  · rfl
  · have hdiv := (exDivStall_elim hst).2.1
    have hd := hsp.ex_decoded h.valid
    obtain ⟨m, hm⟩ := hd.illegal
    rw [hd.isDiv] at hdiv
    rw [hm, (Decode.of_isDiv hdiv m).1] at hi
    exact absurd hi (by decide)

theorem step_mem (hv : (step s i).mem.valid = true) : (step s i).mem = memAdvance s := by
  obtain ⟨-, ⟨hst, -, -⟩ | ⟨-, -, he⟩⟩ := memNext_valid hv
  · rw [stallMem_false_of_stallEx (h.stallEx hsp hi)] at hst
    exact absurd hst (by decide)
  · exact he

theorem step_stallMem : stallMem (step s i) = false := by
  cases hv : (step s i).mem.valid
  · exact stallMem_false_of_invalid hv
  · refine (spaced_step hsp i).stallMem_of_trap hv ?_
    rw [h.step_mem hsp hi hv]
    exact (h.mem_trap hi).1

end Fetched

/-- A trap that comes from EX has no effect in WB but the trap. -/
theorem ofMem_of_trap {m : ExMem} (hm : m.FromEx) (ht : m.trap = true) (b : MemBus) :
    (MemWb.ofMem m b).trap = true ∧ (MemWb.ofMem m b).cause = m.cause ∧ (MemWb.ofMem m b).tval = m.tval := by
  rw [MemWb.ofMem, hm.trap_no_bus ht]
  exact ⟨ht, rfl, rfl⟩

/-! ## Runs -/

variable {pc : Word} {regs : RegFile} {inp : Nat → In} {t : Nat}

/-- The instructions behind MEM, once a rejected word has left EX. -/
theorem Fetched.younger (h : Fetched (run pc regs inp t)) (hi : (run pc regs inp t).ex.ctrl.illegal = true) :
    YoungerWb (births pc regs inp t).ex (run pc regs inp (t + 2)) (births pc regs inp (t + 2)) := by
  have hsp : Spaced (run pc regs inp t) := spaced_run t
  have hse := h.stallEx hsp hi
  have hlt : (births pc regs inp t).ex < t := by
    cases t with
    | zero =>
      have hv := h.valid
      simp [run, reset] at hv
    | succ t =>
        have hle := @births_succ_le pc regs inp t
        omega
  have hmem : YoungerMem (births pc regs inp t).ex (run pc regs inp (t + 1)) (births pc regs inp (t + 1)) := by
    refine ⟨youngerEx_step ((ordered_run t).ex h.valid) hlt, fun hv => ?_⟩
    rcases exNext_valid hv with ⟨hst, -⟩ | ⟨hid, -⟩
    · rw [hse] at hst
      exact absurd hst (by decide)
    · show _ < (if CorePipeline.stallEx (run pc regs inp t) then _ else _)
      rw [hse]
      exact ((ordered_run t).ex h.valid).2 hid
  refine ⟨youngerMem_step hmem (by omega), fun hv => ?_⟩
  have hst : stallMem (run pc regs inp (t + 1)) = false := h.step_stallMem hsp hi
  obtain ⟨-, ⟨hst', -⟩ | ⟨-, hx, -⟩⟩ := memNext_valid hv
  · rw [hst] at hst'
    exact absurd hst' (by decide)
  · show _ < (if stallMem (run pc regs inp (t + 1)) then _ else _)
    rw [hst]
    exact hmem.2 hx

theorem Fetched.rejected (h : Fetched (run pc regs inp t)) (hi : (run pc regs inp t).ex.ctrl.illegal = true) :
    Rejected pc regs inp t := by
  have hsp : Spaced (run pc regs inp t) := spaced_run t
  have hsp₁ : Spaced (run pc regs inp (t + 1)) := spaced_run (t + 1)
  have hse := h.stallEx hsp hi
  refine ⟨h.no_jump hi, fun u htu hm hr => ?_, ?_⟩
  · rcases Nat.lt_or_ge u (t + 2) with hlt | hge
    · have hu : u = t ∨ u = t + 1 := by omega
      rcases hu with rfl | rfl
      · -- what is in MEM beside it is older
        have hold := ((ordered_run u).mem hm).2 h.valid
        omega
      · have he : (run pc regs inp (t + 1)).mem = memAdvance (run pc regs inp t) := h.step_mem hsp hi hm
        have hl := memAdvance_lsPending_of_trap (h.trapped hi)
        simp [dmemReqValid, he, hl]
    · have hlt : (births pc regs inp t).ex < t + 2 := by
        have hle := @births_le pc regs inp t
        omega
      have hafter := (youngerWb_from (h.younger hi) hlt hge).2 hm
      omega
  · rcases Bool.eq_false_or_eq_true (wbRedirect (run pc regs inp t)) with hw | hw
    · exact .inl hw
    rcases Bool.eq_false_or_eq_true (wbRedirect (run pc regs inp (t + 1))) with hw₁ | hw₁
    · exact .inr (.inl hw₁)
    refine .inr (.inr ?_)
    have hmem : (run pc regs inp (t + 1)).mem = memAdvance (run pc regs inp t) := memNext_of_ex hw h.valid hse
    obtain ⟨htrap, hcause, htval, hpc⟩ := h.mem_trap hi
    have hv : (run pc regs inp (t + 1)).mem.valid = true := by rw [hmem, memAdvance_valid]
    have hready : stallMem (run pc regs inp (t + 1)) = false := h.step_stallMem hsp hi
    have hwb : (run pc regs inp (t + 2)).wb =
        MemWb.ofMem (run pc regs inp (t + 1)).mem (run pc regs inp (t + 1)).bus := wbNext_of_mem hw₁ hv hready
    obtain ⟨ht, hc, htv⟩ :=
      ofMem_of_trap (hsp₁.mem_origin hv) (by rw [hmem, htrap]) (run pc regs inp (t + 1)).bus
    rw [← hwb] at ht hc htv
    have hwv : (run pc regs inp (t + 2)).wb.valid = true := by rw [hwb, ofMem_valid]
    exact {
      name := by
        show (if stallMem (run pc regs inp t) then _ else _) = _
        rw [stallMem_false_of_stallEx hse]
        rfl
      trap := by simp [trapTakeWb, hwv, ht]
      epc := by rw [hwb, ofMem_pc, hmem, hpc]
      cause := by rw [hc, hmem, hcause]
      tval := by rw [htv, hmem, htval]
      csr := by simp [csrEnWb, mretWb, sretWb, retireWb, ht]
      regs := regs_of_no_write (.inr ht) }

/-- The decoder treats a word that reaches EX as the instruction set does, unless the word has one of the reserved
function fields that the decoder does not check. -/
theorem decodedExactly_iff (pc : Word) (regs : RegFile) (inp : Nat → In) (t : Nat) (h : Fetched (run pc regs inp t)) :
    DecodedExactly pc regs inp t ↔ ¬ Decode.Unchecked (run pc regs inp t).ex.instr (mode (run pc regs inp t)) := by
  have hnow := (legalNow_run t).illegal_ex (spaced_run t) h.valid
  have hiff := h.illegalTrap_iff
  rw [hnow] at hiff
  constructor
  · intro hd hu
    refine Decode.not_valid_of_unchecked hu (hd.valid fun hi => ?_)
    rw [hiff, Decode.legal_of_unchecked hu] at hi
    exact absurd hi (by decide)
  · intro hu
    refine ⟨fun hi => ?_, fun hv hp hi => ?_, fun hi => h.rejected ?_⟩
    · rw [hiff, Bool.not_eq_true] at hi
      exact Decode.valid_of_legal hi hu
    · rw [hiff, Decode.legal_of_valid hv hp] at hi
      exact absurd hi (by decide)
    · rwa [hnow, ← hiff]

/-! ## Runs on a single word -/

/-- The word is answered to every fetch, and every data request is accepted and answered at once. -/
def wordInp (w : Word) (_ : Nat) : In := { In.fetching (some w) with dmemReqReady := true, dmemRspValid := true }

/-- A word of ones is rejected. -/
theorem decodedExactly_ones : DecodedExactly RESET_PC (fun _ => 0) (wordInp 0xFFFFFFFF#32) 3 :=
  (decodedExactly_iff _ _ _ _ (by constructor <;> decide)).mpr (by decide)

/-- A store with the function field of a doubleword is not RV32I; it writes a word to memory and retires. -/
theorem storesDoubleword :
    Fetched (run RESET_PC (fun _ => 0) (wordInp 0x0020B023#32) 3) ∧
      (run RESET_PC (fun _ => 0) (wordInp 0x0020B023#32) 3).ex.instr = 0x0020B023#32 ∧
      ¬ Isa.Valid 0x0020B023#32 ∧
      ¬ IllegalTrap (run RESET_PC (fun _ => 0) (wordInp 0x0020B023#32) 3) ∧
      dmemAccept (run RESET_PC (fun _ => 0) (wordInp 0x0020B023#32) 4) (wordInp 0x0020B023#32 4) = true ∧
      dmemReqWen (run RESET_PC (fun _ => 0) (wordInp 0x0020B023#32) 4) = true ∧
      dmemReqWmask (run RESET_PC (fun _ => 0) (wordInp 0x0020B023#32) 4) = 0b1111#4 ∧
      retireWb (run RESET_PC (fun _ => 0) (wordInp 0x0020B023#32) 6) = true := by
  have hf : Fetched (run RESET_PC (fun _ => 0) (wordInp 0x0020B023#32) 3) := by constructor <;> decide
  refine ⟨hf, by decide, ?_, ?_, by decide, by decide, by decide, by decide⟩
  · exact Decode.not_valid_of_unchecked (m := ⟨PRV_M, false, false⟩) (by decide)
  · rw [hf.illegalTrap_iff]
    decide

end QinglongCore.CorePipeline
