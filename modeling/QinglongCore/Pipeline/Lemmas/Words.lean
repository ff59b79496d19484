import QinglongCore.Pipeline.Lemmas.DataBus
import QinglongCore.Pipeline.Lemmas.Serial

/-!
# The words in the pipe

The instruction in each stage carries its pc and the word that the fetch bus answered with. Without a faulted
fetch no DIV/REM word traps, so nothing is left in MEM behind a redirect.
-/

namespace QinglongCore

namespace Decode

variable {w : Word}

/-- A DIV/REM word is legal in every mode, and it is neither a control transfer nor serialised. -/
theorem of_isDiv (h : isDiv w = true) (m : Mode) : illegal w m = false ∧ isEcall w = false ∧ isEbreak w = false ∧
    isBranch w = false ∧ isJal w = false ∧ isJalr w = false ∧ isSerial w = false := by
  have ho := opcode_of_isDiv h
  have hf : funct7 w = F7_MULDIV := by
    simp only [isDiv, isMuldiv, Bool.and_eq_true, beq_iff_eq] at h
    exact h.1.2
  simp [illegal, illegalOpcode, illegalOpImm, illegalOp, illegalPriv, illegalCsr, isEcall, isEbreak, isPriv, isSystem,
    isCsr, isBranch, isJal, isJalr, isSerial, isMret, isSret, isWfi, isMisc, isAtomic, isLr, isSc, isAmoRmw, isAmoW,
    isAmo, isSfence, isOp, isOpImm, ho, hf, OP_OP, OP_SYSTEM, OP_AMO, OP_MISC_MEM, OP_OP_IMM, OP_BRANCH, OP_JAL,
    OP_JALR]

end Decode

namespace CorePipeline

variable {s : State} {i : In} {P : Word → Word → Prop}

/-! ## Fetched words -/

/-- The word of every instruction that was fetched is one that `P` has for its pc. -/
structure Words (P : Word → Word → Prop) (s : State) : Prop where
  id : s.id.valid = true → s.id.irq = false → P s.id.pc s.id.instr
  ex : s.ex.valid = true → s.ex.ctrl.irq = false → P s.ex.pc s.ex.instr
  mem : s.mem.valid = true → s.mem.trap = false → P s.mem.pc s.mem.instr
  wb : s.wb.valid = true → s.wb.trap = false → P s.wb.pc s.wb.instr

theorem Drained.words (h : Drained s) : Words P s where
  id hv := by simp [h.id] at hv
  ex hv := by simp [h.ex] at hv
  mem hv := by simp [h.mem] at hv
  wb hv := by simp [h.wb] at hv

theorem words_step (hsp : Spaced s) (h : Words P s)
    (hr : rspConsumable s i = true → P s.fetch.inflightPc i.ifetchRspData) : Words P (step s i) where
  id hv hq := by
    rw [step_id]
    have hq' : (idNext s i).irq = false := hq
    obtain ⟨-, ⟨hid, -, he⟩ | ⟨-, -, he⟩ | ⟨-, -, hc, he⟩⟩ := idNext_valid hv
    · rw [he] at hq' ⊢
      exact h.id hid hq'
    · rw [he] at hq'; simp [irqBubble] at hq'
    · rw [he]
      exact hr hc
  ex hv hq := by
    rw [step_ex]
    have hq' : (exNext s i).ctrl.irq = false := hq
    rcases exNext_valid hv with ⟨-, hx, he⟩ | ⟨hid, -, -, -, -, he⟩
    · rw [he] at hq' ⊢
      exact h.ex hx hq'
    · rw [he] at hq' ⊢
      exact h.id hid hq'
  mem hv ht := by
    rw [step_mem]
    have ht' : (memNext s i).trap = false := ht
    obtain ⟨-, ⟨-, hm, he⟩ | ⟨-, hx, he⟩⟩ := memNext_valid hv
    · rw [he, memHold_trap] at ht'
      rw [he, memHold_pc, memHold_instr]
      exact h.mem hm ht'
    · rw [he, memAdvance_trap] at ht'
      rw [he, memAdvance_pc, memAdvance_instr]
      refine h.ex hx ?_
      cases hq : s.ex.ctrl.irq
      · rfl
      · simp [exTrap, exTrapInfo, IdEx.trapInfo, hx, hq] at ht'
  wb hv ht := by
    rw [step_wb]
    have ht' : (wbNext s).trap = false := ht
    obtain ⟨-, hm, -, he⟩ := wbNext_valid hv
    rw [he] at ht' ⊢
    rw [ofMem_pc, ofMem_instr]
    refine h.mem hm ?_
    cases htr : s.mem.trap
    · rfl
    · rw [(hsp.mem_origin hm).ofMem_trap s.bus htr] at ht'; simp at ht'

/-! ## Runs without a faulted fetch -/

structure Unfaulted (s : State) : Prop where
  id : s.id.valid = true → (s.id.fault || s.id.pagefault) = false
  ex : s.ex.valid = true → (s.ex.ctrl.fetchFault || s.ex.ctrl.fetchPagefault) = false
  mem : s.mem.valid = true → Decode.isDiv s.mem.instr = true → s.mem.trap = false
  wb : s.wb.valid = true → Decode.isDiv s.wb.instr = true → s.wb.trap = false

theorem unfaulted_reset (pc : Word) (regs : RegFile) : Unfaulted (reset pc regs) := by
  constructor <;> simp [reset]

theorem IdEx.Decoded.trapInfo_of_div {ex : IdEx} (h : ex.Decoded) (hd : Decode.isDiv ex.instr = true)
    (hf : (ex.ctrl.fetchFault || ex.ctrl.fetchPagefault) = false) (rs1 rs2 : Word) (p : BitVec 2) :
    ex.trapInfo rs1 rs2 p = none := by
  obtain ⟨id, m, d₁, d₂, rfl, hirq⟩ := h
  have hd' : Decode.isDiv id.instr = true := hd
  obtain ⟨h₁, h₂, h₃, h₄, h₅, h₆, -⟩ := Decode.of_isDiv hd' m
  obtain ⟨h₇, h₈, h₉, h₁₀, h₁₁⟩ := Decode.not_bus_of_isDiv hd'
  have hq : id.irq = false := by
    cases hq : id.irq
    · rfl
    · rw [hirq hq] at hd'
      exact absurd hd' (by decide)
  simp only [IdEx.ofId, Ctrl.ofId, Bool.or_eq_false_iff] at hf
  simp [IdEx.trapInfo, IdEx.misalignedTarget, IdEx.takeBranch, IdEx.takeJal, IdEx.takeJalr, IdEx.ofId, Ctrl.ofId,
    h₁, h₂, h₃, h₄, h₅, h₆, h₇, h₈, h₉, h₁₀, h₁₁, hq, hf.1, hf.2]

theorem unfaulted_step (hsp : Spaced s) (h : Unfaulted s)
    (hr : rspConsumable s i = true → (i.ifetchRspFault || i.ifetchRspPagefault) = false) :
    Unfaulted (step s i) where
  id hv := by
    rw [step_id]
    obtain ⟨-, ⟨hid, -, he⟩ | ⟨-, -, he⟩ | ⟨-, -, hc, he⟩⟩ := idNext_valid hv
    · rw [he]; exact h.id hid
    · rw [he]; rfl
    · rw [he]; exact hr hc
  ex hv := by
    rw [step_ex]
    rcases exNext_valid hv with ⟨-, hx, he⟩ | ⟨hid, -, -, -, -, he⟩
    · rw [he]; exact h.ex hx
    · rw [he]; exact h.id hid
  mem hv hd := by
    rw [step_mem]
    have hd' : Decode.isDiv (memNext s i).instr = true := hd
    obtain ⟨-, ⟨-, hm, he⟩ | ⟨-, hx, he⟩⟩ := memNext_valid hv
    · rw [he, memHold_instr] at hd'
      rw [he, memHold_trap]
      exact h.mem hm hd'
    · rw [he, memAdvance_instr] at hd'
      rw [he, memAdvance_trap, exTrap, exTrapInfo, (hsp.ex_decoded hx).trapInfo_of_div hd' (h.ex hx)]
      rfl
  wb hv hd := by
    rw [step_wb]
    have hd' : Decode.isDiv (wbNext s).instr = true := hd
    obtain ⟨-, hm, -, he⟩ := wbNext_valid hv
    rw [he, ofMem_instr] at hd'
    rw [he]
    simp [MemWb.ofMem, (hsp.mem_origin hm).div_no_bus hd', h.mem hm hd']

/-- Nothing is in MEM behind a redirect. -/
theorem Unfaulted.mem_empty (h : Unfaulted s) (hsp : Spaced s) (hw : wbRedirect s = true) : s.mem.valid = false := by
  have hv := wb_valid_of_wbRedirect hw
  cases hd : Decode.isDiv s.wb.instr
  · exact hsp.mem_empty hv hd
  · exfalso
    rcases hsp.redirect_elim hw with ht | hs
    · rw [h.wb hv hd] at ht; simp at ht
    · rw [(hsp.wb_origin hv).isSerial_eq, (Decode.of_isDiv hd ⟨0, false, false⟩).2.2.2.2.2.2] at hs
      simp at hs

/-! ## FENCE.I -/

variable {pc : Word} {regs : RegFile} {inp : Nat → In} {t : Nat}

section Fence

variable {w : Word} (h : opcode w = OP_MISC_MEM)

include h

theorem isSerial_of_misc : Decode.isSerial w = true := by simp [Decode.isSerial, Decode.isMisc, h]

theorem not_div_of_misc : Decode.isDiv w = false := by
  simp [Decode.isDiv, Decode.isMuldiv, Decode.isOp, h, OP_MISC_MEM, OP_OP]

end Fence

/-- A fence waits in MEM neither for the data bus nor for a fetch. -/
theorem Spaced.stallMem_of_misc (h : Spaced s) (hv : s.mem.valid = true) (ho : opcode s.mem.instr = OP_MISC_MEM) :
    stallMem s = false := by
  have hfrom := h.mem_origin hv
  have hl : s.mem.lsPending = false := by
    cases hl : s.mem.lsPending
    · rfl
    · have hop := hfrom.hasBusOp hl
      have ht : s.mem.trap = false := by
        cases ht : s.mem.trap
        · rfl
        · rw [hfrom.trap_no_bus ht] at hop; simp at hop
      obtain ⟨h₁, h₂, h₃, h₄, h₅⟩ := hfrom.flags ht
      simp [ExMem.hasBusOp, h₁, h₂, h₃, h₄, h₅, Decode.isLoad, Decode.isStore, Decode.isLr, Decode.isSc,
        Decode.isAmoRmw, Decode.isAmoW, Decode.isAmo, ho, OP_MISC_MEM, OP_LOAD, OP_STORE, OP_AMO] at hop
  simp [stallMem, memBusy, memStallForIfetchDrain, memIsCsrwSatp, memIsCsrOp, hl, ho, OP_MISC_MEM, OP_SYSTEM]

/-- A FENCE.I in WB drains the pipe behind it. -/
theorem fenceI_drains (h : wbIsFenceI (run pc regs inp t) = true) : Drained (run pc regs inp (t + 1)) := by
  have h' := h
  simp only [wbIsFenceI, Bool.and_eq_true, beq_iff_eq] at h
  obtain ⟨⟨⟨hv, -⟩, ho⟩, -⟩ := h
  have hser : (run pc regs inp t).wb.isSerial = true := by
    rw [((spaced_run t).wb_origin hv).isSerial_eq]
    exact isSerial_of_misc ho
  have hx := ((serialAlone_run t).wb hv hser).1
  exact (spaced_run t).drained_of_redirect (by simp [wbRedirect, hv, h']) (by simp [exDivStall, hx])

/-- A FENCE.I leaves ID three cycles before it retires, into an empty pipe and with no fetch in flight. -/
theorem fenceI_left_id (h : wbIsFenceI (run pc regs inp t) = true) : ∃ b, t = b + 3 ∧
    (run pc regs inp b).fetch.inflight = false ∧ (run pc regs inp b).wb.valid = false ∧
    (run pc regs inp (b + 1)).wb.valid = false ∧ (run pc regs inp (b + 2)).wb.valid = false := by
  simp only [wbIsFenceI, Bool.and_eq_true, beq_iff_eq] at h
  obtain ⟨⟨⟨hv, -⟩, ho⟩, -⟩ := h
  -- WB took it from MEM
  rcases t with _ | t
  · simp [run, reset] at hv
  obtain ⟨-, hm, -, he⟩ := @wbNext_valid (run pc regs inp t) hv
  have hwb : (run pc regs inp (t + 1)).wb = MemWb.ofMem (run pc regs inp t).mem (run pc regs inp t).bus := he
  rw [hwb, ofMem_instr] at ho
  have hser : (run pc regs inp t).mem.isSerial = true := by
    rw [((spaced_run t).mem_origin hm).isSerial_eq]
    exact isSerial_of_misc ho
  have hwb₂ := ((serialAlone_run t).mem hm hser).2
  -- MEM took it from EX
  rcases t with _ | t
  · simp [run, reset] at hm
  have hx : (run pc regs inp t).ex.valid = true ∧ (run pc regs inp (t + 1)).mem = memAdvance (run pc regs inp t) := by
    obtain ⟨-, ⟨hst, hm', he'⟩ | ⟨-, hx, he'⟩⟩ := @memNext_valid (run pc regs inp t) (inp t) hm
    · have hi : (run pc regs inp (t + 1)).mem = memHold (run pc regs inp t) (inp t) := he'
      rw [hi, memHold_instr] at ho
      rw [(spaced_run t).stallMem_of_misc hm' ho] at hst
      simp at hst
    · exact ⟨hx, he'⟩
  rw [hx.2, memAdvance_instr] at ho
  have hdec := (spaced_run t).ex_decoded hx.1
  have hser' : (run pc regs inp t).ex.ctrl.isSerial = true := by
    rw [hdec.isSerial]
    exact isSerial_of_misc ho
  have hwb₁ := ((serialAlone_run t).ex hx.1 hser').2
  -- EX took it from ID
  rcases t with _ | t
  · simp [run, reset] at hx
  rcases @exNext_valid (run pc regs inp t) (inp t) hx.1 with ⟨hst, hx', he'⟩ | ⟨hid, hs, -, -, -, he'⟩
  · exfalso
    have hi : (run pc regs inp (t + 1)).ex = (run pc regs inp t).ex := he'
    rw [hi] at ho
    rw [(spaced_run t).stallEx_of_ex hx'] at hst
    have hd := (exDivStall_elim hst).2.1
    rw [((spaced_run t).ex_decoded hx').isDiv, not_div_of_misc ho] at hd
    simp at hd
  · have hi : (run pc regs inp (t + 1)).ex = exAdvance (run pc regs inp t) (inp t).ext := he'
    rw [hi, exAdvance_instr] at ho
    obtain ⟨-, -, hwb₀⟩ := pipe_empty_of_serial hid hs (isSerial_of_misc ho)
    refine ⟨t, rfl, ?_, hwb₀, hwb₁, hwb₂⟩
    cases hin : (run pc regs inp t).fetch.inflight
    · rfl
    · rw [(spaced_run t).fetch_id hin] at hid; simp at hid

end CorePipeline

end QinglongCore
