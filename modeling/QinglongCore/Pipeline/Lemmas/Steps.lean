import QinglongCore.Rtl.CorePipeline

/-!
# What one clock edge can do to each stage of the pipeline

Inversion lemmas for the next-state functions. The invariants of the core are derived from these cases
and from the facts on the control wires below.
-/

namespace QinglongCore.CorePipeline

variable {s : State} {i : In} {e : Ext}

/-! ## Registers after the edge -/

theorem step_fetch : (step s i).fetch = fetchNext s i := rfl
theorem step_id : (step s i).id = idNext s i := rfl
theorem step_ex : (step s i).ex = exNext s i := rfl
theorem step_mem : (step s i).mem = memNext s i := rfl
theorem step_bus : (step s i).bus = busNext s i := rfl
theorem step_wb : (step s i).wb = wbNext s := rfl
theorem step_div : (step s i).div = divNext s := rfl

/-! ## Control wires -/

/-- Without an instruction in WB the CSR file only counts. -/
theorem csrStep_of_idle (hv : s.wb.valid = false) (e : Ext) :
    Csr.step s.csr e (csrIn s) = Csr.tick s.csr e (csrIn s) := by
  simp [Csr.step, csrIn, trapTakeWb, mretWb, sretWb, csrEnWb, Csr.doWrite, hv]

theorem stallEx_of_stallMem (h : stallMem s = true) : stallEx s = true := by simp [stallEx, h]

theorem stallEx_of_exDivStall (h : exDivStall s = true) : stallEx s = true := by simp [stallEx, h]

theorem stallMem_false_of_stallEx (h : stallEx s = false) : stallMem s = false := by
  simp only [stallEx, Bool.or_eq_false_iff] at h; exact h.1

theorem wb_valid_of_wbRedirect (h : wbRedirect s = true) : s.wb.valid = true := by
  simp only [wbRedirect, Bool.and_eq_true] at h; exact h.1

theorem allowIrqInject_elim (h : allowIrqInject s e = true) :
    Csr.irqPending s.csr e = true ∧ s.ex.valid = false ∧ s.mem.valid = false ∧ s.wb.valid = false ∧
      s.fetch.inflight = false ∧ s.trapPending = false ∧ s.id.irq = false := by
  simpa [allowIrqInject, and_assoc] using h

theorem ifetchAccept_elim (h : ifetchAccept s i = true) :
    s.fetch.inflight = false ∧ ifIdSlotFreeNext s = true ∧ branchRedirect s = false ∧
      wbRedirect s = false ∧ s.trapPending = false ∧ allowIrqInject s i.ext = false ∧
      i.ifetchReqReady = true := by
  simpa [ifetchAccept, ifetchReqValid, ifCanIssue, and_assoc] using h

theorem branchRedirect_elim (h : branchRedirect s = true) :
    s.ex.valid = true ∧ (s.ex.ctrl.isBranch || s.ex.ctrl.isJal || s.ex.ctrl.isJalr) = true ∧
      exTrap s = false ∧ stallEx s = false := by
  simp only [branchRedirect, IdEx.takeBranch, IdEx.takeJal, IdEx.takeJalr, Bool.and_eq_true,
    Bool.or_eq_true, Bool.not_eq_true'] at h
  refine ⟨?_, ?_, h.1.2, h.2⟩
  · rcases h.1.1 with (h | h) | h
    · exact h.1.1
    · exact h.1
    · exact h.1
  · rcases h.1.1 with (h | h) | h
    · simp [h.1.2]
    · simp [h.2]
    · simp [h.2]

/-- With the pipe empty in front of it, the instruction in ID is not stalled. -/
theorem stallId_of_idle (hex : s.ex.valid = false) (hm : s.mem.valid = false) (hw : s.wb.valid = false) :
    stallId s = false := by
  simp [stallId, stallEx, stallMem, memBusy, memStallForIfetchDrain, memIsCsrwSatp, memIsCsrOp,
    exDivStall, loadUseHazard, pipeBusyAheadOfId, serialInflight, hex, hm, hw]

/-! ## Fields kept by a held stage -/

theorem memHold_cases : memHold s i = s.mem ∨ memHold s i = { s.mem with amoPhase := true } ∨
    memHold s i = { s.mem with lsPending := false } := by
  unfold memHold
  split_ifs
  · exact .inr (.inl rfl)
  · exact .inr (.inr rfl)
  · exact .inl rfl

@[simp] theorem memHold_valid : (memHold s i).valid = s.mem.valid := by
  unfold memHold; split <;> [split <;> rfl; rfl]
@[simp] theorem memHold_pc : (memHold s i).pc = s.mem.pc := by
  unfold memHold; split <;> [split <;> rfl; rfl]
@[simp] theorem memHold_instr : (memHold s i).instr = s.mem.instr := by
  unfold memHold; split <;> [split <;> rfl; rfl]
@[simp] theorem memHold_trap : (memHold s i).trap = s.mem.trap := by
  unfold memHold; split <;> [split <;> rfl; rfl]
@[simp] theorem memHold_isSerial : (memHold s i).isSerial = s.mem.isSerial := by
  unfold memHold; split <;> [split <;> rfl; rfl]
@[simp] theorem memHold_hasBusOp : (memHold s i).hasBusOp = s.mem.hasBusOp := by
  unfold memHold; split <;> [split <;> rfl; rfl]

@[simp] theorem memAdvance_valid : (memAdvance s).valid = true := rfl
@[simp] theorem memAdvance_pc : (memAdvance s).pc = s.ex.pc := rfl
@[simp] theorem memAdvance_instr : (memAdvance s).instr = s.ex.instr := rfl
@[simp] theorem memAdvance_trap : (memAdvance s).trap = exTrap s := rfl
@[simp] theorem memAdvance_isSerial : (memAdvance s).isSerial = s.ex.ctrl.isSerial := rfl

@[simp] theorem ofMem_valid (m : ExMem) (b : MemBus) : (MemWb.ofMem m b).valid = true := by
  unfold MemWb.ofMem; dsimp only; split_ifs <;> rfl
@[simp] theorem ofMem_pc (m : ExMem) (b : MemBus) : (MemWb.ofMem m b).pc = m.pc := by
  unfold MemWb.ofMem; dsimp only; split_ifs <;> rfl
@[simp] theorem ofMem_instr (m : ExMem) (b : MemBus) : (MemWb.ofMem m b).instr = m.instr := by
  unfold MemWb.ofMem; dsimp only; split_ifs <;> rfl
@[simp] theorem ofMem_rd (m : ExMem) (b : MemBus) : (MemWb.ofMem m b).rd = m.rd := by
  unfold MemWb.ofMem; dsimp only; split_ifs <;> rfl
@[simp] theorem ofMem_isSerial (m : ExMem) (b : MemBus) : (MemWb.ofMem m b).isSerial = m.isSerial := by
  unfold MemWb.ofMem; dsimp only; split_ifs <;> rfl

@[simp] theorem exAdvance_valid : (exAdvance s e).valid = true := rfl
@[simp] theorem exAdvance_pc : (exAdvance s e).pc = s.id.pc := rfl
@[simp] theorem exAdvance_instr : (exAdvance s e).instr = s.id.instr := rfl

/-! ## Stages -/

/-- Fetch tracker: a request is accepted, an answer arrives, or it keeps waiting. -/
theorem fetchNext_inflight (h : (fetchNext s i).inflight = true) :
    (ifetchAccept s i = true ∧ (fetchNext s i).inflightPc = s.fetch.pc ∧ (fetchNext s i).squash = false) ∨
    (ifetchAccept s i = false ∧ s.fetch.inflight = true ∧ rspArriving s i = false ∧
      (fetchNext s i).inflightPc = s.fetch.inflightPc ∧
      (fetchNext s i).squash = (flushId s || s.fetch.squash)) := by
  by_cases ha : ifetchAccept s i = true
  · obtain ⟨hin, -, hb, hw, -, -, -⟩ := ifetchAccept_elim ha
    exact Or.inl ⟨ha, by simp [fetchNext, ha], by simp [fetchNext, ha, flushId, hb, hw]⟩
  · simp only [Bool.not_eq_true] at ha
    simp only [fetchNext, ha, Bool.false_or, Bool.and_eq_true, Bool.not_eq_true'] at h
    refine Or.inr ⟨ha, h.1, h.2, by simp [fetchNext, ha], ?_⟩
    simp only [fetchNext, ha, h.1, h.2]
    cases flushId s <;> simp

/-- ID keeps its instruction, takes an interrupt bubble or takes an answered fetch. -/
theorem idNext_valid (h : (idNext s i).valid = true) :
    flushId s = false ∧
      ((s.id.valid = true ∧ stallId s = true ∧ idNext s i = s.id) ∨
       (ifIdSlotFreeNext s = true ∧ allowIrqInject s i.ext = true ∧ idNext s i = irqBubble s i.ext) ∨
       (ifIdSlotFreeNext s = true ∧ allowIrqInject s i.ext = false ∧ rspConsumable s i = true ∧
         idNext s i = fetched s i)) := by
  unfold idNext at h ⊢
  cases hf : flushId s <;> simp only [hf, Bool.false_eq_true, ↓reduceIte] at h ⊢
  cases hs : ifIdSlotFreeNext s <;> simp only [hs, Bool.false_eq_true, ↓reduceIte] at h ⊢
  · simp only [ifIdSlotFreeNext, Bool.or_eq_false_iff, Bool.not_eq_false'] at hs
    simp [hs]
  · cases hi : allowIrqInject s i.ext <;> simp only [hi, Bool.false_eq_true, ↓reduceIte] at h ⊢
    · cases hr : rspConsumable s i <;> simp_all
    · simp

/-- EX holds, is emptied, or takes the instruction in ID. -/
theorem exNext_cases (s : State) (i : In) :
    (stallEx s = true ∧ exNext s i = s.ex) ∨
    (stallEx s = false ∧ idWillBubble s i.ext = true ∧ exNext s i = s.ex.bubble) ∨
    (s.id.valid = true ∧ stallId s = false ∧ stallEx s = false ∧ wbRedirect s = false ∧
      (allowIrqInject s i.ext = true → s.id.irq = true) ∧ exNext s i = exAdvance s i.ext) := by
  by_cases hs : stallEx s = true
  · exact Or.inl ⟨hs, by simp [exNext, hs]⟩
  simp only [Bool.not_eq_true] at hs
  by_cases hb : idWillBubble s i.ext = true
  · exact Or.inr (Or.inl ⟨hs, hb, by simp [exNext, hs, hb]⟩)
  simp only [Bool.not_eq_true] at hb
  have hx : exNext s i = exAdvance s i.ext := by simp [exNext, hs, hb]
  simp only [idWillBubble, Bool.or_eq_false_iff, Bool.and_eq_false_iff, Bool.not_eq_false'] at hb
  refine Or.inr (Or.inr ⟨hb.1.1.2, hb.1.2, hs, hb.1.1.1, fun ha => ?_, hx⟩)
  rcases hb.2 with (h | h) | h
  · simp [ha] at h
  · simp [hb.1.1.2] at h
  · exact h

/-- An instruction valid in EX after the edge was held there or came from ID. -/
theorem exNext_valid (h : (exNext s i).valid = true) :
    (stallEx s = true ∧ s.ex.valid = true ∧ exNext s i = s.ex) ∨
    (s.id.valid = true ∧ stallId s = false ∧ stallEx s = false ∧ wbRedirect s = false ∧
      (allowIrqInject s i.ext = true → s.id.irq = true) ∧ exNext s i = exAdvance s i.ext) := by
  rcases exNext_cases s i with ⟨hs, hx⟩ | ⟨-, -, hx⟩ | hx
  · exact Or.inl ⟨hs, hx ▸ h, hx⟩
  · rw [hx] at h; simp [IdEx.bubble] at h
  · exact Or.inr hx

/-- An instruction valid in MEM after the edge was held there by a stall or came from EX. -/
theorem memNext_valid (h : (memNext s i).valid = true) :
    wbRedirect s = false ∧
      ((stallMem s = true ∧ s.mem.valid = true ∧ memNext s i = memHold s i) ∨
       (stallEx s = false ∧ s.ex.valid = true ∧ memNext s i = memAdvance s)) := by
  by_cases hw : wbRedirect s = true
  · simp [memNext, hw, ExMem.bubble] at h
  simp only [Bool.not_eq_true] at hw
  refine ⟨hw, ?_⟩
  by_cases hs : stallMem s = true
  · have hm : memNext s i = memHold s i := by simp [memNext, hw, hs]
    rw [hm] at h
    exact Or.inl ⟨hs, memHold_valid ▸ h, hm⟩
  simp only [Bool.not_eq_true] at hs
  by_cases hx : stallEx s = false ∧ s.ex.valid = true
  · exact Or.inr ⟨hx.1, hx.2, by simp [memNext, hw, hs, hx.1, hx.2]⟩
  · have hb : (stallEx s || !s.ex.valid) = true := by
      cases hse : stallEx s <;> cases hv : s.ex.valid <;> simp_all
    simp [memNext, hw, hs, hb, ExMem.bubble] at h

/-- An instruction valid in WB after the edge left MEM. -/
theorem wbNext_valid (h : (wbNext s).valid = true) :
    wbRedirect s = false ∧ s.mem.valid = true ∧ stallMem s = false ∧ wbNext s = MemWb.ofMem s.mem s.bus := by
  unfold wbNext at h ⊢
  cases hw : wbRedirect s <;> simp only [hw, Bool.false_eq_true, ↓reduceIte, MemWb.bubble] at h ⊢
  cases hv : s.mem.valid <;> cases hs : stallMem s <;> simp_all [MemWb.payload]

/-- Without a redirect and without a stall the instruction in MEM enters WB. -/
theorem wbNext_of_mem (hw : wbRedirect s = false) (hv : s.mem.valid = true) (hs : stallMem s = false) :
    wbNext s = MemWb.ofMem s.mem s.bus := by
  simp [wbNext, hw, hv, hs]

/-- Without a redirect and without a stall the instruction in EX enters MEM. -/
theorem memNext_of_ex (hw : wbRedirect s = false) (hv : s.ex.valid = true) (hs : stallEx s = false) :
    memNext s i = memAdvance s := by
  simp [memNext, hw, hv, hs, stallMem_false_of_stallEx hs]

theorem memNext_of_stall (hw : wbRedirect s = false) (hs : stallMem s = true) :
    memNext s i = memHold s i := by
  simp [memNext, hw, hs]

/-! ## Empty stages -/

theorem stallMem_false_of_invalid (h : s.mem.valid = false) : stallMem s = false := by
  simp [stallMem, memBusy, memStallForIfetchDrain, memIsCsrwSatp, memIsCsrOp, h]

theorem branchRedirect_false_of_invalid (h : s.ex.valid = false) : branchRedirect s = false := by
  cases hb : branchRedirect s
  · rfl
  · rw [(branchRedirect_elim hb).1] at h; simp at h

theorem memNext_empty (hm : s.mem.valid = false) (h : stallEx s = true ∨ s.ex.valid = false) :
    (memNext s i).valid = false := by
  cases hv : (memNext s i).valid
  · rfl
  obtain ⟨-, ⟨-, hm', -⟩ | ⟨hse, hx, -⟩⟩ := memNext_valid hv
  · rw [hm] at hm'; simp at hm'
  · rcases h with h | h
    · rw [hse] at h; simp at h
    · rw [hx] at h; simp at h

theorem wbNext_empty (h : s.mem.valid = false ∨ stallMem s = true) : (wbNext s).valid = false := by
  cases hv : (wbNext s).valid
  · rfl
  obtain ⟨-, hm, hs, -⟩ := wbNext_valid hv
  rcases h with h | h
  · rw [hm] at h; simp at h
  · rw [hs] at h; simp at h

end QinglongCore.CorePipeline
