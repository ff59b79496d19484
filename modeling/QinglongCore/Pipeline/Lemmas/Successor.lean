import QinglongCore.Isa.Control
import QinglongCore.Pipeline.Lemmas.Order
import QinglongCore.Pipeline.Lemmas.Operands

/-!
# Successors in the pipeline

Behind every instruction in flight stands its successor: fetch runs straight on, and a taken branch that
leaves EX puts its target there.
-/

namespace QinglongCore.CorePipeline

variable {s : State} {i : In} {u : Uses}

/-! ## Branches -/

theorem branchTaken_eq (id : IfId) (m : Decode.Mode) (d₁ d₂ rs1 rs2 : Word)
    (h : Decode.isBranch id.instr = true) :
    (IdEx.ofId id m d₁ d₂).branchTaken rs1 rs2 = Isa.branchTaken (funct3 id.instr) rs1 rs2 := by
  have ho : opcode id.instr = OP_BRANCH := by simpa [Decode.isBranch] using h
  have ha : Decode.aluASel id.instr = 0#2 := by
    simp [Decode.aluASel, Decode.isLui, Decode.isAuipc, Decode.isJal, Decode.isJalr, ho, OP_BRANCH, OP_LUI,
      OP_AUIPC, OP_JAL, OP_JALR]
  have hb : Decode.aluBSel id.instr = 0#2 := by
    simp [Decode.aluBSel, Decode.isLui, Decode.isAuipc, Decode.isJal, Decode.isJalr, Decode.isLoad,
      Decode.isStore, Decode.isBranch, ho, OP_BRANCH, OP_LUI, OP_AUIPC, OP_JAL, OP_JALR, OP_LOAD, OP_STORE]
  simp [IdEx.branchTaken, IdEx.aluA, IdEx.aluB, IdEx.ofId, ha, hb, Isa.branchTaken, aluEq, aluLt, aluLtu, bne]

/-- A control transfer is one of branch, JAL and JALR. -/
theorem control_disjoint (w : Word) :
    (Decode.isJalr w = true → Decode.isJal w = false ∧ Decode.isBranch w = false) ∧
      (Decode.isJal w = true → Decode.isBranch w = false) := by
  constructor
  · intro h
    have ho : opcode w = OP_JALR := by simpa [Decode.isJalr] using h
    simp [Decode.isJal, Decode.isBranch, ho, OP_JALR, OP_JAL, OP_BRANCH]
  · intro h
    have ho : opcode w = OP_JAL := by simpa [Decode.isJal] using h
    simp [Decode.isBranch, ho, OP_JAL, OP_BRANCH]

/-- What EX redirects to, or that it does not redirect, agrees with the successor of its instruction. -/
theorem nextPc_of_leave (hd : s.ex.Decoded) (ht : exTrap s = false) (hse : stallEx s = false) :
    Isa.nextPc s.ex.instr s.ex.pc (exRs1Fwd s) (exRs2Fwd s) =
      if branchRedirect s then branchRedirectPc s else s.ex.pc + 4 := by
  obtain ⟨id, m, d₁, d₂, he, -⟩ := hd
  have hbr : branchRedirect s =
      (Decode.isBranch id.instr && Isa.branchTaken (funct3 id.instr) (exRs1Fwd s) (exRs2Fwd s) ||
        Decode.isJal id.instr || Decode.isJalr id.instr) := by
    cases hb : Decode.isBranch id.instr
    · simp [branchRedirect, ht, hse, he, IdEx.takeBranch, IdEx.takeJal, IdEx.takeJalr, IdEx.ofId, Ctrl.ofId, hb]
    · have hbt := branchTaken_eq id m d₁ d₂ (exRs1Fwd s) (exRs2Fwd s) hb
      rw [← he] at hbt
      simp only [branchRedirect, ht, hse, IdEx.takeBranch, IdEx.takeJal, IdEx.takeJalr, hbt]
      simp [he, IdEx.ofId, Ctrl.ofId, hb]
  obtain ⟨hjr, hj⟩ := control_disjoint id.instr
  have hpc : branchRedirectPc s =
      if Decode.isJalr id.instr then (exRs1Fwd s + Decode.imm id.instr) &&& ~~~1#32
      else id.pc + Decode.imm id.instr := by
    simp [branchRedirectPc, IdEx.takeJal, IdEx.takeJalr, IdEx.jalrTarget, IdEx.jalTarget, IdEx.branchTarget,
      he, IdEx.ofId, Ctrl.ofId]
  rw [hbr, hpc, Isa.nextPc, he]
  cases hr : Decode.isJalr id.instr <;> cases hl : Decode.isJal id.instr <;>
    simp [IdEx.ofId, hr, hl]

theorem nextPc_of_isDiv {w : Word} (h : Decode.isDiv w = true) (pc rs1 rs2 : Word) :
    Isa.nextPc w pc rs1 rs2 = pc + 4 := by
  have ho := Decode.opcode_of_isDiv h
  simp [Isa.nextPc, Decode.isJalr, Decode.isJal, Decode.isBranch, ho, OP_OP, OP_JAL, OP_JALR, OP_BRANCH]

/-! ## The invariant -/

structure Chained (s : State) (u : Uses) : Prop where
  fetch : s.fetch.inflight = true → s.fetch.squash = false → s.fetch.pc = s.fetch.inflightPc + 4
  id : s.id.valid = true → s.id.irq = false → s.fetch.pc = s.id.pc + 4
  ex : s.ex.valid = true → s.ex.ctrl.irq = false → afterEx s = s.ex.pc + 4
  mem : s.mem.valid = true → s.mem.trap = false →
    afterMem s = Isa.nextPc s.mem.instr s.mem.pc u.mem.1 u.mem.2
  wb : s.wb.valid = true → s.wb.trap = false → behindPc s = Isa.nextPc s.wb.instr s.wb.pc u.wb.1 u.wb.2

theorem chained_reset (pc : Word) (regs : RegFile) (u : Uses) : Chained (reset pc regs) u := by
  constructor <;> simp [reset]

theorem Drained.chained (h : Drained s) : Chained s u where
  fetch hf hq := by simp [h.fetch hf] at hq
  id hv := by simp [h.id] at hv
  ex hv := by simp [h.ex] at hv
  mem hv := by simp [h.mem] at hv
  wb hv := by simp [h.wb] at hv

/-- Without an accepted request and a redirect the fetch pc stays. -/
theorem fetchNext_pc_keep (hf : flushId s = false) (ha : ifetchAccept s i = false) :
    (fetchNext s i).pc = s.fetch.pc := by
  simp only [flushId, Bool.or_eq_false_iff] at hf
  simp [fetchNext, hf, ha]

theorem ifetchAccept_false_of_inflight (h : s.fetch.inflight = true) : ifetchAccept s i = false := by
  simp [ifetchAccept, ifetchReqValid, ifCanIssue, h]

/-- A DIV/REM word in EX redirects nothing. -/
theorem Spaced.branchRedirect_of_id (h : Spaced s) (hid : s.id.valid = true) : branchRedirect s = false := by
  cases hb : branchRedirect s
  · rfl
  obtain ⟨hx, hc, -, -⟩ := branchRedirect_elim hb
  have hd := h.ex_id hx hid
  obtain ⟨id, m, d₁, d₂, he, -⟩ := h.ex_decoded hx
  rw [he] at hd hc
  have ho : opcode id.instr = OP_OP := Decode.opcode_of_isDiv hd
  simp [IdEx.ofId, Ctrl.ofId, Decode.isBranch, Decode.isJal, Decode.isJalr, ho, OP_OP, OP_JAL, OP_JALR,
    OP_BRANCH] at hc

theorem exTrap_of_irq (hv : s.ex.valid = true) (h : s.ex.ctrl.irq = true) : exTrap s = true := by
  simp [exTrap, exTrapInfo, IdEx.trapInfo, hv, h]

theorem chained_step (hsp : Spaced s) (h : Chained s u) (hw : wbRedirect s = false) (i : In) :
    Chained (step s i) (u.step s) where
  fetch hin hq := by
    rw [step_fetch]
    rcases fetchNext_inflight hin with ⟨ha, hpc, -⟩ | ⟨ha, hin, -, hpc, hs⟩
    · obtain ⟨-, -, hb, -⟩ := ifetchAccept_elim ha
      rw [hpc]; simp [fetchNext, hw, hb, ha]
    · have hq' : (fetchNext s i).squash = false := hq
      simp only [hs, Bool.or_eq_false_iff] at hq'
      rw [hpc, fetchNext_pc_keep hq'.1 ha]
      exact h.fetch hin hq'.2
  id hv hq := by
    rw [step_fetch, step_id]
    obtain ⟨hf, ⟨hid, hst, he⟩ | ⟨-, -, he⟩ | ⟨-, -, hr, he⟩⟩ := idNext_valid hv
    · have ha : ifetchAccept s i = false := by
        simp [ifetchAccept, ifetchReqValid, ifCanIssue, ifIdSlotFreeNext, hid, hst]
      have hq' : (idNext s i).irq = false := hq
      rw [he] at hq' ⊢
      rw [fetchNext_pc_keep hf ha]
      exact h.id hid hq'
    · have hq' : (idNext s i).irq = false := hq
      rw [he] at hq'; simp [irqBubble] at hq'
    · simp only [rspConsumable, rspArriving, Bool.and_eq_true, Bool.not_eq_true'] at hr
      rw [he, fetchNext_pc_keep hf (ifetchAccept_false_of_inflight hr.1.1)]
      exact h.fetch hr.1.1 hr.2
  ex hv hq := by
    rcases exNext_valid hv with ⟨hst, hx, -⟩ | ⟨hid, hs, -, -, hirq, he⟩
    · have hb : branchRedirect s = false := by simp [branchRedirect, hst]
      have hq' : s.ex.ctrl.irq = false := by rw [exNext_of_stall hst] at hq; exact hq
      rw [exNext_of_stall hst, afterEx_step (by simp [flushId, hw, hb]) fun _ => Or.inl (by simp [stallId, hst])]
      exact h.ex hx hq'
    · -- the instruction leaves ID empty, with nothing in flight
      have hb := hsp.branchRedirect_of_id hid
      have hin : s.fetch.inflight = false := by
        cases hin : s.fetch.inflight
        · rfl
        · rw [hsp.fetch_id hin] at hid; simp at hid
      have hq' : s.id.irq = false := by
        have hq' : (exNext s i).ctrl.irq = false := hq
        rw [he] at hq'; exact hq'
      have hidn := hsp.idNext_of_advance hid hs hirq
      show (if (idNext s i).valid then (idNext s i).pc
        else if (fetchNext s i).inflight && !(fetchNext s i).squash then (fetchNext s i).inflightPc
        else (fetchNext s i).pc) = (exNext s i).pc + 4
      rw [he, exAdvance_pc, ← h.id hid hq', hidn]
      cases ha : ifetchAccept s i <;> simp [fetchNext, flushId, hw, hb, ha, hin]
  mem hv ht := by
    rw [step_mem]
    have ht' : (memNext s i).trap = false := ht
    obtain ⟨-, ⟨hst, hm, he⟩ | ⟨hse, hx, he⟩⟩ := memNext_valid hv
    · rw [he, memHold_trap] at ht'
      rw [he, memHold_instr, memHold_pc, afterMem_step_of_stall hw (stallEx_of_stallMem hst)]
      simp only [Uses.step, hst, ↓reduceIte]
      exact h.mem hm ht'
    · rw [he, memAdvance_trap] at ht'
      have hnext : Isa.nextPc s.ex.instr s.ex.pc (u.step s).mem.1 (u.step s).mem.2 =
          Isa.nextPc s.ex.instr s.ex.pc (exRs1Fwd s) (exRs2Fwd s) := by
        cases hd : s.ex.ctrl.isDiv
        · simp [Uses.step, stallMem_false_of_stallEx hse, hd]
        · have hdiv : Decode.isDiv s.ex.instr = true := by rw [← (hsp.ex_decoded hx).isDiv]; exact hd
          rw [nextPc_of_isDiv hdiv, nextPc_of_isDiv hdiv]
      rw [he, memAdvance_instr, memAdvance_pc, hnext, nextPc_of_leave (hsp.ex_decoded hx) ht' hse]
      cases hb : branchRedirect s
      · have hirq : s.ex.ctrl.irq = false := by
          cases hq : s.ex.ctrl.irq
          · rfl
          · rw [exTrap_of_irq hx hq] at ht'; simp at ht'
        rw [afterMem_step hw hb hse, h.ex hx hirq]; simp
      · -- the target is fetched next; everything younger is flushed
        have hid : s.id.valid = false := by
          cases hid : s.id.valid
          · rfl
          · rw [hsp.branchRedirect_of_id hid] at hb; simp at hb
        have hex : (step s i).ex.valid = false := by
          rw [step_ex]
          simp [exNext, hse, idWillBubble, hid, IdEx.bubble]
        have hidn : (step s i).id.valid = false := by
          rw [step_id]
          simp [idNext, flushId, hb]
        have hfl : ((step s i).fetch.inflight && !(step s i).fetch.squash) = false := by
          cases hin : (step s i).fetch.inflight
          · rfl
          · rcases fetchNext_inflight hin with ⟨ha, -⟩ | ⟨-, -, -, -, hs⟩
            · simp [(ifetchAccept_elim ha).2.2.1] at hb
            · have hs' : (step s i).fetch.squash = (flushId s || s.fetch.squash) := hs
              simp [hs', flushId, hb]
        simp only [afterMem, afterEx, hex, hidn, hfl, Bool.false_eq_true, ↓reduceIte]
        rw [step_fetch]
        simp [fetchNext, hw, hb]
  wb hv ht := by
    rw [step_wb]
    obtain ⟨-, hm, hsm, he⟩ := wbNext_valid hv
    have htr : s.mem.trap = false := by
      cases htr : s.mem.trap
      · rfl
      · have ht' : (wbNext s).trap = false := ht
        rw [he, (hsp.mem_origin hm).ofMem_trap s.bus htr] at ht'; simp at ht'
    rw [he, ofMem_instr, ofMem_pc, behindPc_step hw hsm]
    exact h.mem hm htr

end QinglongCore.CorePipeline
