import QinglongCore.Pipeline.Lemmas.Steps

/-!
# Spacing of the instructions in the pipeline

The fetch unit has one request in flight and a full ID slot holds it back, so two neighbouring stages
are both occupied only behind a DIV/REM word, which is what keeps EX and lets ID fill up. The same
induction carries where the contents of EX and MEM come from.
-/

namespace QinglongCore

/-! ## Opcodes of the decoded classes -/

namespace Decode

variable {w : Word}

theorem opcode_of_isDiv (h : isDiv w = true) : opcode w = OP_OP := by
  simp only [isDiv, isMuldiv, isOp, Bool.and_eq_true, beq_iff_eq] at h; exact h.1.1

/-- A DIV/REM word makes no bus access. -/
theorem not_bus_of_isDiv (h : isDiv w = true) :
    isLoad w = false ∧ isStore w = false ∧ isLr w = false ∧ isSc w = false ∧ isAmoRmw w = false := by
  have ho := opcode_of_isDiv h
  simp [isLoad, isStore, isLr, isSc, isAmoRmw, isAmoW, isAmo, ho, OP_OP, OP_LOAD, OP_STORE, OP_AMO]

end Decode

namespace CorePipeline

variable {s : State} {i : In} {e : Ext}

/-! ## Where the contents of EX and MEM come from -/

/-- The register is what the decoder made of some word in ID; an interrupt bubble carries the word 0. -/
def IdEx.Decoded (ex : IdEx) : Prop :=
  ∃ id m d₁ d₂, ex = IdEx.ofId id m d₁ d₂ ∧ (id.irq = true → id.instr = 0#32)

theorem IdEx.ofId_decoded {id : IfId} (h : id.irq = true → id.instr = 0#32) (m : Decode.Mode)
    (d₁ d₂ : Word) : (IdEx.ofId id m d₁ d₂).Decoded :=
  ⟨id, m, d₁, d₂, rfl, h⟩

theorem IdEx.Decoded.isDiv {ex : IdEx} (h : ex.Decoded) : ex.ctrl.isDiv = Decode.isDiv ex.instr := by
  obtain ⟨id, m, d₁, d₂, rfl, -⟩ := h; rfl

theorem IdEx.Decoded.isSerial {ex : IdEx} (h : ex.Decoded) :
    ex.ctrl.isSerial = Decode.isSerial ex.instr := by
  obtain ⟨id, m, d₁, d₂, rfl, -⟩ := h; rfl

/-- An access that did not trap in EX has an address of its size. -/
theorem IdEx.aligned_of_no_trap {ex : IdEx} {rs1 rs2 : Word} {p : BitVec 2} (hv : ex.valid = true)
    (ht : ex.trapInfo rs1 rs2 p = none)
    (ha : (ex.ctrl.isLoad || ex.ctrl.isStore || ex.ctrl.isLr || ex.ctrl.isSc || ex.ctrl.isAmoRmw) = true) :
    ex.lsMisaligned rs1 = false := by
  cases hm : ex.lsMisaligned rs1
  · rfl
  · simp only [IdEx.trapInfo, hv, hm] at ht
    grind

/-- The register left EX with some operands; since then at most its bus access has moved on. -/
def ExMem.FromEx (m : ExMem) : Prop :=
  ∃ ex rs1 rs2 dv p hit ph ls, IdEx.Decoded ex ∧ ex.valid = true ∧
    m = { ExMem.ofEx ex rs1 rs2 dv (ex.trapInfo rs1 rs2 p) hit with amoPhase := ph, lsPending := ls } ∧
    (ls = true → (ExMem.ofEx ex rs1 rs2 dv (ex.trapInfo rs1 rs2 p) hit).lsPending = true)

theorem memAdvance_fromEx (hd : s.ex.Decoded) (hv : s.ex.valid = true) : (memAdvance s).FromEx :=
  ⟨s.ex, _, _, _, _, _, false, (memAdvance s).lsPending, hd, hv, rfl, id⟩

theorem memHold_fromEx (h : s.mem.FromEx) : (memHold s i).FromEx := by
  obtain ⟨ex, rs1, rs2, dv, p, hit, ph, ls, hd, hv, hm, hl⟩ := h
  unfold memHold
  split
  · split
    · exact ⟨ex, rs1, rs2, dv, p, hit, true, ls, hd, hv, by rw [hm], hl⟩
    · exact ⟨ex, rs1, rs2, dv, p, hit, ph, false, hd, hv, by rw [hm], by simp⟩
  · exact ⟨ex, rs1, rs2, dv, p, hit, ph, ls, hd, hv, hm, hl⟩

/-- Only a load, a store or an atomic waits for the data bus. -/
theorem ExMem.FromEx.hasBusOp {m : ExMem} (h : m.FromEx) (hl : m.lsPending = true) : m.hasBusOp = true := by
  obtain ⟨ex, rs1, rs2, dv, p, hit, ph, ls, hd, hv, rfl, hls⟩ := h
  have := hls hl
  simp only [ExMem.ofEx, Bool.and_eq_true, Bool.or_eq_true] at this
  simp only [ExMem.hasBusOp, ExMem.ofEx, Bool.or_eq_true, Bool.and_eq_true]
  grind

/-- An instruction that trapped in EX makes no bus access. -/
theorem ExMem.FromEx.trap_no_bus {m : ExMem} (h : m.FromEx) (ht : m.trap = true) : m.hasBusOp = false := by
  obtain ⟨ex, rs1, rs2, dv, p, hit, ph, ls, hd, hv, rfl, hls⟩ := h
  simp only [ExMem.ofEx] at ht
  simp [ExMem.hasBusOp, ExMem.ofEx, ht]

theorem ExMem.FromEx.div_no_bus {m : ExMem} (h : m.FromEx) (hdiv : Decode.isDiv m.instr = true) :
    m.hasBusOp = false := by
  obtain ⟨ex, rs1, rs2, dv, p, hit, ph, ls, ⟨id, md, d₁, d₂, rfl, -⟩, hv, rfl, hls⟩ := h
  have hb := Decode.not_bus_of_isDiv hdiv
  simp only [ExMem.ofEx, IdEx.ofId] at hb
  simp [ExMem.hasBusOp, ExMem.ofEx, IdEx.ofId, Ctrl.ofId, hb]

theorem ExMem.FromEx.isSerial_eq {m : ExMem} (h : m.FromEx) : m.isSerial = Decode.isSerial m.instr := by
  obtain ⟨ex, rs1, rs2, dv, p, hit, ph, ls, hd, hv, rfl, hls⟩ := h
  exact hd.isSerial

/-- The exceptions raised in EX have small causes. -/
theorem IdEx.trapInfo_cause {ex : IdEx} {rs1 rs2 c v : Word} {p : BitVec 2} (h : ex.ctrl.irq = false)
    (ht : ex.trapInfo rs1 rs2 p = some (c, v)) : c.msb = false := by
  have hset : c ∈ [CAUSE_INSN_PAGE_FAULT, CAUSE_INSN_ACCESS_FAULT, CAUSE_ILLEGAL_INSN, CAUSE_ECALL_FROM_U,
      CAUSE_ECALL_FROM_S, CAUSE_ECALL_FROM_M, CAUSE_BREAKPOINT, CAUSE_INSN_ADDR_MISALIGNED,
      CAUSE_LOAD_ADDR_MISALIGNED, CAUSE_STORE_ADDR_MISALIGNED] := by
    simp only [trapInfo, h, Bool.false_eq_true, ↓reduceIte] at ht
    split at ht
    · simp at ht
    split at ht
    · simp only [Option.some.injEq, Prod.mk.injEq] at ht; simp [← ht.1]
    split at ht
    · simp only [Option.some.injEq, Prod.mk.injEq] at ht; simp [← ht.1]
    split at ht
    · simp only [Option.some.injEq, Prod.mk.injEq] at ht; simp [← ht.1]
    split at ht
    · simp only [Option.some.injEq, Prod.mk.injEq] at ht
      rw [← ht.1]; split_ifs <;> simp
    split at ht
    · simp only [Option.some.injEq, Prod.mk.injEq] at ht; simp [← ht.1]
    split at ht
    · simp only [Option.some.injEq, Prod.mk.injEq] at ht; simp [← ht.1]
    split at ht
    · simp only [Option.some.injEq, Prod.mk.injEq] at ht; simp [← ht.1]
    split at ht
    · simp only [Option.some.injEq, Prod.mk.injEq] at ht; simp [← ht.1]
    · simp at ht
  revert hset
  simp only [List.mem_cons, List.not_mem_nil, or_false]
  rintro (rfl | rfl | rfl | rfl | rfl | rfl | rfl | rfl | rfl | rfl) <;> decide

/-- Only an interrupt bubble leaves EX with a trap whose cause has the top bit set. -/
theorem ExMem.FromEx.irq_instr {m : ExMem} (h : m.FromEx) (ht : m.trap = true) (hc : m.cause.msb = true) :
    m.instr = 0#32 := by
  obtain ⟨ex, rs1, rs2, dv, p, hit, ph, ls, ⟨id, md, d₁, d₂, rfl, hirq⟩, hv, rfl, hls⟩ := h
  refine hirq ?_
  by_contra hn
  simp only [ExMem.ofEx, Option.isSome_iff_exists, Prod.exists] at ht
  obtain ⟨c, v, ht⟩ := ht
  have hm := IdEx.trapInfo_cause (by simpa [IdEx.ofId, Ctrl.ofId] using hn) ht
  simp only [ExMem.ofEx, ht, Option.map_some, Option.getD_some] at hc
  rw [hm] at hc; simp at hc

/-- The register left MEM with what its bus access had left behind. -/
def MemWb.FromMem (w : MemWb) : Prop := ∃ m b, ExMem.FromEx m ∧ m.valid = true ∧ w = MemWb.ofMem m b

/-! ## The invariant -/

structure Spaced (s : State) : Prop where
  irq_instr : s.id.irq = true → s.id.instr = 0#32
  ex_decoded : s.ex.valid = true → s.ex.Decoded
  mem_origin : s.mem.valid = true → s.mem.FromEx
  wb_origin : s.wb.valid = true → s.wb.FromMem
  fetch_id : s.fetch.inflight = true → s.id.valid = false
  ex_id : s.ex.valid = true → s.id.valid = true → s.ex.ctrl.isDiv = true
  ex_mem : s.ex.valid = true → s.mem.valid = true → Decode.isDiv s.mem.instr = true
  ex_mem_fresh : s.ex.valid = true → s.mem.valid = true →
    s.div.started = false ∧ s.div.doneLatched = false
  mem_wb : s.mem.valid = true → s.wb.valid = true → Decode.isDiv s.wb.instr = true
  not_three : s.ex.valid = true → s.mem.valid = true → s.wb.valid = false
  fired_busy : s.bus.reqFired = true → memBusy s = true
  unfired_behind_wb : s.mem.valid = true → s.wb.valid = true → s.bus.reqFired = false

theorem spaced_reset (pc : Word) (regs : RegFile) : Spaced (reset pc regs) := by
  constructor <;> simp [reset]

/-- A DIV/REM word passes MEM without a stall. -/
theorem Spaced.stallMem_of_div (h : Spaced s) (hv : s.mem.valid = true)
    (hd : Decode.isDiv s.mem.instr = true) : stallMem s = false := by
  have hb := (h.mem_origin hv).div_no_bus hd
  have hl : s.mem.lsPending = false := by
    cases hl : s.mem.lsPending
    · rfl
    · rw [(h.mem_origin hv).hasBusOp hl] at hb; exact absurd hb (by simp)
  have ho : (opcode s.mem.instr == OP_SYSTEM) = false := by
    rw [Decode.opcode_of_isDiv hd]; decide
  simp [stallMem, memBusy, memStallForIfetchDrain, memIsCsrwSatp, memIsCsrOp, hl, ho]

/-- MEM never stalls while EX is occupied. -/
theorem Spaced.stallMem_of_ex (h : Spaced s) (hv : s.ex.valid = true) : stallMem s = false := by
  cases hm : s.mem.valid
  · simp [stallMem, memBusy, memStallForIfetchDrain, memIsCsrwSatp, memIsCsrOp, hm]
  · exact h.stallMem_of_div hm (h.ex_mem hv hm)

/-- What stalls an occupied EX is the divider. -/
theorem Spaced.stallEx_of_ex (h : Spaced s) (hv : s.ex.valid = true) : stallEx s = exDivStall s := by
  simp [stallEx, h.stallMem_of_ex hv]

/-- While EX is occupied no data request is outstanding. -/
theorem Spaced.unfired_of_ex (h : Spaced s) (hv : s.ex.valid = true) : s.bus.reqFired = false := by
  cases hf : s.bus.reqFired
  · rfl
  · have hs : stallMem s = true := by simp [stallMem, h.fired_busy hf]
    rw [h.stallMem_of_ex hv] at hs; simp at hs

theorem exDivStall_elim (h : exDivStall s = true) :
    s.ex.valid = true ∧ s.ex.ctrl.isDiv = true ∧ s.div.doneLatched = false := by
  simpa [exDivStall, and_assoc] using h

/-- The instruction in ID leaves an empty slot behind it. -/
theorem Spaced.idNext_of_advance (h : Spaced s) (hv : s.id.valid = true) (hs : stallId s = false)
    (ha : allowIrqInject s i.ext = true → s.id.irq = true) : (idNext s i).valid = false := by
  cases hn : (idNext s i).valid
  · rfl
  obtain ⟨-, ⟨-, hst, -⟩ | ⟨-, hirq, -⟩ | ⟨-, -, hr, -⟩⟩ := idNext_valid hn
  · simp [hs] at hst
  · have := ha hirq
    simp [(allowIrqInject_elim hirq).2.2.2.2.2.2] at this
  · simp only [rspConsumable, rspArriving, Bool.and_eq_true] at hr
    simp [h.fetch_id hr.1.1] at hv

theorem spaced_step (h : Spaced s) (i : In) : Spaced (step s i) where
  irq_instr hq := by
    have hq' : (idNext s i).irq = true := hq
    rw [step_id]
    unfold idNext at hq' ⊢
    split_ifs at hq' ⊢ <;> simp_all [irqBubble, fetched, h.irq_instr]
  ex_decoded hv := by
    rcases exNext_valid hv with ⟨-, hx, he⟩ | ⟨-, -, -, -, -, he⟩
    · rw [step_ex]
      rw [he]; exact h.ex_decoded hx
    · rw [step_ex]
      rw [he]; exact IdEx.ofId_decoded h.irq_instr _ _ _
  mem_origin hv := by
    rw [step_mem]
    obtain ⟨-, ⟨-, hm, he⟩ | ⟨-, hx, he⟩⟩ := memNext_valid hv
    · rw [he]; exact memHold_fromEx (h.mem_origin hm)
    · rw [he]; exact memAdvance_fromEx (h.ex_decoded hx) hx
  wb_origin hv := by
    obtain ⟨-, hm, -, he⟩ := wbNext_valid hv
    exact ⟨s.mem, s.bus, h.mem_origin hm, hm, he⟩
  fetch_id hf := by
    rw [step_id]
    cases hn : (idNext s i).valid
    · rfl
    obtain ⟨hfl, hid⟩ := idNext_valid hn
    rcases fetchNext_inflight hf with ⟨ha, -, -⟩ | ⟨-, hin, hr, -, -⟩
    · obtain ⟨hin, hfree, -, -, -, hirq, -⟩ := ifetchAccept_elim ha
      rcases hid with ⟨hv, hst, -⟩ | ⟨-, hi, -⟩ | ⟨-, -, hr, -⟩
      · simp [ifIdSlotFreeNext, hv, hst] at hfree
      · simp [hirq] at hi
      · simp [rspConsumable, rspArriving, hin] at hr
    · rcases hid with ⟨hv, -, -⟩ | ⟨-, hi, -⟩ | ⟨-, -, hc, -⟩
      · simp [h.fetch_id hin] at hv
      · simp [(allowIrqInject_elim hi).2.2.2.2.1] at hin
      · simp [rspConsumable, hr] at hc
  ex_id hv hn := by
    rw [step_ex]
    rcases exNext_valid hv with ⟨hst, hx, he⟩ | ⟨hid, hs, -, -, ha, -⟩
    · rw [he]
      rw [h.stallEx_of_ex hx] at hst
      exact (exDivStall_elim hst).2.1
    · have hn' : (idNext s i).valid = true := hn
      rw [h.idNext_of_advance hid hs ha] at hn'; simp at hn'
  ex_mem hv hm := by
    rw [step_mem]
    obtain ⟨-, ⟨hst, hmv, he⟩ | ⟨hst, hx, he⟩⟩ := memNext_valid hm
    · rcases exNext_valid hv with ⟨-, hx, -⟩ | ⟨-, -, hse, -⟩
      · rw [h.stallMem_of_ex hx] at hst; simp at hst
      · rw [stallEx_of_stallMem hst] at hse; simp at hse
    · rcases exNext_valid hv with ⟨hse, -, -⟩ | ⟨hid, -, -, -, -, -⟩
      · rw [hst] at hse; simp at hse
      · rw [he, memAdvance_instr, ← (h.ex_decoded hx).isDiv]
        exact h.ex_id hx hid
  ex_mem_fresh hv hm := by
    rw [step_div]
    obtain ⟨-, ⟨hst, hmv, -⟩ | ⟨hst, hx, -⟩⟩ := memNext_valid hm
    · rcases exNext_valid hv with ⟨-, hx, -⟩ | ⟨-, -, hse, -⟩
      · rw [h.stallMem_of_ex hx] at hst; simp at hst
      · rw [stallEx_of_stallMem hst] at hse; simp at hse
    · rcases exNext_valid hv with ⟨hse, -, -⟩ | ⟨hid, -, -, -, -, -⟩
      · rw [hst] at hse; simp at hse
      · -- the DIV that leaves EX clears its flags
        have hd := h.ex_id hx hid
        have hl : s.div.doneLatched = true := by
          rw [h.stallEx_of_ex hx] at hst
          simpa [exDivStall, hx, hd] using hst
        simp [divNext, hst, hx, hd, hl]
  mem_wb hm hw := by
    rw [step_wb]
    obtain ⟨-, hmv, hsm, he⟩ := wbNext_valid hw
    obtain ⟨-, ⟨hst, -, -⟩ | ⟨-, hx, -⟩⟩ := memNext_valid hm
    · rw [hsm] at hst; simp at hst
    · rw [he, ofMem_instr]; exact h.ex_mem hx hmv
  not_three hv hm := by
    rw [step_wb]
    cases hw : (wbNext s).valid
    · rfl
    obtain ⟨-, hmv, hsm, -⟩ := wbNext_valid hw
    obtain ⟨-, ⟨hst, -, -⟩ | ⟨hst, hx, -⟩⟩ := memNext_valid hm
    · rw [hsm] at hst; simp at hst
    · -- a DIV behind another DIV has not even started, so it cannot leave EX
      rcases exNext_valid hv with ⟨hse, -, -⟩ | ⟨hid, -, -, -, -, -⟩
      · rw [hst] at hse; simp at hse
      · rw [h.stallEx_of_ex hx] at hst
        simp [exDivStall, hx, h.ex_id hx hid, (h.ex_mem_fresh hx hmv).2] at hst

  fired_busy hf := by
    show memBusy (step s i) = true
    have hfired : (busNext s i).reqFired = true := hf
    simp only [busNext] at hfired
    cases hw : wbRedirect s <;> simp only [hw, Bool.false_eq_true, ↓reduceIte] at hfired
    cases hr : memRspThisCycle s i <;> simp only [hr, Bool.false_eq_true, ↓reduceIte] at hfired
    have hb : memBusy s = true := by
      cases ha : dmemAccept s i <;> simp only [ha, Bool.false_eq_true, ↓reduceIte] at hfired
      · exact h.fired_busy hfired
      · simp only [dmemAccept, dmemReqValid, Bool.and_eq_true] at ha
        simp [memBusy, ha.1.1.1.1, ha.1.1.2]
    have he : memNext s i = s.mem := by
      rw [memNext_of_stall hw (by simp [stallMem, hb])]; simp [memHold, hr]
    change ((memNext s i).valid && (memNext s i).lsPending) = true
    rw [he]; exact hb
  unfired_behind_wb hm hw := by
    rw [step_bus]
    obtain ⟨hr, hmv, hsm, -⟩ := wbNext_valid hw
    obtain ⟨-, ⟨hst, -, -⟩ | ⟨-, hx, -⟩⟩ := memNext_valid hm
    · rw [hsm] at hst; simp at hst
    · -- what leaves MEM ahead of an occupied EX is a DIV, which drives no request
      have hacc : dmemAccept s i = false := by
        simp [dmemAccept, dmemReqValid, memHasBusOp, (h.mem_origin hmv).div_no_bus (h.ex_mem hx hmv)]
      simp [busNext, hr, hacc, h.unfired_of_ex hx]

variable {pc : Word} {regs : RegFile} {inp : Nat → In}

theorem spaced_run (t : Nat) : Spaced (run pc regs inp t) :=
  Sync.run_invariant (spaced_reset pc regs) (fun _ i h => spaced_step h i) t

/-! ## What can sit beside a retiring instruction -/

/-- Behind an instruction in WB that is no DIV/REM word, MEM is empty. -/
theorem Spaced.mem_empty (h : Spaced s) (hw : s.wb.valid = true) (hd : Decode.isDiv s.wb.instr = false) :
    s.mem.valid = false := by
  cases hm : s.mem.valid
  · rfl
  · rw [h.mem_wb hm hw] at hd; simp at hd

end CorePipeline

end QinglongCore
