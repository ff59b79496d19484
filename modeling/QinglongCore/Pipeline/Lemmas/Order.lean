import QinglongCore.Pipeline.Lemmas.Spacing

/-!
# The order of the instructions in flight

The pcs of the instructions behind each stage, and how they move up. Only a redirect changes the order.
-/

namespace QinglongCore.CorePipeline

variable {s : State} {i : In} {e : Ext}

/-- The pc behind EX: of the instruction in ID, of the fetch in flight, or the one fetched next. -/
def afterEx (s : State) : Word :=
  if s.id.valid then s.id.pc
  else if s.fetch.inflight && !s.fetch.squash then s.fetch.inflightPc
  else s.fetch.pc

/-- The pc of the oldest instruction behind MEM. -/
def afterMem (s : State) : Word := if s.ex.valid then s.ex.pc else afterEx s

/-- The pc of the oldest instruction behind WB. -/
def behindPc (s : State) : Word := if s.mem.valid then s.mem.pc else afterMem s

/-- The pc of the oldest instruction, the one that retires next. -/
def headPc (s : State) : Word := if s.wb.valid then s.wb.pc else behindPc s

theorem headPc_of_wb (h : s.wb.valid = true) : headPc s = s.wb.pc := by simp [headPc, h]

theorem headPc_of_no_wb (h : s.wb.valid = false) : headPc s = behindPc s := by simp [headPc, h]

/-! ## One clock edge without a redirect -/

/-- What is behind EX stays in order while ID keeps its instruction. -/
theorem afterEx_step (hf : flushId s = false)
    (hid : s.id.valid = true → stallId s = true ∨ allowIrqInject s i.ext = true) :
    afterEx (step s i) = afterEx s := by
  show (if (idNext s i).valid then (idNext s i).pc
    else if (fetchNext s i).inflight && !(fetchNext s i).squash then (fetchNext s i).inflightPc
    else (fetchNext s i).pc) = _
  have hfl := hf
  simp only [flushId, Bool.or_eq_false_iff] at hfl
  cases hirq : allowIrqInject s i.ext
  · cases hv : s.id.valid
    · -- the slot is empty, so fetch alone decides
      cases hin : s.fetch.inflight
      · have hr : rspConsumable s i = false := by simp [rspConsumable, rspArriving, hin]
        cases ha : ifetchAccept s i <;>
          simp [idNext, fetchNext, ifIdSlotFreeNext, afterEx, hf, hfl, hv, hirq, hr, ha, hin]
      · have ha : ifetchAccept s i = false := by simp [ifetchAccept, ifetchReqValid, ifCanIssue, hin]
        cases hsq : s.fetch.squash <;> cases hr : i.ifetchRspValid <;>
          simp [idNext, fetchNext, ifIdSlotFreeNext, afterEx, fetched, rspConsumable, rspArriving,
            hf, hfl, hv, hirq, hr, hsq, ha, hin]
    · have hst : stallId s = true := by simpa [hirq] using hid hv
      simp [idNext, ifIdSlotFreeNext, afterEx, hf, hv, hst]
  · -- the interrupt bubble takes over the pc behind EX
    obtain ⟨-, hx, hm, hw, hin, -, -⟩ := allowIrqInject_elim hirq
    have hslot : ifIdSlotFreeNext s = true := by simp [ifIdSlotFreeNext, stallId_of_idle hx hm hw]
    simp [idNext, afterEx, irqBubble, hf, hslot, hirq, hin]

/-- An EX stage that is free takes the oldest instruction behind it, or stays empty in front of it. -/
theorem afterMem_step (hw : wbRedirect s = false) (hb : branchRedirect s = false) (hse : stallEx s = false) :
    afterMem (step s i) = afterEx s := by
  have hf : flushId s = false := by simp [flushId, hw, hb]
  show (if (exNext s i).valid then (exNext s i).pc else afterEx (step s i)) = _
  rcases exNext_cases s i with ⟨hst, -⟩ | ⟨-, hbub, he⟩ | ⟨hid, -, -, -, -, he⟩
  · rw [hse] at hst; simp at hst
  · have hv : (exNext s i).valid = false := by rw [he]; rfl
    rw [hv, if_neg (by simp)]
    refine afterEx_step hf fun hid => ?_
    simp only [idWillBubble, hw, hid, Bool.or_eq_true, Bool.and_eq_true] at hbub
    rcases hbub with (h | h) | h
    · simp at h
    · exact Or.inl h
    · exact Or.inr h.1.1
  · rw [he]; simp [afterEx, hid]

/-- A held EX keeps the order behind MEM. -/
theorem afterMem_step_of_stall (hw : wbRedirect s = false) (hst : stallEx s = true) :
    afterMem (step s i) = afterMem s := by
  have hb : branchRedirect s = false := by simp [branchRedirect, hst]
  have he : exNext s i = s.ex := by simp [exNext, hst]
  show (if (exNext s i).valid then (exNext s i).pc else afterEx (step s i)) = _
  have hid : stallId s = true := by simp [stallId, hst]
  rw [he, afterEx_step (by simp [flushId, hw, hb]) fun _ => Or.inl hid, afterMem]

/-- A MEM stage that is free takes the oldest instruction behind it, or stays empty in front of it. -/
theorem behindPc_step (hw : wbRedirect s = false) (hsm : stallMem s = false) :
    behindPc (step s i) = afterMem s := by
  show (if (memNext s i).valid then (memNext s i).pc else afterMem (step s i)) = _
  cases hst : stallEx s
  · cases hx : s.ex.valid
    · have hm : (memNext s i).valid = false := by simp [memNext, hw, hsm, hx, ExMem.bubble]
      rw [hm, if_neg (by simp), afterMem_step hw (branchRedirect_false_of_invalid hx) hst]
      simp [afterMem, hx]
    · rw [memNext_of_ex hw hx hst]
      simp [afterMem, hx]
  · have hm : (memNext s i).valid = false := by simp [memNext, hw, hsm, hst, ExMem.bubble]
    rw [hm, if_neg (by simp), afterMem_step_of_stall hw hst]

/-- Without a redirect the oldest instruction behind WB is the one that retires next. -/
theorem headPc_step (hw : wbRedirect s = false) (i : In) : headPc (step s i) = behindPc s := by
  cases hm : s.mem.valid
  · have hwb : (step s i).wb.valid = false := wbNext_empty (Or.inl hm)
    rw [headPc_of_no_wb hwb, behindPc_step hw (stallMem_false_of_invalid hm)]
    simp [behindPc, hm]
  · cases hst : stallMem s
    · have hv : (step s i).wb = MemWb.ofMem s.mem s.bus := wbNext_of_mem hw hm hst
      rw [headPc_of_wb (by rw [hv]; exact ofMem_valid _ _), hv, ofMem_pc]
      simp [behindPc, hm]
    · have hv : (step s i).mem = memHold s i := memNext_of_stall hw hst
      have hwb : (step s i).wb.valid = false := wbNext_empty (Or.inr hst)
      rw [headPc_of_no_wb hwb]
      simp [behindPc, hv, hm]

/-! ## A redirect -/

/-- No instruction is left behind WB; a fetch in flight will be dropped. -/
structure Drained (s : State) : Prop where
  id : s.id.valid = false
  ex : s.ex.valid = false
  mem : s.mem.valid = false
  wb : s.wb.valid = false
  fetch : s.fetch.inflight = true → s.fetch.squash = true

theorem Drained.headPc (h : Drained s) : headPc s = s.fetch.pc := by
  have hf : (s.fetch.inflight && !s.fetch.squash) = false := by
    cases hi : s.fetch.inflight
    · rfl
    · simp [h.fetch hi]
  simp [CorePipeline.headPc, behindPc, afterMem, afterEx, h.id, h.ex, h.mem, h.wb, hf]

/-- A redirect drains the pipe unless the divider holds EX. -/
theorem Spaced.drained_of_redirect (h : Spaced s) (hw : wbRedirect s = true)
    (hdiv : exDivStall s = false) : Drained (step s i) where
  id := by
    rw [step_id]
    simp [idNext, flushId, hw]
  ex := by
    rw [step_ex]
    cases hv : (exNext s i).valid
    · rfl
    rcases exNext_valid hv with ⟨hst, hx, -⟩ | ⟨-, -, -, hnw, -⟩
    · rw [h.stallEx_of_ex hx, hdiv] at hst; simp at hst
    · rw [hw] at hnw; simp at hnw
  mem := by
    rw [step_mem]
    simp [memNext, hw, ExMem.bubble]
  wb := by
    rw [step_wb]
    simp [wbNext, hw, MemWb.bubble]
  fetch hf := by
    rw [step_fetch]
    rcases fetchNext_inflight hf with ⟨ha, -, -⟩ | ⟨-, -, -, -, hs⟩
    · simp [(ifetchAccept_elim ha).2.2.2.1] at hw
    · simp [hs, flushId, hw]

theorem step_fetch_pc_of_redirect (hw : wbRedirect s = true) : (step s i).fetch.pc = wbRedirectPc s := by
  simp [step, fetchNext, hw]

end QinglongCore.CorePipeline
