import QinglongCore.Pipeline.DropIn

/-!
# The pipeline never stops

Between buses that go on accepting and answering, the pipeline commits again and again: whatever the answers say,
faults included, whichever interrupts come, and whatever a redirect has left behind.
-/

namespace QinglongCore.CorePipeline

open Sync (LeadsTo)

/-! ## Statement -/

section
variable (pc : Word) (regs : RegFile) (inp : Nat → In)

/-- There is always a commit to come. -/
def NeverStops : Prop := ∀ t, ∃ u, t ≤ u ∧ ((shown pc regs inp u).retired).isSome

/-- Nothing is in WB, and the rest of the pipe is as `p` says. -/
structure Coming (p : State → Prop) (t : Nat) : Prop where
  wb : (run pc regs inp t).wb.valid = false
  stage : p (run pc regs inp t)

end

variable {pc : Word} {regs : RegFile} {inp : Nat → In} {s : State} {i : In} {p q : State → Prop} {t r : Nat}

/-! ## What holds in every cycle -/

theorem fetches_run (t : Nat) : Fetches (shown pc regs inp) inp t (run pc regs inp t) := by
  induction t with
  | zero => rfl
  | succ t ih => exact fetches_step ih rfl

/-- A redirect forgets that the divider has been started. -/
theorem working_run (t : Nat) : (run pc regs inp t).div.started = true → (run pc regs inp t).div.doneLatched = true ∨
    (run pc regs inp t).divUnit.done = true ∨ (run pc regs inp t).divUnit.state ≠ .idle := by
  induction t with
  | zero =>
      intro h
      simp [run, reset] at h
  | succ t ih =>
      cases hw : wbRedirect (run pc regs inp t)
      · exact working_step hw ih (inp t)
      · intro h
        have h' : (divNext (run pc regs inp t)).started = true := h
        simp [divNext, hw] at h'

/-- A request that has been taken is still to be answered. -/
theorem asked_run (t : Nat) :
    (run pc regs inp t).bus.reqFired = true → Isa.requests (shown pc regs inp) inp t ≠ [] := by
  induction t with
  | zero =>
      intro h
      simp [run, reset] at h
  | succ t ih =>
      intro h
      have hf : (busNext (run pc regs inp t) (inp t)).reqFired = true := h
      cases ha : dmemAccept (run pc regs inp t) (inp t)
      · simp only [busNext, ha, Bool.false_eq_true, if_false] at hf
        split_ifs at hf with hw hr
        -- a request on its way belongs to the access in MEM, so that an answer would have been seen
        have hb := (spaced_run t).fired_busy hf
        simp only [memBusy, Bool.and_eq_true] at hb
        exact InOrder.outstanding_waits (ih hf) (by simpa [memRspThisCycle, hb] using hr)
      · exact InOrder.outstanding_of_issue (by simp [shown, shows, ha])

/-! ## MEM -/

theorem Coming.no_redirect (h : Coming pc regs inp p t) : wbRedirect (run pc regs inp t) = false := by
  simp [wbRedirect, h.wb]

theorem Coming.mono (h : Coming pc regs inp p t) (hpq : p (run pc regs inp t) → q (run pc regs inp t)) :
    Coming pc regs inp q t := ⟨h.wb, hpq h.stage⟩

theorem Pending.stallMem {f : Bool} (h : Pending f r s) : stallMem s = true := by
  simp [CorePipeline.stallMem, memBusy, h.mem, h.waits]

/-- Without an answer the access goes on waiting, and its request may be taken. -/
theorem Coming.unanswered {f : Bool} (h : Coming pc regs inp (Pending f r) t) (hr : (inp t).dmemRspValid = false) :
    Coming pc regs inp (Pending (dmemAccept (run pc regs inp t) (inp t) || f) r) (t + 1) := by
  have hst := h.stage.stallMem
  obtain ⟨hm, hf⟩ := mem_unanswered (i := inp t) h.no_redirect hst (by simp [memRspThisCycle, hr])
  have hm' : (run pc regs inp (t + 1)).mem = (run pc regs inp t).mem := hm
  refine ⟨wbNext_empty (.inr hst), ?_, ?_, ?_, ?_⟩
  · rw [hm']; exact h.stage.mem
  · rw [hm']; exact h.stage.waits
  · rw [beatsLeft, hm']; exact h.stage.left
  · exact hf.trans (by rw [h.stage.fired])

/-- Any answer ends a beat. -/
theorem Coming.answered {f : Bool} (h : Coming pc regs inp (Pending f r) t) (hr : (inp t).dmemRspValid = true) :
    Coming pc regs inp (fun s => InMem s ∧ beatsLeft s < r) (t + 1) := by
  have hrsp : memRspThisCycle (run pc regs inp t) (inp t) = true := by
    simp [memRspThisCycle, h.stage.mem, h.stage.waits, hr]
  obtain ⟨hm, hlt⟩ := mem_answered h.no_redirect h.stage.mem h.stage.waits hrsp
  exact ⟨wbNext_empty (.inr h.stage.stallMem), hm, h.stage.left ▸ hlt⟩

/-- An instruction in MEM whose access is over still waits for a fetch to drain. -/
def Draining (s : State) : Prop := s.mem.valid = true ∧ s.mem.lsPending = false ∧ stallMem s = true

theorem Draining.inflight (h : Draining s) : s.fetch.inflight = true := by
  obtain ⟨-, hl, hst⟩ := h
  simp only [stallMem, memBusy, hl, Bool.and_false, Bool.false_or, memStallForIfetchDrain, Bool.and_eq_true] at hst
  exact hst.2

/-- It stays as it is until the fetch is answered. -/
theorem Draining.step (h : Draining s) (hw : wbRedirect s = false) (i : In) :
    (step s i).mem = s.mem ∧ (step s i).fetch.inflight = !i.ifetchRspValid := by
  refine ⟨?_, ?_⟩
  · rw [step_mem, memNext_of_stall hw h.2.2]
    simp [memHold, memRspThisCycle, h.2.1]
  · have ha : ifetchAccept s i = false := ifetchAccept_false_of_inflight h.inflight
    rw [step_fetch]
    simp [fetchNext, ha, rspArriving, h.inflight]

theorem Draining.stallMem_eq (h : Draining s) (hw : wbRedirect s = false) (i : In) :
    stallMem (CorePipeline.step s i) = !i.ifetchRspValid := by
  obtain ⟨hm, hin⟩ := h.step hw i
  have hb : memBusy s = false := by simp [memBusy, h.2.1]
  have hst := h.2.2
  simp only [stallMem, hb, Bool.false_or, memStallForIfetchDrain, Bool.and_eq_true] at hst
  have hb' : memBusy (CorePipeline.step s i) = false := by rw [memBusy, hm]; exact hb
  have hs' : memIsCsrwSatp (CorePipeline.step s i) = memIsCsrwSatp s := by
    simp only [memIsCsrwSatp, memIsCsrOp, hm]
  rw [stallMem, hb', memStallForIfetchDrain, hs', hst.1, hin]
  simp

section
variable (hw : Isa.Willing (shown pc regs inp) inp)

include hw

/-- The request of a pending access is taken, or answered at once by what was left over. -/
theorem Coming.fires (r : Nat) : LeadsTo (Coming pc regs inp (Pending false r))
    (fun t => Coming pc regs inp (Pending true r) t ∨ Coming pc regs inp (fun s => InMem s ∧ beatsLeft s < r) t) := by
  have hacc : ∀ t, Coming pc regs inp (Pending false r) t →
      dmemAccept (run pc regs inp t) (inp t) = (inp t).dmemReqReady := by
    intro t h
    have hop := ((spaced_run t).mem_origin h.stage.mem).hasBusOp h.stage.waits
    simp [dmemAccept, dmemReqValid, memHasBusOp, h.stage.mem, h.stage.waits, h.stage.fired, hop]
  refine LeadsTo.wait (e := fun t => (inp t).dmemReqReady || (inp t).dmemRspValid) (fun t h he => ?_)
    (fun t h he => ?_) fun t _ => ?_
  · rw [Bool.or_eq_false_iff] at he
    have hn := h.unanswered he.2
    rwa [hacc t h, he.1] at hn
  · cases hr : (inp t).dmemRspValid
    · rw [hr, Bool.or_false] at he
      have hn := h.unanswered hr
      rw [hacc t h, he] at hn
      exact .inl hn
    · exact .inr (h.answered hr)
  · obtain ⟨u, htu, hu⟩ := hw.dataReady t
    exact ⟨u, htu, by rw [hu, Bool.true_or]⟩

theorem Coming.answers (r : Nat) : LeadsTo (Coming pc regs inp (Pending true r))
    (Coming pc regs inp fun s => InMem s ∧ beatsLeft s < r) :=
  LeadsTo.wait (e := fun t => (inp t).dmemRspValid)
    (fun t h he => by
      have hn := h.unanswered he
      rwa [Bool.or_true] at hn)
    (fun _ h he => h.answered he) fun t h => hw.dataPrompt t (asked_run t h.stage.fired)

theorem fetch_prompt (hin : (run pc regs inp t).fetch.inflight = true) :
    ∃ u, t ≤ u ∧ (inp u).ifetchRspValid = true := by
  refine hw.fetchPrompt t ?_
  have hf : Fetches (shown pc regs inp) inp t (run pc regs inp t) := fetches_run t
  unfold Fetches at hf
  rw [hin] at hf
  obtain ⟨a, ho, -⟩ := hf
  exact ne_of_eq_of_ne ho (by simp)

theorem Coming.drains : LeadsTo (Coming pc regs inp Draining) fun t => (run pc regs inp t).wb.valid = true := by
  have hgone : LeadsTo (Coming pc regs inp Draining)
      (Coming pc regs inp fun s => s.mem.valid = true ∧ stallMem s = false) := by
    refine LeadsTo.wait (e := fun t => (inp t).ifetchRspValid) (fun t h he => ?_) (fun t h he => ?_)
      fun t h => fetch_prompt hw h.stage.inflight
    all_goals
      obtain ⟨hm, -⟩ := h.stage.step h.no_redirect (inp t)
      have hst := h.stage.stallMem_eq h.no_redirect (inp t)
      have hm' : (run pc regs inp (t + 1)).mem = (run pc regs inp t).mem := hm
      have hst' : stallMem (run pc regs inp (t + 1)) = !(inp t).ifetchRspValid := hst
      rw [he] at hst'
    · exact ⟨wbNext_empty (.inr h.stage.2.2), by rw [hm']; exact h.stage.1, by rw [hm']; exact h.stage.2.1, hst'⟩
    · exact ⟨wbNext_empty (.inr h.stage.2.2), by rw [hm']; exact h.stage.1, hst'⟩
  exact hgone.trans (LeadsTo.next fun t h => wb_of_mem h.wb h.stage.1 h.stage.2)

/-- The instruction in MEM comes to WB: each answer leaves a beat less, and then only a fetch may be in the way. -/
theorem Coming.mem : LeadsTo (Coming pc regs inp InMem) fun t => (run pc regs inp t).wb.valid = true := by
  refine LeadsTo.falls (fun t => beatsLeft (run pc regs inp t)) fun r t ⟨h, hr⟩ => ?_
  cases hl : (run pc regs inp t).mem.lsPending
  · have hwb : ∃ u, t ≤ u ∧ (run pc regs inp u).wb.valid = true := by
      cases hst : stallMem (run pc regs inp t)
      · exact ⟨t + 1, by omega, wb_of_mem h.wb h.stage hst⟩
      · exact Coming.drains hw t ⟨h.wb, h.stage, hl, hst⟩
    obtain ⟨u, htu, hu⟩ := hwb
    exact ⟨u, htu, .inl hu⟩
  · have hends : ∃ u, t ≤ u ∧ Coming pc regs inp (fun s => InMem s ∧ beatsLeft s < r) u := by
      cases hf : (run pc regs inp t).bus.reqFired
      · obtain ⟨u, htu, hu | hu⟩ := Coming.fires hw r t ⟨h.wb, h.stage, hl, hr, hf⟩
        · obtain ⟨v, huv, hv⟩ := Coming.answers hw r u hu
          exact ⟨v, by omega, hv⟩
        · exact ⟨u, htu, hu⟩
      · exact Coming.answers hw r t ⟨h.wb, h.stage, hl, hr, hf⟩
    obtain ⟨u, htu, hu⟩ := hends
    exact ⟨u, htu, .inr ⟨hu.mono And.left, hu.stage.2⟩⟩

omit hw in
/-- Behind an empty MEM the instruction in EX waits for the divider alone, also one that a redirect has left there. -/
theorem Coming.ex : LeadsTo (Coming pc regs inp InEx) (Coming pc regs inp InMem) := by
  refine LeadsTo.falls (fun t => divRank (run pc regs inp t)) fun r t ⟨h, hr⟩ => ⟨t + 1, by omega, ?_⟩
  obtain ⟨hm, hx⟩ := h.stage
  cases hse : stallEx (run pc regs inp t)
  · obtain ⟨hwb, hmem⟩ := mem_of_ex (i := inp t) h.wb hm hx hse
    exact .inl ⟨hwb, hmem⟩
  · rw [(spaced_run t).stallEx_of_ex hx] at hse
    obtain ⟨-, hd, hl⟩ := exDivStall_elim hse
    have halone : DivAlone (births pc regs inp t).ex (run pc regs inp t) (births pc regs inp t) :=
      ⟨hx, hd, hm, h.wb, Nat.le_refl _, working_run t⟩
    obtain ⟨ha, hlt⟩ := halone.step (i := inp t) hl t
    exact .inr ⟨⟨ha.wb, ha.mem, ha.valid⟩, hr ▸ hlt⟩

end

/-! ## In front of EX -/

/-- An interrupt that is put into an empty pipe is the only instruction there. -/
theorem Hollow.inject (h : Hollow s) (ha : allowIrqInject s i.ext = true) :
    Hollow (CorePipeline.step s i) ∧ (CorePipeline.step s i).id = irqBubble s i.ext := by
  have hnq := (allowIrqInject_elim ha).2.2.2.2.2.2
  refine ⟨⟨?_, memNext_empty h.mem (.inr h.ex), wbNext_empty (.inl h.mem)⟩, ?_⟩
  · rw [step_ex]
    cases hv : (exNext s i).valid
    · rfl
    · rcases exNext_valid hv with ⟨-, hx, -⟩ | ⟨-, -, -, -, hq, -⟩
      · rw [h.ex] at hx
        simp at hx
      · rw [hq ha] at hnq
        simp at hnq
  · have hslot : ifIdSlotFreeNext s = true := by simp [ifIdSlotFreeNext, stallId_of_idle h.ex h.mem h.wb]
    rw [step_id]
    simp [idNext, h.flushId, hslot, ha]

/-- The instruction in ID enters EX, with an interrupt in front of it if there is one. -/
theorem Coming.id : LeadsTo (Coming pc regs inp InId) (Coming pc regs inp InEx) := by
  have hgo : ∀ t, Coming pc regs inp InId t → allowIrqInject (run pc regs inp t) (inp t).ext = false →
      Coming pc regs inp InEx (t + 1) := by
    intro t h hirq
    obtain ⟨hwb, hm, hx⟩ := h.stage.1.ex_of_id (i := inp t) h.stage.2 hirq
    exact ⟨hwb, hm, hx⟩
  intro t h
  cases hirq : allowIrqInject (run pc regs inp t) (inp t).ext
  · exact ⟨t + 1, by omega, hgo t h hirq⟩
  · obtain ⟨hh, hid⟩ := h.stage.1.inject hirq
    have hh' : Hollow (run pc regs inp (t + 1)) := hh
    have hid' : (run pc regs inp (t + 1)).id = irqBubble (run pc regs inp t) (inp t).ext := hid
    refine ⟨t + 1 + 1, by omega, hgo (t + 1) ⟨hh'.wb, hh', by rw [hid']; rfl⟩ ?_⟩
    simp [allowIrqInject, hid', irqBubble]

/-- While the fetch in flight is not answered, nothing moves. -/
theorem Coming.fetching {stale : Bool} (h : Coming pc regs inp (InFetch stale) t) :
    Hollow (run pc regs inp (t + 1)) ∧
      (run pc regs inp (t + 1)).id.valid = ((inp t).ifetchRspValid && !stale) ∧
      (run pc regs inp (t + 1)).fetch.inflight = !(inp t).ifetchRspValid ∧
      (run pc regs inp (t + 1)).fetch.squash = (stale && !(inp t).ifetchRspValid) := by
  obtain ⟨hh, hid, hin, hq⟩ := h.stage
  have ha : ifetchAccept (run pc regs inp t) (inp t) = false := ifetchAccept_false_of_inflight hin
  have hirq : allowIrqInject (run pc regs inp t) (inp t).ext = false := by simp [allowIrqInject, hin]
  obtain ⟨hf, hsq⟩ := hh.fetch_step (inp t)
  refine ⟨hh.step hid _, (hh.id_of_fetch hid hirq).trans ?_, hf.trans ?_, hsq.trans ?_⟩
  · simp [rspConsumable, rspArriving, hin, hq]
  · simp [ha, hin]
  · simp [ha, rspArriving, hin, hq]

/-- An empty pipe is not gated by a trap. -/
theorem Hollow.no_trap (h : Hollow s) (ht : TrapAhead s) : s.trapPending = false := by
  cases hp : s.trapPending
  · rfl
  · rcases ht hp with ⟨hv, -⟩ | ⟨hv, -⟩
    · rw [h.mem] at hv
      simp at hv
    · rw [h.wb] at hv
      simp at hv

section
variable (hw : Isa.Willing (shown pc regs inp) inp)

include hw

theorem Coming.fetch : LeadsTo (Coming pc regs inp (InFetch false)) (Coming pc regs inp InId) := by
  refine LeadsTo.wait (e := fun t => (inp t).ifetchRspValid) (fun t h he => ?_) (fun t h he => ?_)
    fun t h => fetch_prompt hw h.stage.2.2.1
  all_goals
    obtain ⟨hh, hid, hin, hq⟩ := h.fetching
    rw [he] at hid hin hq
  · exact ⟨hh.wb, hh, hid, hin, hq⟩
  · exact ⟨hh.wb, hh, hid⟩

theorem Coming.stale : LeadsTo (Coming pc regs inp (InFetch true)) (Coming pc regs inp Idle) := by
  refine LeadsTo.wait (e := fun t => (inp t).ifetchRspValid) (fun t h he => ?_) (fun t h he => ?_)
    fun t h => fetch_prompt hw h.stage.2.2.1
  all_goals
    obtain ⟨hh, hid, hin, hq⟩ := h.fetching
    rw [he] at hid hin hq
  · exact ⟨hh.wb, hh, hid, hin, hq⟩
  · exact ⟨hh.wb, hh, hid, hin⟩

/-- With nothing in the pipe the next instruction is asked for, unless an interrupt takes its place. -/
theorem Coming.idle : LeadsTo (Coming pc regs inp Idle)
    (fun t => Coming pc regs inp (InFetch false) t ∨ Coming pc regs inp InId t) := by
  refine LeadsTo.wait
    (e := fun t => (inp t).ifetchReqReady || allowIrqInject (run pc regs inp t) (inp t).ext)
    (fun t h he => ?_) (fun t h he => ?_) fun t _ => ?_
  · obtain ⟨hh, hid, hin⟩ := h.stage
    rw [Bool.or_eq_false_iff] at he
    have ha : ifetchAccept (run pc regs inp t) (inp t) = false := by simp [ifetchAccept, he.1]
    have hh' : Hollow (run pc regs inp (t + 1)) := hh.step hid _
    refine ⟨hh'.wb, hh', (hh.id_of_fetch hid he.2).trans ?_, (hh.fetch_step (inp t)).1.trans ?_⟩
    · simp [rspConsumable, rspArriving, hin]
    · simp [ha, hin]
  · obtain ⟨hh, hid, hin⟩ := h.stage
    cases hirq : allowIrqInject (run pc regs inp t) (inp t).ext
    · rw [hirq, Bool.or_false] at he
      have ha : ifetchAccept (run pc regs inp t) (inp t) = true := by
        simp [ifetchAccept, ifetchReqValid, ifCanIssue, ifIdSlotFreeNext, hid, hin, hh.no_trap (trapAhead_run t),
          hh.wbRedirect, branchRedirect_false_of_invalid hh.ex, hirq, he]
      obtain ⟨hf, hsq⟩ := hh.fetch_step (inp t)
      have hh' : Hollow (run pc regs inp (t + 1)) := hh.step hid _
      refine .inl ⟨hh'.wb, hh', (hh.id_of_fetch hid hirq).trans ?_, hf.trans ?_, hsq.trans ?_⟩
      · simp [rspConsumable, rspArriving, hin]
      · simp [ha]
      · simp [ha]
    · obtain ⟨hh', hid'⟩ := hh.inject hirq
      exact .inr ⟨hh'.wb, hh', congrArg IfId.valid hid'⟩
  · obtain ⟨u, htu, hu⟩ := hw.fetchReady t
    exact ⟨u, htu, by rw [hu, Bool.true_or]⟩

end

/-! ## Theorem -/

/-- Between buses that go on accepting and answering, the pipeline never stops committing. -/
theorem never_stops (pc : Word) (regs : RegFile) (inp : Nat → In) (hw : Isa.Willing (shown pc regs inp) inp) :
    NeverStops pc regs inp := by
  have hmem := Coming.mem hw
  have hex := Coming.ex.trans hmem
  have hid := Coming.id.trans hex
  have hfetch := (Coming.fetch hw).trans hid
  have hidle := (Coming.idle hw).trans fun t h => h.elim (hfetch t) (hid t)
  have hstale := (Coming.stale hw).trans hidle
  have hwb : ∀ t, ∃ u, t ≤ u ∧ (run pc regs inp u).wb.valid = true := by
    intro t
    cases hwb : (run pc regs inp t).wb.valid
    · cases hm : (run pc regs inp t).mem.valid
      · cases hx : (run pc regs inp t).ex.valid
        · have hh : Hollow (run pc regs inp t) := ⟨hx, hm, hwb⟩
          cases hv : (run pc regs inp t).id.valid
          · cases hin : (run pc regs inp t).fetch.inflight
            · exact hidle t ⟨hwb, hh, hv, hin⟩
            · cases hq : (run pc regs inp t).fetch.squash
              · exact hfetch t ⟨hwb, hh, hv, hin, hq⟩
              · exact hstale t ⟨hwb, hh, hv, hin, hq⟩
          · exact hid t ⟨hwb, hh, hv⟩
        · exact hex t ⟨hwb, hm, hx⟩
      · exact hmem t ⟨hwb, hm⟩
    · exact ⟨t, Nat.le_refl t, hwb⟩
  intro t
  obtain ⟨u, htu, hu⟩ := hwb t
  exact ⟨u, htu, by simp [shown, shows, hu]⟩

/-- A memory of words that are no instructions: a trap follows another for ever. -/
theorem never_stops_empty : NeverStops RESET_PC (fun _ => 0) (pipelineBench (fun _ => 0) 0 RESET_PC fun _ => 0).inp :=
  never_stops _ _ _ (by rw [pipelineBench_shown]; exact Isa.Bench.willing _)

end QinglongCore.CorePipeline
