import QinglongCore.Pipeline.Refinement
import QinglongCore.Pipeline.Lemmas.DivLiveness

/-!
# The pipeline goes on

Between buses that go on accepting and answering, the oldest instruction comes to WB from whichever stage it is in.
-/

namespace QinglongCore.CorePipeline

open Isa (Arch Access Retirement Shown contents accesses retirements ordinary)
open Sync (LeadsTo)

variable {s : State} {i : In}

/-! ## From stage to stage -/

theorem wb_of_mem (hw : s.wb.valid = false) (hm : s.mem.valid = true) (hsm : stallMem s = false) :
    (step s i).wb.valid = true := by
  rw [step_wb, wbNext_of_mem (by simp [wbRedirect, hw]) hm hsm, ofMem_valid]

theorem mem_of_ex (hw : s.wb.valid = false) (hm : s.mem.valid = false) (hx : s.ex.valid = true)
    (hse : stallEx s = false) : (step s i).wb.valid = false ∧ (step s i).mem.valid = true := by
  refine ⟨wbNext_empty (.inl hm), ?_⟩
  rw [step_mem, memNext_of_ex (by simp [wbRedirect, hw]) hx hse]
  rfl

/-- EX, MEM and WB are empty. -/
structure Hollow (s : State) : Prop where
  ex : s.ex.valid = false
  mem : s.mem.valid = false
  wb : s.wb.valid = false

namespace Hollow

variable (h : Hollow s)

include h

theorem wbRedirect : wbRedirect s = false := by simp [CorePipeline.wbRedirect, h.wb]

theorem flushId : flushId s = false := by
  simp [CorePipeline.flushId, h.wbRedirect, branchRedirect_false_of_invalid h.ex]

theorem ex_of_id (hid : s.id.valid = true) (hirq : allowIrqInject s i.ext = false) :
    (step s i).wb.valid = false ∧ (step s i).mem.valid = false ∧ (step s i).ex.valid = true := by
  refine ⟨wbNext_empty (.inl h.mem), memNext_empty h.mem (.inr h.ex), ?_⟩
  have hid' := stallId_of_idle h.ex h.mem h.wb
  have hse : stallEx s = false := by
    simp only [stallId, Bool.or_eq_false_iff] at hid'
    exact hid'.1.1.1
  rw [step_ex]
  simp [exNext, hse, idWillBubble, h.wbRedirect, hid, hid', hirq]

/-- Without an instruction in ID the pipe stays hollow. -/
theorem step (hid : s.id.valid = false) (i : In) : Hollow (step s i) where
  ex := by
    rw [step_ex]
    cases hv : (exNext s i).valid
    · rfl
    · rcases exNext_valid hv with ⟨-, hx, -⟩ | ⟨hid', -⟩
      · rw [h.ex] at hx
        simp at hx
      · rw [hid] at hid'
        simp at hid'
  mem := memNext_empty h.mem (.inr h.ex)
  wb := wbNext_empty (.inl h.mem)

/-- The answer to a fetch that is still wanted enters ID. -/
theorem id_of_fetch (hid : s.id.valid = false) (hirq : allowIrqInject s i.ext = false) :
    (CorePipeline.step s i).id.valid = rspConsumable s i := by
  rw [step_id]
  simp only [idNext, h.flushId, Bool.false_eq_true, if_false, ifIdSlotFreeNext, hid, Bool.not_false, Bool.true_or,
    if_true, hirq]
  cases rspConsumable s i <;> rfl

theorem fetch_step (i : In) :
    (CorePipeline.step s i).fetch.inflight = (ifetchAccept s i || (s.fetch.inflight && !i.ifetchRspValid)) ∧
      (CorePipeline.step s i).fetch.squash = (s.fetch.squash && !(ifetchAccept s i || rspArriving s i)) := by
  rw [step_fetch]
  cases hin : s.fetch.inflight <;> cases hr : i.ifetchRspValid <;> cases ha : ifetchAccept s i <;>
    simp [fetchNext, h.flushId, rspArriving, hin, hr, ha]

end Hollow

/-- The beats of the access in MEM that are still to be answered. -/
def beatsLeft (s : State) : Nat := if s.mem.lsPending then (if s.mem.isAmoRmw && !s.mem.amoPhase then 2 else 1) else 0

theorem mem_unanswered (hw : wbRedirect s = false) (hst : stallMem s = true) (hr : memRspThisCycle s i = false) :
    (step s i).mem = s.mem ∧ (step s i).bus.reqFired = (dmemAccept s i || s.bus.reqFired) := by
  refine ⟨?_, ?_⟩
  · rw [step_mem, memNext_of_stall hw hst]
    simp [memHold, hr]
  · rw [step_bus]
    cases ha : dmemAccept s i <;> simp [busNext, hw, hr, ha]

theorem mem_answered (hw : wbRedirect s = false) (hm : s.mem.valid = true) (hl : s.mem.lsPending = true)
    (hr : memRspThisCycle s i = true) : (step s i).mem.valid = true ∧ beatsLeft (step s i) < beatsLeft s := by
  have hst : stallMem s = true := by simp [stallMem, memBusy, hm, hl]
  have he : (step s i).mem = memHold s i := memNext_of_stall hw hst
  refine ⟨by rw [he, memHold_valid, hm], ?_⟩
  cases hturn : s.mem.isAmoRmw && !s.mem.amoPhase && !i.dmemRspFault
  · have hl' : (step s i).mem.lsPending = false := by rw [he]; simp [memHold, hr, hturn]
    simp only [beatsLeft, hl', hl, Bool.false_eq_true, if_false, if_true]
    split_ifs <;> omega
  · have hm' : (step s i).mem = { s.mem with amoPhase := true } := by rw [he]; simp [memHold, hr, hturn]
    simp only [Bool.and_eq_true, Bool.not_eq_true'] at hturn
    simp [beatsLeft, hm', hl, hturn]

/-! ## The next instruction retires -/

section
variable (mem₀ : Word → Word) (pc : Word) (regs : RegFile) (inp : Nat → In) (K n : Nat)

/-- The next instruction is in the stage that `p` describes. -/
structure Waits (p : State → Prop) (t : Nat) : Prop where
  track : OnTrack mem₀ pc regs inp K n t
  wb : (run pc regs inp t).wb.valid = false
  stage : p (run pc regs inp t)

/-- The next instruction is in WB. -/
structure Commits (t : Nat) : Prop where
  track : OnTrack mem₀ pc regs inp K n t
  wb : (run pc regs inp t).wb.valid = true

end

def InMem (s : State) : Prop := s.mem.valid = true

/-- The next instruction has `r` beats to go, and the request of the present one has been taken or not. -/
structure Pending (fired : Bool) (r : Nat) (s : State) : Prop where
  mem : s.mem.valid = true
  waits : s.mem.lsPending = true
  left : beatsLeft s = r
  fired : s.bus.reqFired = fired

def InEx (s : State) : Prop := s.mem.valid = false ∧ s.ex.valid = true
def InId (s : State) : Prop := Hollow s ∧ s.id.valid = true

/-- The next instruction is on its way, or a stale one has to come first. -/
def InFetch (stale : Bool) (s : State) : Prop :=
  Hollow s ∧ s.id.valid = false ∧ s.fetch.inflight = true ∧ s.fetch.squash = stale

def Idle (s : State) : Prop := Hollow s ∧ s.id.valid = false ∧ s.fetch.inflight = false

section
variable {mem₀ : Word → Word} {pc : Word} {regs : RegFile} {inp : Nat → In} {K n t : Nat} {p q : State → Prop}

theorem Waits.mono (h : Waits mem₀ pc regs inp K n p t) (hpq : p (run pc regs inp t) → q (run pc regs inp t)) :
    Waits mem₀ pc regs inp K n q t := ⟨h.track, h.wb, hpq h.stage⟩

theorem Waits.no_irq (h : Waits mem₀ pc regs inp K n p t) (e : Ext) :
    allowIrqInject (run pc regs inp t) e = false := by
  simp [allowIrqInject, Csr.irqPending_of_mie h.track.straight.mie]

theorem Waits.no_redirect (h : Waits mem₀ pc regs inp K n p t) : wbRedirect (run pc regs inp t) = false := by
  simp [wbRedirect, h.wb]

variable (hs : Isa.Served (shown pc regs inp) mem₀ inp) (hw : Isa.Willing (shown pc regs inp) inp)
  (hk : Steady mem₀ ⟨pc, regs, none, []⟩ K) (hn : n < K)

include hs hk hn

theorem Waits.onTrack (h : Waits mem₀ pc regs inp K n p t) : OnTrack mem₀ pc regs inp K n (t + 1) := by
  have hb : behind n (run pc regs inp t) = n := by simp [behind, h.wb]
  have hstep := h.track.step hs hk hn (by rw [hb]; exact hn)
  rwa [hb] at hstep

theorem Waits.next (h : Waits mem₀ pc regs inp K n p t) (hwb : (run pc regs inp (t + 1)).wb.valid = false)
    (hq : q (run pc regs inp (t + 1))) : Waits mem₀ pc regs inp K n q (t + 1) :=
  ⟨h.onTrack hs hk hn, hwb, hq⟩

omit hs in
/-- The instruction in MEM is the next one, and it is kept there by its access alone. -/
theorem Waits.passing (h : Waits mem₀ pc regs inp K n p t) (hm : (run pc regs inp t).mem.valid = true) :
    Passing mem₀ (shown pc regs inp) inp (Arch.run mem₀ ⟨pc, regs, none, []⟩ n) t (run pc regs inp t) ∧
      stallMem (run pc regs inp t) = (run pc regs inp t).mem.lsPending := by
  have hb : behind n (run pc regs inp t) = n := by simp [behind, h.wb]
  have hp := h.track.follows.mem hm (by rw [hb]; exact hn)
  rw [hb] at hp
  refine ⟨hp, ?_⟩
  rw [stallMem_of_ordinary (by rw [hp.entered.word.2.1]; exact hk.ordinary hn), hm, Bool.true_and]

include hw

/-! ### MEM -/

omit hs hw in
/-- While its access waits for an answer, the instruction in MEM stays there. -/
theorem Waits.unanswered (h : Waits mem₀ pc regs inp K n p t) (hm : (run pc regs inp t).mem.valid = true)
    (hl : (run pc regs inp t).mem.lsPending = true) (hr : (inp t).dmemRspValid = false) :
    (run pc regs inp (t + 1)).wb.valid = false ∧ (run pc regs inp (t + 1)).mem = (run pc regs inp t).mem ∧
      (run pc regs inp (t + 1)).bus.reqFired =
        (dmemAccept (run pc regs inp t) (inp t) || (run pc regs inp t).bus.reqFired) := by
  have hst : stallMem (run pc regs inp t) = true := (h.passing hk hn hm).2.trans hl
  exact ⟨wbNext_empty (.inr hst), mem_unanswered h.no_redirect hst (by simp [memRspThisCycle, hr])⟩

/-- An access that is pending is taken by the bus. -/
theorem fires (r : Nat) : LeadsTo (Waits mem₀ pc regs inp K n (Pending false r))
    (Waits mem₀ pc regs inp K n (Pending true r)) := by
  -- an access that has not been taken is not answered
  have hquiet : ∀ t, Waits mem₀ pc regs inp K n (Pending false r) t → (inp t).dmemRspValid = false := by
    intro t h
    have hask := (h.passing hk hn h.stage.mem).1.asked
    unfold Asked at hask
    rw [h.stage.fired] at hask
    exact hs.data.quiet hask
  have hacc : ∀ t, Waits mem₀ pc regs inp K n (Pending false r) t →
      dmemAccept (run pc regs inp t) (inp t) = (inp t).dmemReqReady := by
    intro t h
    have hop := ((spaced_run t).mem_origin h.stage.mem).hasBusOp h.stage.waits
    simp [dmemAccept, dmemReqValid, memHasBusOp, h.stage.mem, h.stage.waits, h.stage.fired, hop]
  have hstep : ∀ t, Waits mem₀ pc regs inp K n (Pending false r) t →
      Waits mem₀ pc regs inp K n (Pending (inp t).dmemReqReady r) (t + 1) := by
    intro t h
    obtain ⟨hwb, hm, hf⟩ := h.unanswered hk hn h.stage.mem h.stage.waits (hquiet t h)
    rw [hacc t h, h.stage.fired, Bool.or_false] at hf
    refine h.next hs hk hn hwb ⟨?_, ?_, ?_, hf⟩
    · rw [hm]; exact h.stage.mem
    · rw [hm]; exact h.stage.waits
    · rw [beatsLeft, hm]; exact h.stage.left
  refine LeadsTo.wait (fun t h he => ?_) (fun t h he => ?_) fun t _ => hw.dataReady t
  · have h' := hstep t h
    rwa [he] at h'
  · have h' := hstep t h
    rwa [he] at h'

/-- The answer ends a beat. -/
theorem answers (r : Nat) : LeadsTo (Waits mem₀ pc regs inp K n (Pending true r))
    (Waits mem₀ pc regs inp K n fun s => InMem s ∧ beatsLeft s < r) := by
  refine LeadsTo.wait (e := fun t => (inp t).dmemRspValid) (fun t h he => ?_) (fun t h he => ?_) fun t h => ?_
  · obtain ⟨hwb, hm, hf⟩ := h.unanswered hk hn h.stage.mem h.stage.waits he
    rw [h.stage.fired, Bool.or_true] at hf
    refine h.next hs hk hn hwb ⟨?_, ?_, ?_, hf⟩
    · rw [hm]; exact h.stage.mem
    · rw [hm]; exact h.stage.waits
    · rw [beatsLeft, hm]; exact h.stage.left
  · have hr : memRspThisCycle (run pc regs inp t) (inp t) = true := by
      simp [memRspThisCycle, h.stage.mem, h.stage.waits, he]
    have hst : stallMem (run pc regs inp t) = true := (h.passing hk hn h.stage.mem).2.trans h.stage.waits
    obtain ⟨hm, hlt⟩ := mem_answered h.no_redirect h.stage.mem h.stage.waits hr
    exact h.next hs hk hn (wbNext_empty (.inr hst)) ⟨hm, h.stage.left ▸ hlt⟩
  · refine hw.dataPrompt t ?_
    have hask := (h.passing hk hn h.stage.mem).1.asked
    unfold Asked at hask
    rw [h.stage.fired] at hask
    obtain ⟨a, y, ho, -⟩ := hask
    exact ne_of_eq_of_ne ho (by simp)

theorem mem_leadsTo : LeadsTo (Waits mem₀ pc regs inp K n InMem) (Commits mem₀ pc regs inp K n) := by
  refine LeadsTo.falls (fun t => beatsLeft (run pc regs inp t)) fun r t ⟨h, hr⟩ => ?_
  cases hl : (run pc regs inp t).mem.lsPending
  · refine ⟨t + 1, by omega, .inl ⟨h.onTrack hs hk hn, ?_⟩⟩
    exact wb_of_mem h.wb h.stage ((h.passing hk hn h.stage).2.trans hl)
  · have hfired : ∃ u, t ≤ u ∧ Waits mem₀ pc regs inp K n (Pending true r) u := by
      cases hf : (run pc regs inp t).bus.reqFired
      · exact fires hs hw hk hn r t (h.mono fun hm => ⟨hm, hl, hr, hf⟩)
      · exact ⟨t, Nat.le_refl t, h.mono fun hm => ⟨hm, hl, hr, hf⟩⟩
    obtain ⟨u, htu, hu⟩ := hfired
    obtain ⟨v, huv, hv⟩ := answers hs hw hk hn r u hu
    exact ⟨v, by omega, .inr ⟨hv.mono And.left, hv.stage.2⟩⟩

/-! ### EX -/

omit hw in
/-- Behind an empty MEM the instruction in EX waits for the divider alone. -/
theorem ex_leadsTo : LeadsTo (Waits mem₀ pc regs inp K n InEx) (Waits mem₀ pc regs inp K n InMem) := by
  refine LeadsTo.falls (fun t => divRank (run pc regs inp t)) fun r t ⟨h, hr⟩ => ⟨t + 1, by omega, ?_⟩
  obtain ⟨hm, hx⟩ := h.stage
  cases hse : stallEx (run pc regs inp t)
  · obtain ⟨hwb, hmem⟩ := mem_of_ex (i := inp t) h.wb hm hx hse
    exact .inl (h.next hs hk hn hwb hmem)
  · rw [(spaced_run t).stallEx_of_ex hx] at hse
    obtain ⟨-, hd, hl⟩ := exDivStall_elim hse
    have halone : DivAlone (births pc regs inp t).ex (run pc regs inp t) (births pc regs inp t) :=
      ⟨hx, hd, hm, h.wb, Nat.le_refl _, h.track.straight.working⟩
    obtain ⟨ha, hlt⟩ := halone.step (i := inp t) hl t
    exact .inr ⟨h.next hs hk hn ha.wb ⟨ha.mem, ha.valid⟩, hr ▸ hlt⟩

/-! ### In front of EX -/

omit hw in
theorem id_leadsTo : LeadsTo (Waits mem₀ pc regs inp K n InId) (Waits mem₀ pc regs inp K n InEx) := by
  refine LeadsTo.next fun t h => ?_
  obtain ⟨hwb, hm, hx⟩ := h.stage.1.ex_of_id (i := inp t) h.stage.2 (h.no_irq _)
  exact h.next hs hk hn hwb ⟨hm, hx⟩

omit hs hw hk hn in
/-- While the fetch in flight is not answered, nothing moves. -/
theorem inFetch_step {stale : Bool} (h : Waits mem₀ pc regs inp K n (InFetch stale) t) :
    Hollow (run pc regs inp (t + 1)) ∧
      (run pc regs inp (t + 1)).id.valid = ((inp t).ifetchRspValid && !stale) ∧
      (run pc regs inp (t + 1)).fetch.inflight = !(inp t).ifetchRspValid ∧
      (run pc regs inp (t + 1)).fetch.squash = (stale && !(inp t).ifetchRspValid) := by
  obtain ⟨hh, hid, hin, hq⟩ := h.stage
  have ha : ifetchAccept (run pc regs inp t) (inp t) = false := ifetchAccept_false_of_inflight hin
  obtain ⟨hf, hsq⟩ := hh.fetch_step (inp t)
  refine ⟨hh.step hid _, ?_, ?_, ?_⟩
  · refine (hh.id_of_fetch hid (h.no_irq _)).trans ?_
    simp [rspConsumable, rspArriving, hin, hq]
  · refine hf.trans ?_
    simp [ha, hin]
  · refine hsq.trans ?_
    simp [ha, rspArriving, hin, hq]

omit hs hk hn in
theorem inFetch_prompt {stale : Bool} (h : Waits mem₀ pc regs inp K n (InFetch stale) t) :
    ∃ u, t ≤ u ∧ (inp u).ifetchRspValid = true := by
  refine hw.fetchPrompt t ?_
  have hf := h.track.straight.fetches
  unfold Fetches at hf
  rw [h.stage.2.2.1] at hf
  obtain ⟨a, ho, -⟩ := hf
  exact ne_of_eq_of_ne ho (by simp)

theorem fetch_leadsTo : LeadsTo (Waits mem₀ pc regs inp K n (InFetch false)) (Waits mem₀ pc regs inp K n InId) := by
  refine LeadsTo.wait (e := fun t => (inp t).ifetchRspValid) (fun t h he => ?_) (fun t h he => ?_)
    fun t h => inFetch_prompt hw h
  all_goals
    obtain ⟨hh, hid, hin, hq⟩ := inFetch_step h
    rw [he] at hid hin hq
  · exact h.next hs hk hn hh.wb ⟨hh, hid, hin, hq⟩
  · exact h.next hs hk hn hh.wb ⟨hh, hid⟩

theorem stale_leadsTo : LeadsTo (Waits mem₀ pc regs inp K n (InFetch true)) (Waits mem₀ pc regs inp K n Idle) := by
  refine LeadsTo.wait (e := fun t => (inp t).ifetchRspValid) (fun t h he => ?_) (fun t h he => ?_)
    fun t h => inFetch_prompt hw h
  all_goals
    obtain ⟨hh, hid, hin, hq⟩ := inFetch_step h
    rw [he] at hid hin hq
  · exact h.next hs hk hn hh.wb ⟨hh, hid, hin, hq⟩
  · exact h.next hs hk hn hh.wb ⟨hh, hid, hin⟩

/-- With nothing in the pipe the fetch unit asks for the next instruction. -/
theorem idle_leadsTo : LeadsTo (Waits mem₀ pc regs inp K n Idle) (Waits mem₀ pc regs inp K n (InFetch false)) := by
  have hacc : ∀ t, Waits mem₀ pc regs inp K n Idle t →
      ifetchAccept (run pc regs inp t) (inp t) = (inp t).ifetchReqReady := by
    intro t h
    obtain ⟨hh, hid, hin⟩ := h.stage
    have htrap : (run pc regs inp t).trapPending = false := by
      cases ht : (run pc regs inp t).trapPending
      · rfl
      · rcases trapAhead_run t ht with ⟨hv, -⟩ | ⟨hv, -⟩
        · rw [hh.mem] at hv; simp at hv
        · rw [hh.wb] at hv; simp at hv
    simp [ifetchAccept, ifetchReqValid, ifCanIssue, ifIdSlotFreeNext, hid, hin, htrap, h.no_redirect, h.no_irq,
      branchRedirect_false_of_invalid hh.ex]
  have hstep : ∀ t, Waits mem₀ pc regs inp K n Idle t → Hollow (run pc regs inp (t + 1)) ∧
      (run pc regs inp (t + 1)).id.valid = false ∧
      (run pc regs inp (t + 1)).fetch.inflight = (inp t).ifetchReqReady ∧
      ((inp t).ifetchReqReady = true → (run pc regs inp (t + 1)).fetch.squash = false) := by
    intro t h
    obtain ⟨hh, hid, hin⟩ := h.stage
    obtain ⟨hf, hsq⟩ := hh.fetch_step (inp t)
    rw [hacc t h] at hf hsq
    refine ⟨hh.step hid _, ?_, ?_, fun hr => ?_⟩
    · refine (hh.id_of_fetch hid (h.no_irq _)).trans ?_
      simp [rspConsumable, rspArriving, hin]
    · refine hf.trans ?_
      simp [hin]
    · refine hsq.trans ?_
      simp [hr]
  refine LeadsTo.wait (e := fun t => (inp t).ifetchReqReady) (fun t h he => ?_) (fun t h he => ?_)
    fun t _ => hw.fetchReady t
  all_goals
    obtain ⟨hh, hid, hin, hq⟩ := hstep t h
    rw [he] at hin hq
  · exact h.next hs hk hn hh.wb ⟨hh, hid, hin⟩
  · exact h.next hs hk hn hh.wb ⟨hh, hid, hin, hq rfl⟩

/-- The next instruction comes to WB. -/
theorem commits_of_onTrack (h : OnTrack mem₀ pc regs inp K n t) : ∃ u, t ≤ u ∧ Commits mem₀ pc regs inp K n u := by
  have hmem := mem_leadsTo hs hw hk hn
  have hex := (ex_leadsTo hs hk hn).trans hmem
  have hid := (id_leadsTo hs hk hn).trans hex
  have hfetch := (fetch_leadsTo hs hw hk hn).trans hid
  have hidle := (idle_leadsTo hs hw hk hn).trans hfetch
  have hstale := (stale_leadsTo hs hw hk hn).trans hidle
  cases hwb : (run pc regs inp t).wb.valid
  · cases hm : (run pc regs inp t).mem.valid
    · cases hx : (run pc regs inp t).ex.valid
      · have hh : Hollow (run pc regs inp t) := ⟨hx, hm, hwb⟩
        cases hv : (run pc regs inp t).id.valid
        · cases hin : (run pc regs inp t).fetch.inflight
          · exact hidle t ⟨h, hwb, hh, hv, hin⟩
          · cases hq : (run pc regs inp t).fetch.squash
            · exact hfetch t ⟨h, hwb, hh, hv, hin, hq⟩
            · exact hstale t ⟨h, hwb, hh, hv, hin, hq⟩
        · exact hid t ⟨h, hwb, hh, hv⟩
      · exact hex t ⟨h, hwb, hm, hx⟩
    · exact hmem t ⟨h, hwb, hm⟩
  · exact ⟨t, Nat.le_refl t, h, hwb⟩

omit hn in
/-- All of the first `K` instructions come to WB. -/
theorem commits_all {k : Nat} (hkk : k < K) : ∃ u, Commits mem₀ pc regs inp K k u := by
  induction k with
  | zero =>
      obtain ⟨u, -, hu⟩ := commits_of_onTrack hs hw hk hkk onTrack_zero
      exact ⟨u, hu⟩
  | succ k ih =>
      obtain ⟨u, hu⟩ := ih (by omega)
      have hb : behind k (run pc regs inp u) = k + 1 := by simp [behind, hu.wb]
      have hnext := hu.track.step hs hk (by omega) (by rw [hb]; exact hkk)
      rw [hb] at hnext
      obtain ⟨v, -, hv⟩ := commits_of_onTrack hs hw hk hkk hnext
      exact ⟨v, hv⟩

end

end QinglongCore.CorePipeline
