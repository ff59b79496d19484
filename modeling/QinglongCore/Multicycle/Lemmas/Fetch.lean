import Mathlib.Tactic.Common
import QinglongCore.Rtl.CoreMulticycle

/-!
# The fetch registers of the multicycle core

What one clock edge does to `fetch_inflight_q`, `fetch_squash_q` and the program counter.
-/

namespace QinglongCore.CoreMulticycle

variable {s : State} {i : In}

theorem request_elim {e : Ext} (h : ifetchReqValid s e = true) : s.fsm = .fetch ∧ Csr.irqPending s.csr e = false := by
  simpa [ifetchReqValid] using h

theorem request_intro {e : Ext} (hf : s.fsm = .fetch) (hirq : Csr.irqPending s.csr e = false) :
    ifetchReqValid s e = true := by
  simp [ifetchReqValid, hf, hirq]

/-- A fetch is in flight behind the edge if it starts in this cycle or still waits. -/
theorem inflight_cases (h : (step s i).fetchInflight = true) :
    (s.fetchInflight = false ∧ ifetchAccept s i = true) ∨ (s.fetchInflight = true ∧ i.ifetchRspValid = false) := by
  have hn : fetchInflightNext s i = true := h
  unfold fetchInflightNext at hn
  split_ifs at hn with ha hr
  · simp only [Bool.and_eq_true, Bool.not_eq_true'] at ha
    exact .inl ⟨ha.2.2, ha.2.1⟩
  · rw [hn] at hr
    exact .inr ⟨hn, by simpa using hr⟩

theorem inflight_of_accept (hi : s.fetchInflight = false) (ha : ifetchAccept s i = true) :
    (step s i).fetchInflight = true := by
  have hf : s.fsm = .fetch := by
    simp only [ifetchAccept, Bool.and_eq_true] at ha
    exact (request_elim ha.1).1
  show fetchInflightNext s i = true
  simp [fetchInflightNext, hf, ha, hi]

theorem squash_cases (h : (step s i).fetchSquash = true) :
    (s.fetchInflight = true ∧ i.ifetchRspValid = false) ∨
      (s.fetchSquash = true ∧ (s.fetchInflight = true → i.ifetchRspValid = false)) := by
  have hn : fetchSquashNext s i = true := h
  unfold fetchSquashNext at hn
  split_ifs at hn with hq hr
  · simp only [Bool.and_eq_true, Bool.not_eq_true'] at hq
    exact .inl ⟨hq.2.1.2, hq.2.2⟩
  · refine .inr ⟨hn, fun hi => ?_⟩
    rw [hi] at hr
    simpa using hr

/-- An interrupt leaves no fetch in flight that is not squashed. -/
theorem squash_of_irq (hf : s.fsm = .fetch) (hirq : Csr.irqPending s.csr i.ext = true)
    (h : (step s i).fetchInflight = true) : (step s i).fetchSquash = true := by
  have hw : s.fetchInflight = true ∧ i.ifetchRspValid = false := by
    rcases inflight_cases h with ⟨-, ha⟩ | hw
    · simp [ifetchAccept, ifetchReqValid, hirq] at ha
    · exact hw
  show fetchSquashNext s i = true
  simp [fetchSquashNext, hf, hirq, hw]

theorem squash_stays (hirq : Csr.irqPending s.csr i.ext = false) (hr : i.ifetchRspValid = false) :
    (step s i).fetchSquash = s.fetchSquash := by
  show fetchSquashNext s i = s.fetchSquash
  simp [fetchSquashNext, hirq, hr]

theorem not_consumable (h : (step s i).fetchInflight = true) : rspConsumable s i = false := by
  rcases inflight_cases h with ⟨hi, -⟩ | ⟨-, hr⟩
  · simp [rspConsumable, hi]
  · simp [rspConsumable, hr]

/-- A request in a cycle that leaves a fetch in flight is not abandoned by the edge. -/
theorem fetch_kept {e : Ext} (he : e = i.ext) (hreq : ifetchReqValid s e = true) (h : rspConsumable s i = false) :
    (commit s i).valid = false ∧ (step s i).pc = s.pc ∧ (step s i).fsm = .fetch := by
  subst he
  obtain ⟨hf, hirq⟩ := request_elim hreq
  have hc : (commit s i).valid = false := by simp [commit, commitFetch, Commit.none, hf, hirq, h]
  refine ⟨hc, ?_, ?_⟩
  · show pcNext s i = s.pc
    simp [pcNext, hc]
  · show fsmNext s i = .fetch
    simp [fsmNext, hf, h]

/-- S_EXEC is entered with the answer to a fetch in flight. -/
theorem enter_exec (hf : s.fsm = .fetch) (h : (step s i).fsm = .exec) :
    Csr.irqPending s.csr i.ext = false ∧ rspConsumable s i = true ∧ i.ifetchRspFault = false ∧
      i.ifetchRspPagefault = false ∧ (step s i).instr = i.ifetchRspData := by
  have hn : fsmNext s i = .exec := h
  simp only [fsmNext, hf] at hn
  split_ifs at hn with hc
  simp only [Bool.and_eq_true, Bool.not_eq_true', Bool.or_eq_false_iff] at hc
  obtain ⟨⟨hirq, hr⟩, hfault, hpf⟩ := hc
  refine ⟨hirq, hr, hfault, hpf, ?_⟩
  show instrNext s i = i.ifetchRspData
  simp [instrNext, hf, hirq, hr, hfault, hpf]

theorem irqCause_ne (e : Ext) : Csr.irqCause s.csr e ≠ CAUSE_INSN_ACCESS_FAULT := by
  unfold Csr.irqCause
  split_ifs <;> decide

/-- An access-fault trap of S_FETCH is the answer to a fetch in flight. -/
theorem fetch_fault_elim (hf : s.fsm = .fetch) (hv : (commit s i).trap = true)
    (hc : (commit s i).cause = CAUSE_INSN_ACCESS_FAULT) :
    Csr.irqPending s.csr i.ext = false ∧ rspConsumable s i = true ∧ i.ifetchRspFault = true := by
  simp only [commit, hf, commitFetch] at hv hc
  split_ifs at hv hc with hirq hr hp
  · exact absurd hc (irqCause_ne i.ext)
  · exact absurd (show CAUSE_INSN_PAGE_FAULT = CAUSE_INSN_ACCESS_FAULT from hc) (by decide)
  · simp only [Bool.and_eq_true, Bool.or_eq_true] at hr
    exact ⟨by simpa using hirq, hr.1, hr.2.resolve_right hp⟩
  · simp [Commit.none] at hv

theorem fetch_fault_intro (hf : s.fsm = .fetch) (hirq : Csr.irqPending s.csr i.ext = false)
    (hr : rspConsumable s i = true) (hfault : i.ifetchRspFault = true) (hpf : i.ifetchRspPagefault = false) :
    (commit s i).trap = true ∧ (commit s i).cause = CAUSE_INSN_ACCESS_FAULT := by
  simp [commit, hf, commitFetch, hirq, hr, hfault, hpf, Commit.trapped]

/-- No fetch is in flight outside S_FETCH, and only a fetch in flight is squashed. -/
structure FetchTidy (s : State) : Prop where
  inflight : s.fetchInflight = true → s.fsm = .fetch
  squash : s.fetchSquash = true → s.fetchInflight = true

theorem fetchTidy_step (h : FetchTidy s) : FetchTidy (step s i) := by
  constructor
  · intro hn
    have hf : s.fsm = .fetch := by
      rcases inflight_cases hn with ⟨-, ha⟩ | ⟨hi, -⟩
      · simp only [ifetchAccept, Bool.and_eq_true] at ha
        exact (request_elim ha.1).1
      · exact h.inflight hi
    show fsmNext s i = .fetch
    simp [fsmNext, hf, not_consumable hn]
  · intro hq
    have hw : s.fetchInflight = true ∧ i.ifetchRspValid = false := by
      rcases squash_cases hq with hw | ⟨hs, hr⟩
      · exact hw
      · exact ⟨h.squash hs, hr (h.squash hs)⟩
    show fetchInflightNext s i = true
    simp [fetchInflightNext, hw]

end QinglongCore.CoreMulticycle
