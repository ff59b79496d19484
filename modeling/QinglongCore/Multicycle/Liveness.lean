import QinglongCore.Pipeline.DropIn

/-!
# The multicycle core never stops

Between buses that go on accepting and answering, the multicycle core commits again and again, whatever the answers
say. Behind each commit it is in S_FETCH, where a pending interrupt commits at once.
-/

namespace QinglongCore.CoreMulticycle

open Sync (LeadsTo)

/-! ## Statement -/

section
variable (pc : Word) (regs : RegFile) (inp : Nat → In) (t : Nat)

/-- An instruction or a trap commits in cycle `t`. -/
def Commits : Prop := (commit (run pc regs inp t) (inp t)).valid = true

/-- What commits in cycle `t` is the interrupt that the CSR file has chosen, in front of the instruction at the pc. -/
def Interrupted : Prop := commit (run pc regs inp t) (inp t) =
  .trapped (run pc regs inp t).pc 0 (Csr.irqCause (run pc regs inp t).csr (inp t).ext)

/-- There is always a commit to come, and behind each of them an interrupt is not kept waiting. -/
structure Responsive : Prop where
  commits : ∀ t, ∃ v, t ≤ v ∧ Commits pc regs inp v
  interrupts : ∀ v, Commits pc regs inp v →
    Csr.irqPending (run pc regs inp (v + 1)).csr (inp (v + 1)).ext = true → Interrupted pc regs inp (v + 1)

/-- The state machine is in `f`. -/
def InFsm (f : Fsm) : Prop := (run pc regs inp t).fsm = f

/-- S_FETCH with or without a fetch in flight, whose answer is wanted or not. -/
structure InFetch (waits stale : Bool) : Prop where
  fsm : (run pc regs inp t).fsm = .fetch
  inflight : (run pc regs inp t).fetchInflight = waits
  squash : (run pc regs inp t).fetchSquash = stale

end

variable {pc : Word} {regs : RegFile} {inp : Nat → In} {s : State} {i : In} {t : Nat}

/-! ## One clock edge -/

/-- Every commit ends in S_FETCH. -/
theorem fetch_of_commit (h : (commit s i).valid = true) : (step s i).fsm = .fetch := by
  show fsmNext s i = .fetch
  unfold commit at h
  unfold fsmNext
  cases hf : s.fsm <;> simp only [hf] at h ⊢
  case fetch =>
    unfold commitFetch at h
    cases hirq : Csr.irqPending s.csr i.ext
    · cases hr : rspConsumable s i && (i.ifetchRspFault || i.ifetchRspPagefault)
      · simp [hirq, hr, Commit.none] at h
      · rw [Bool.and_eq_true] at hr
        simp [hr.2]
    · rfl
  case exec =>
    unfold commitExec at h
    unfold fsmExec
    cases hx : execTrap s i.ext
    · rw [hx] at h
      cases hk : kind s.instr <;> simp only [hk] at h ⊢ <;> simp [Commit.none] at h ⊢
      cases hsc : scHit s <;> simp [hsc] at h ⊢
    · rfl
  case mem =>
    unfold commitMem at h
    cases hr : i.dmemRspValid <;> cases hfail : dmemRspFails i <;> cases hrmw : s.lat.isRmw <;>
      simp [hr, hfail, hrmw, Commit.none] at h ⊢
  case amoStore => simp [Commit.none] at h
  case amoWait =>
    unfold commitAmoWait at h
    cases hr : i.dmemRspValid <;> simp [hr, Commit.none] at h ⊢
  case div =>
    unfold commitDiv at h
    cases hd : s.divUnit.done <;> simp [hd, Commit.none] at h ⊢

/-- In S_FETCH a pending interrupt commits. -/
theorem commit_of_irq (hf : s.fsm = .fetch) (hp : Csr.irqPending s.csr i.ext = true) :
    commit s i = .trapped s.pc 0 (Csr.irqCause s.csr i.ext) := by
  simp [commit, hf, commitFetch, hp]

/-- S_EXEC commits, keeps its request up, or goes on to wait for the bus or the divider. -/
theorem exec_cases (hf : s.fsm = .exec) : (commit s i).valid = true ∨ (step s i).fsm = .div ∧ divStart s i.ext = true ∨
    i.dmemReqReady = false ∧ (step s i).fsm = .exec ∨ (step s i).fsm = .mem ∧ dmemAccept s i = true := by
  have hc : commit s i = commitExec s i.ext := by simp [commit, hf]
  have hn : (step s i).fsm = fsmExec s i := by
    show fsmNext s i = fsmExec s i
    simp [fsmNext, hf]
  rw [hc, hn]
  cases hx : execTrap s i.ext
  · cases hk : kind s.instr <;> cases hr : i.dmemReqReady <;> cases hsc : scHit s <;>
      simp [commitExec, fsmExec, dmemAccept, dmemReqValid, execRequests, divStart, Commit.retired, hf, hx, hk, hr, hsc]
  · simp [commitExec, hx, Commit.trapped]

theorem mem_cases (hf : s.fsm = .mem) : (commit s i).valid = true ∨ (step s i).fsm = .amoStore ∨
    i.dmemRspValid = false ∧ (step s i).fsm = .mem := by
  have hc : commit s i = commitMem s i := by simp [commit, hf]
  rw [hc]
  show _ ∨ fsmNext s i = .amoStore ∨ _ ∧ fsmNext s i = .mem
  cases hr : i.dmemRspValid <;> cases hfail : dmemRspFails i <;> cases hrmw : s.lat.isRmw <;>
    cases hsc : s.lat.isSc <;> simp [commitMem, fsmNext, hf, hr, hfail, hrmw, hsc, Commit.trapped, Commit.retired]

theorem amoStore_cases (hf : s.fsm = .amoStore) : (step s i).fsm = .amoWait ∧ dmemAccept s i = true ∨
    i.dmemReqReady = false ∧ (step s i).fsm = .amoStore := by
  show fsmNext s i = .amoWait ∧ _ ∨ _ ∧ fsmNext s i = .amoStore
  cases hr : i.dmemReqReady <;> simp [fsmNext, dmemAccept, dmemReqValid, hf, hr]

theorem amoWait_cases (hf : s.fsm = .amoWait) : (commit s i).valid = true ∨
    i.dmemRspValid = false ∧ (step s i).fsm = .amoWait := by
  have hc : commit s i = commitAmoWait s i := by simp [commit, hf]
  rw [hc]
  show _ ∨ _ ∧ fsmNext s i = .amoWait
  cases hr : i.dmemRspValid <;> cases hfail : dmemRspFails i <;>
    simp [commitAmoWait, fsmNext, hf, hr, hfail, Commit.trapped, Commit.retired]

theorem div_cases (hf : s.fsm = .div) : (commit s i).valid = true ∨
    s.divUnit.done = false ∧ (step s i).fsm = .div := by
  have hc : commit s i = commitDiv s := by simp [commit, hf]
  rw [hc]
  show _ ∨ _ ∧ fsmNext s i = .div
  cases hd : s.divUnit.done <;> simp [commitDiv, fsmNext, hf, hd, Commit.retired]

/-! ## What is still to be answered -/

/-- A fetch in flight has a request that is not answered. -/
theorem fetches_of_inflight (t : Nat) :
    (run pc regs inp t).fetchInflight = true → Isa.fetches (shown pc regs inp) inp t ≠ [] := by
  induction t with
  | zero =>
      intro h
      simp [run, reset] at h
  | succ t ih =>
      intro h
      rcases inflight_cases (s := run pc regs inp t) h with ⟨-, ha⟩ | ⟨hi, hr⟩
      · exact InOrder.outstanding_of_issue (by simp [shown, shows, ha])
      · exact InOrder.outstanding_waits (ih hi) hr

/-- The core waits for the data bus when a request has been taken, or none has been answered. -/
theorem wait_cases (h : (step s i).fsm = .mem ∨ (step s i).fsm = .amoWait) :
    dmemAccept s i = true ∨ (s.fsm = .mem ∨ s.fsm = .amoWait) ∧ i.dmemRspValid = false := by
  have hc : (commit s i).valid = false := by
    cases hc : (commit s i).valid
    · rfl
    · rw [fetch_of_commit hc] at h
      simp at h
  cases hf : s.fsm
  case fetch =>
    have hn : fsmNext s i = .mem ∨ fsmNext s i = .amoWait := h
    simp only [fsmNext, hf] at hn
    split_ifs at hn <;> simp at hn
  case exec =>
    rcases exec_cases (i := i) hf with hv | ⟨hn, -⟩ | ⟨-, hn⟩ | ⟨-, ha⟩
    · rw [hc] at hv
      simp at hv
    · simp [hn] at h
    · simp [hn] at h
    · exact .inl ha
  case mem =>
    rcases mem_cases (i := i) hf with hv | hn | ⟨hr, -⟩
    · rw [hc] at hv
      simp at hv
    · simp [hn] at h
    · exact .inr ⟨.inl rfl, hr⟩
  case amoStore =>
    rcases amoStore_cases (i := i) hf with ⟨-, ha⟩ | ⟨-, hn⟩
    · exact .inl ha
    · simp [hn] at h
  case amoWait =>
    rcases amoWait_cases (i := i) hf with hv | ⟨hr, -⟩
    · rw [hc] at hv
      simp at hv
    · exact .inr ⟨.inr rfl, hr⟩
  case div =>
    rcases div_cases (i := i) hf with hv | ⟨-, hn⟩
    · rw [hc] at hv
      simp at hv
    · simp [hn] at h

/-- A wait for the data bus has a request that is not answered. -/
theorem requests_of_wait (t : Nat) : InFsm pc regs inp t .mem ∨ InFsm pc regs inp t .amoWait →
    Isa.requests (shown pc regs inp) inp t ≠ [] := by
  induction t with
  | zero =>
      intro h
      simp [InFsm, run, reset] at h
  | succ t ih =>
      intro h
      rcases wait_cases (s := run pc regs inp t) h with ha | ⟨hw, hr⟩
      · exact InOrder.outstanding_of_issue (by simp [shown, shows, ha])
      · exact InOrder.outstanding_waits (ih hw) hr

/-- In S_DIV the divider is at work or done. -/
theorem working_of_div (t : Nat) : InFsm pc regs inp t .div →
    (run pc regs inp t).divUnit.done = true ∨ (run pc regs inp t).divUnit.state ≠ .idle := by
  induction t with
  | zero =>
      intro h
      simp [InFsm, run, reset] at h
  | succ t ih =>
      intro h
      have hn : (step (run pc regs inp t) (inp t)).fsm = .div := h
      show (DivUnit.step (run pc regs inp t).divUnit (divIn (run pc regs inp t) (inp t).ext)).done = true ∨
        (DivUnit.step (run pc regs inp t).divUnit (divIn (run pc regs inp t) (inp t).ext)).state ≠ .idle
      cases hf : (run pc regs inp t).fsm
      case exec =>
        rcases exec_cases (i := inp t) hf with hv | ⟨-, hd⟩ | ⟨-, hn'⟩ | ⟨hn', -⟩
        · rw [fetch_of_commit hv] at hn
          simp at hn
        · exact DivUnit.step_of_start hd
        · rw [hn'] at hn
          simp at hn
        · rw [hn'] at hn
          simp at hn
      case div =>
        rcases div_cases (i := inp t) hf with hv | ⟨hd, -⟩
        · rw [fetch_of_commit hv] at hn
          simp at hn
        · rcases ih hf with hd' | hb
          · rw [hd] at hd'
            simp at hd'
          · exact (DivUnit.step_of_busy hb _).imp_right And.left
      case fetch =>
        have hn' : fsmNext (run pc regs inp t) (inp t) = .div := hn
        simp only [fsmNext, hf] at hn'
        split_ifs at hn'
      case mem =>
        rcases mem_cases (i := inp t) hf with hv | hn' | ⟨-, hn'⟩
        · rw [fetch_of_commit hv] at hn
          simp at hn
        all_goals
          rw [hn'] at hn
          simp at hn
      case amoStore =>
        rcases amoStore_cases (i := inp t) hf with ⟨hn', -⟩ | ⟨-, hn'⟩
        all_goals
          rw [hn'] at hn
          simp at hn
      case amoWait =>
        rcases amoWait_cases (i := inp t) hf with hv | ⟨-, hn'⟩
        · rw [fetch_of_commit hv] at hn
          simp at hn
        · rw [hn'] at hn
          simp at hn

/-! ## From state to state -/

theorem fetchTidy_run (t : Nat) : FetchTidy (run pc regs inp t) := by
  induction t with
  | zero => constructor <;> simp [run, reset]
  | succ t ih => exact fetchTidy_step ih

theorem commits_of_irq (hf : (run pc regs inp t).fsm = .fetch)
    (hp : Csr.irqPending (run pc regs inp t).csr (inp t).ext = true) : Commits pc regs inp t := by
  rw [Commits, commit_of_irq hf hp]
  rfl

/-- The divider comes to its end. -/
theorem div_leadsTo : LeadsTo (InFsm pc regs inp · .div) (Commits pc regs inp) := by
  refine LeadsTo.falls
    (fun t => if (run pc regs inp t).divUnit.done then 0 else DivUnit.remaining (run pc regs inp t).divUnit + 1)
    fun r t ⟨hf, hr⟩ => ?_
  rcases div_cases (i := inp t) hf with hv | ⟨hd, hn⟩
  · exact ⟨t, Nat.le_refl t, .inl hv⟩
  · refine ⟨t + 1, by omega, .inr ⟨hn, ?_⟩⟩
    have hb := (working_of_div t hf).resolve_left (by simp [hd])
    have hu : (run pc regs inp (t + 1)).divUnit =
        DivUnit.step (run pc regs inp t).divUnit (divIn (run pc regs inp t) (inp t).ext) := rfl
    simp only [hd, Bool.false_eq_true, if_false] at hr
    simp only [hu]
    rcases DivUnit.step_of_busy hb (divIn (run pc regs inp t) (inp t).ext) with hdone | ⟨-, hlt⟩
    · simp only [hdone, if_true]
      omega
    · split_ifs <;> omega

section
variable (hw : Isa.Willing (shown pc regs inp) inp)

include hw

theorem amoWait_leadsTo : LeadsTo (InFsm pc regs inp · .amoWait) (Commits pc regs inp) :=
  LeadsTo.unless (e := fun t => (inp t).dmemRspValid)
    (fun _ hf => (amoWait_cases hf).imp_right .inr) fun t hf => hw.dataPrompt t (requests_of_wait t (.inr hf))

theorem amoStore_leadsTo : LeadsTo (InFsm pc regs inp · .amoStore) (Commits pc regs inp) := by
  have hgo : LeadsTo (InFsm pc regs inp · .amoStore) (InFsm pc regs inp · .amoWait) :=
    LeadsTo.unless (e := fun t => (inp t).dmemReqReady)
      (fun _ hf => .inr ((amoStore_cases hf).imp_left And.left)) fun t _ => hw.dataReady t
  exact hgo.trans (amoWait_leadsTo hw)

theorem mem_leadsTo : LeadsTo (InFsm pc regs inp · .mem) (Commits pc regs inp) := by
  have hgo : LeadsTo (InFsm pc regs inp · .mem) fun t => Commits pc regs inp t ∨ InFsm pc regs inp t .amoStore := by
    refine LeadsTo.unless (e := fun t => (inp t).dmemRspValid) (fun t hf => ?_)
      fun t hf => hw.dataPrompt t (requests_of_wait t (.inl hf))
    rcases mem_cases (i := inp t) hf with hv | hn | hn
    · exact .inl (.inl hv)
    · exact .inr (.inl (.inr hn))
    · exact .inr (.inr hn)
  exact hgo.orElse (amoStore_leadsTo hw)

theorem exec_leadsTo : LeadsTo (InFsm pc regs inp · .exec) (Commits pc regs inp) := by
  have hgo : LeadsTo (InFsm pc regs inp · .exec)
      fun t => Commits pc regs inp t ∨ InFsm pc regs inp t .div ∨ InFsm pc regs inp t .mem := by
    refine LeadsTo.unless (e := fun t => (inp t).dmemReqReady) (fun t hf => ?_) fun t _ => hw.dataReady t
    rcases exec_cases (i := inp t) hf with hv | ⟨hn, -⟩ | hn | ⟨hn, -⟩
    · exact .inl (.inl hv)
    · exact .inr (.inl (.inr (.inl hn)))
    · exact .inr (.inr hn)
    · exact .inr (.inl (.inr (.inr hn)))
  refine hgo.orElse fun t hf => ?_
  rcases hf with hf | hf
  · exact div_leadsTo t hf
  · exact mem_leadsTo hw t hf

/-- A wanted answer starts the instruction, or its fault commits. -/
theorem wanted_leadsTo : LeadsTo (InFetch pc regs inp · true false) (Commits pc regs inp) := by
  have hgo : LeadsTo (InFetch pc regs inp · true false)
      fun t => Commits pc regs inp t ∨ InFsm pc regs inp t .exec := by
    refine LeadsTo.unless (e := fun t => (inp t).ifetchRspValid) (fun t h => ?_)
      fun t h => hw.fetchPrompt t (fetches_of_inflight t h.inflight)
    cases hirq : Csr.irqPending (run pc regs inp t).csr (inp t).ext
    · cases hr : (inp t).ifetchRspValid
      · refine .inr (.inr ⟨rfl, ?_, ?_, (squash_stays hirq hr).trans h.squash⟩)
        · show fsmNext _ _ = .fetch
          simp [fsmNext, h.fsm, rspConsumable, hr]
        · show fetchInflightNext _ _ = true
          simp [fetchInflightNext, h.inflight, hr]
      · have hc : rspConsumable (run pc regs inp t) (inp t) = true := by
          simp [rspConsumable, hr, h.inflight, h.squash]
        cases hfault : (inp t).ifetchRspFault || (inp t).ifetchRspPagefault
        · refine .inr (.inl (.inr ?_))
          show fsmNext _ _ = .exec
          simp [fsmNext, h.fsm, hirq, hc, hfault]
        · refine .inl (.inl ?_)
          rw [Commits]
          simp [commit, h.fsm, commitFetch, hirq, hc, hfault, Commit.trapped]
    · exact .inl (.inl (commits_of_irq h.fsm hirq))
  exact hgo.orElse (exec_leadsTo hw)

/-- Without a fetch in flight the instruction at the pc is asked for. -/
theorem asks_leadsTo : LeadsTo (InFetch pc regs inp · false false) (Commits pc regs inp) := by
  have hgo : LeadsTo (InFetch pc regs inp · false false)
      fun t => Commits pc regs inp t ∨ InFetch pc regs inp t true false := by
    refine LeadsTo.unless (e := fun t => (inp t).ifetchReqReady) (fun t h => ?_) fun t _ => hw.fetchReady t
    cases hirq : Csr.irqPending (run pc regs inp t).csr (inp t).ext
    · have hfsm : (run pc regs inp (t + 1)).fsm = .fetch := by
        show fsmNext _ _ = .fetch
        simp [fsmNext, h.fsm, rspConsumable, h.inflight]
      have hsq : (run pc regs inp (t + 1)).fetchSquash = false := by
        show fetchSquashNext _ _ = false
        simp [fetchSquashNext, h.inflight, h.squash]
      have hin : (run pc regs inp (t + 1)).fetchInflight = (inp t).ifetchReqReady := by
        show fetchInflightNext _ _ = _
        cases hr : (inp t).ifetchReqReady <;>
          simp [fetchInflightNext, ifetchAccept, ifetchReqValid, h.fsm, h.inflight, hirq, hr]
      cases hr : (inp t).ifetchReqReady
      · exact .inr (.inr ⟨rfl, hfsm, hin.trans hr, hsq⟩)
      · exact .inr (.inl (.inr ⟨hfsm, hin.trans hr, hsq⟩))
    · exact .inl (.inl (commits_of_irq h.fsm hirq))
  exact hgo.orElse (wanted_leadsTo hw)

/-- The answer to a fetch that an interrupt has overtaken is dropped. -/
theorem stale_leadsTo : LeadsTo (InFetch pc regs inp · true true) (Commits pc regs inp) := by
  have hgo : LeadsTo (InFetch pc regs inp · true true)
      fun t => Commits pc regs inp t ∨ InFetch pc regs inp t false false := by
    refine LeadsTo.unless (e := fun t => (inp t).ifetchRspValid) (fun t h => ?_)
      fun t h => hw.fetchPrompt t (fetches_of_inflight t h.inflight)
    cases hirq : Csr.irqPending (run pc regs inp t).csr (inp t).ext
    · have hfsm : (run pc regs inp (t + 1)).fsm = .fetch := by
        show fsmNext _ _ = .fetch
        simp [fsmNext, h.fsm, rspConsumable, h.squash]
      have hin : (run pc regs inp (t + 1)).fetchInflight = !(inp t).ifetchRspValid := by
        show fetchInflightNext _ _ = _
        cases hr : (inp t).ifetchRspValid <;> simp [fetchInflightNext, h.inflight, hr]
      have hsq : (run pc regs inp (t + 1)).fetchSquash = !(inp t).ifetchRspValid := by
        show fetchSquashNext _ _ = _
        cases hr : (inp t).ifetchRspValid <;> simp [fetchSquashNext, h.inflight, h.squash, hirq, hr]
      cases hr : (inp t).ifetchRspValid <;> rw [hr] at hin hsq
      · exact .inr (.inr ⟨rfl, hfsm, hin, hsq⟩)
      · exact .inr (.inl (.inr ⟨hfsm, hin, hsq⟩))
    · exact .inl (.inl (commits_of_irq h.fsm hirq))
  exact hgo.orElse (asks_leadsTo hw)

end

/-! ## Theorem -/

/-- Between buses that go on accepting and answering there is always a commit to come, and directly behind each commit
an interrupt that is pending commits. -/
theorem multicycle_responsive (pc : Word) (regs : RegFile) (inp : Nat → In)
    (hw : Isa.Willing (shown pc regs inp) inp) : Responsive pc regs inp where
  commits t := by
    cases hf : (run pc regs inp t).fsm
    case exec => exact exec_leadsTo hw t hf
    case mem => exact mem_leadsTo hw t hf
    case amoStore => exact amoStore_leadsTo hw t hf
    case amoWait => exact amoWait_leadsTo hw t hf
    case div => exact div_leadsTo t hf
    case fetch =>
      cases hin : (run pc regs inp t).fetchInflight
      · have hsq : (run pc regs inp t).fetchSquash = false := by
          cases hsq : (run pc regs inp t).fetchSquash
          · rfl
          · rw [(fetchTidy_run t).squash hsq] at hin
            simp at hin
        exact asks_leadsTo hw t ⟨hf, hin, hsq⟩
      · cases hsq : (run pc regs inp t).fetchSquash
        · exact wanted_leadsTo hw t ⟨hf, hin, hsq⟩
        · exact stale_leadsTo hw t ⟨hf, hin, hsq⟩
  interrupts _ hv hp := commit_of_irq (fetch_of_commit hv) hp

/-- `csrrwi mie, 2`, `csrrwi mip, 2`, `csrrwi mstatus, 8`: the third one lets the interrupt in. -/
def raising (a : Word) : Word :=
  if a = RESET_PC then 0x30415073#32 else if a = RESET_PC + 4 then 0x34415073#32
  else if a = RESET_PC + 8 then 0x30045073#32 else 0x00000013#32

/-- The third instruction commits in cycle 8, the interrupt in cycle 9. -/
theorem multicycle_responsive_raising :
    Responsive RESET_PC (fun _ => 0) (multicycleBench raising 0 RESET_PC fun _ => 0).inp ∧
      Interrupted RESET_PC (fun _ => 0) (multicycleBench raising 0 RESET_PC fun _ => 0).inp 9 := by
  have h : Responsive RESET_PC (fun _ => 0) (multicycleBench raising 0 RESET_PC fun _ => 0).inp :=
    multicycle_responsive _ _ _ (by rw [multicycleBench_shown]; exact Isa.Bench.willing _)
  exact ⟨h, h.interrupts 8 (by unfold Commits; decide +kernel) (by decide +kernel)⟩

end QinglongCore.CoreMulticycle
