import QinglongCore.Pipeline.Lemmas.Orderly
import QinglongCore.Pipeline.Liveness
import QinglongCore.Pipeline.Privileged

/-!
# Pending interrupts are taken

A pending interrupt enters as soon as EX, MEM and WB are empty and no fetch is on its way. Only code that runs straight
on keeps the pipe from becoming empty, so that nothing else comes before the interrupt.
-/

namespace QinglongCore.CorePipeline

/-! ## Statement -/

section
variable (pc : Word) (regs : RegFile) (inp : Nat → In) (t v : Nat)

/-- The first commit after cycle `t` is in cycle `v`. -/
structure NextCommit : Prop where
  later : t < v
  commit : (run pc regs inp v).wb.valid = true
  between : ∀ u, t < u → u < v → (run pc regs inp u).wb.valid = false

/-- From the cycle after `t` on an interrupt is pending, in each cycle up to the next commit. -/
def PendingAfter : Prop := ∀ u, t < u → (∀ w, t < w → w ≤ u → (run pc regs inp w).wb.valid = false) →
  Csr.irqPending (run pc regs inp u).csr (inp u).ext = true

/-- The commit of cycle `v` is of the word behind that of cycle `t`, which neither redirects nor is serialised. -/
structure RunsOn : Prop where
  straight : wbRedirect (run pc regs inp t) = false
  plain : Decode.isSerial (run pc regs inp t).wb.instr = false
  behind : (run pc regs inp v).wb.pc = (run pc regs inp t).wb.pc + 4

end

variable {pc : Word} {regs : RegFile} {inp : Nat → In} {s : State} {i : In} {t u v : Nat}

/-! ## An interrupt alone in the pipe -/

/-- EX, MEM and WB are empty, or the oldest instruction there is an interrupt. -/
inductive OnlyIrq (s : State) : Prop
  | hollow (h : Hollow s)
  | ex (valid : s.ex.valid = true) (irq : s.ex.ctrl.irq = true) (cause : s.ex.irqCause.msb = true)
      (mem : s.mem.valid = false) (wb : s.wb.valid = false)
  | mem (valid : s.mem.valid = true) (trap : s.mem.trap = true) (cause : s.mem.cause.msb = true)
      (wb : s.wb.valid = false)
  | wb (h : irqTrapWb s = true)

theorem preempts_run (t : Nat) : Preempts inp t (run pc regs inp t) := by
  induction t with
  | zero => exact preempts_reset pc regs
  | succ t ih => exact preempts_step ih (spaced_run t)

/-- An interrupt bubble is no division, so that it leaves EX at once. -/
theorem Spaced.stallEx_of_irq (h : Spaced s) (hv : s.ex.valid = true) (hq : s.ex.ctrl.irq = true) :
    stallEx s = false := by
  rw [h.stallEx_of_ex hv]
  obtain ⟨id, m, d₁, d₂, he, hirq⟩ := h.ex_decoded hv
  have hd : s.ex.ctrl.isDiv = false := by
    rw [he] at hq ⊢
    show Decode.isDiv id.instr = false
    rw [hirq hq]
    decide
  simp [exDivStall, hd]

/-- While an interrupt is pending, nothing but an interrupt leaves an empty pipe. -/
theorem OnlyIrq.of_hollow (h : Hollow s) (hsp : Spaced s) (htr : TrapAhead s)
    (hcause : s.id.valid = true → s.id.irq = true → s.id.irqCause.msb = true)
    (hp : Csr.irqPending s.csr i.ext = true) : OnlyIrq (step s i) := by
  cases hid : s.id.valid
  · exact .hollow (h.step hid i)
  · have hin : s.fetch.inflight = false := by
      cases hin : s.fetch.inflight
      · rfl
      · rw [hsp.fetch_id hin] at hid
        simp at hid
    cases hq : s.id.irq
    · -- the instruction in ID gives way
      have ha : allowIrqInject s i.ext = true := by
        simp [allowIrqInject, hp, h.ex, h.mem, h.wb, hin, h.no_trap htr, hq]
      exact .hollow (h.inject ha).1
    · have ha : allowIrqInject s i.ext = false := by simp [allowIrqInject, hq]
      obtain ⟨hwb, hm, hx⟩ := h.ex_of_id hid ha
      have he : (CorePipeline.step s i).ex = exAdvance s i.ext := by
        rcases exNext_valid hx with ⟨-, hx', -⟩ | ⟨-, -, -, -, -, he⟩
        · rw [h.ex] at hx'
          simp at hx'
        · exact he
      refine .ex hx ?_ ?_ hm hwb
      · rw [he]; exact hq
      · rw [he]; exact hcause hid hq

theorem OnlyIrq.step (h : OnlyIrq s) (hsp : Spaced s) (htr : TrapAhead s) (hwb : s.wb.valid = false)
    (hcause : s.id.valid = true → s.id.irq = true → s.id.irqCause.msb = true)
    (hp : Csr.irqPending s.csr i.ext = true) : OnlyIrq (step s i) := by
  have hw : wbRedirect s = false := by simp [wbRedirect, hwb]
  cases h with
  | hollow h => exact of_hollow h hsp htr hcause hp
  | ex hv hq hc hm _ =>
      have he : (CorePipeline.step s i).mem = memAdvance s := memNext_of_ex hw hv (hsp.stallEx_of_irq hv hq)
      refine .mem ?_ ?_ ?_ (wbNext_empty (.inl hm))
      · rw [he]; rfl
      · rw [he]; exact exTrap_of_irq hv hq
      · have hmc : (memAdvance s).cause = s.ex.irqCause := by
          simp [memAdvance, ExMem.ofEx, exTrapInfo, IdEx.trapInfo, hv, hq]
        rw [he, hmc]
        exact hc
  | mem hv ht hc _ =>
      have he : (CorePipeline.step s i).wb = MemWb.ofMem s.mem s.bus :=
        wbNext_of_mem hw hv (hsp.stallMem_of_trap hv ht)
      have hcw : (MemWb.ofMem s.mem s.bus).cause = s.mem.cause := by
        simp [MemWb.ofMem, (hsp.mem_origin hv).trap_no_bus ht, MemWb.payload]
      refine .wb ?_
      rw [irqTrapWb, trapTakeWb, he, ofMem_valid, (hsp.mem_origin hv).ofMem_trap _ ht, hcw, hc]
      rfl
  | wb h =>
      rw [(irqTrapWb_elim h).1] at hwb
      simp at hwb

/-- From an empty pipe on, the next commit is the interrupt. -/
theorem irq_of_hollow (hh : Hollow (run pc regs inp (t + 1))) (hp : PendingAfter pc regs inp t)
    (hn : NextCommit pc regs inp t v) : irqTrapWb (run pc regs inp v) = true := by
  have hall : ∀ u, t + 1 ≤ u → u ≤ v → OnlyIrq (run pc regs inp u) := by
    intro u htu
    induction u, htu using Nat.le_induction with
    | base => exact fun _ => .hollow hh
    | succ u htu ih =>
        intro huv
        refine (ih (by omega)).step (spaced_run u) (trapAhead_run u) (hn.between u (by omega) (by omega))
          (fun hv hq => ?_) (hp u (by omega) fun w hw hwu => hn.between w hw (by omega))
        rw [((preempts_run u).id hv hq).2.2]
        exact Csr.irqCause_msb _ _
  cases hall v hn.later (Nat.le_refl v) with
  | hollow h =>
      have hv := hn.commit
      rw [h.wb] at hv
      simp at hv
  | ex _ _ _ _ hwb =>
      rw [hn.commit] at hwb
      simp at hwb
  | mem _ _ _ hwb =>
      rw [hn.commit] at hwb
      simp at hwb
  | wb h => exact h

/-! ## Behind a commit -/

/-- Nothing behind a taken jump has been fetched yet. -/
structure Vacant (s : State) : Prop where
  ex : s.ex.valid = false
  id : s.id.valid = false
  fetch : s.fetch.inflight = true → s.fetch.squash = true

/-- Behind an instruction in MEM or WB stands the word behind it, or it has jumped and the pipe is vacant. -/
structure Sequel (s : State) : Prop where
  mem : s.mem.valid = true → s.mem.trap = false → afterMem s = s.mem.pc + 4 ∨ stallMem s = false ∧ Vacant s
  wb : s.wb.valid = true → s.wb.trap = false →
    behindPc s = s.wb.pc + 4 ∨ s.mem.valid = false ∧ s.ex.valid = false ∧ s.id.valid = false

/-- Only the instruction in ID enters an empty EX. -/
theorem exNext_empty (hx : s.ex.valid = false) (hid : s.id.valid = false) : (exNext s i).valid = false := by
  cases hv : (exNext s i).valid
  · rfl
  · rcases exNext_valid hv with ⟨-, hx', -⟩ | ⟨hid', -⟩
    · rw [hx] at hx'
      simp at hx'
    · rw [hid] at hid'
      simp at hid'

theorem Drained.sequel (h : Drained s) : Sequel s where
  mem hv := by simp [h.mem] at hv
  wb hv := by simp [h.wb] at hv

/-- A jump makes no access and writes no CSR, so that it does not stall MEM. -/
theorem stallMem_of_jump (hd : s.ex.Decoded) (hb : branchRedirect s = true) (hm : (step s i).mem = memAdvance s) :
    stallMem (step s i) = false := by
  obtain ⟨-, hc, -, -⟩ := branchRedirect_elim hb
  obtain ⟨id, m, d₁, d₂, he, -⟩ := hd
  have ho : opcode id.instr = OP_BRANCH ∨ opcode id.instr = OP_JAL ∨ opcode id.instr = OP_JALR := by
    rw [he] at hc
    simpa [IdEx.ofId, Ctrl.ofId, Decode.isBranch, Decode.isJal, Decode.isJalr, or_assoc] using hc
  have hi : (memAdvance s).instr = id.instr := by rw [memAdvance_instr, he]; rfl
  have hl : (memAdvance s).lsPending = false := by
    simp only [memAdvance, ExMem.ofEx, he, IdEx.ofId, Ctrl.ofId]
    rcases ho with ho | ho | ho <;>
      simp [Decode.isLoad, Decode.isStore, Decode.isLr, Decode.isSc, Decode.isAmoRmw, Decode.isAmoW, Decode.isAmo, ho,
        OP_BRANCH, OP_JAL, OP_JALR, OP_LOAD, OP_STORE, OP_AMO]
  have hs : (opcode id.instr == OP_SYSTEM) = false := by
    rcases ho with ho | ho | ho <;> rw [ho] <;> decide
  rw [stallMem, memBusy, memStallForIfetchDrain, memIsCsrwSatp, memIsCsrOp, hm, hl, hi, hs]
  simp

theorem Vacant.of_branch (hsp : Spaced s) (hb : branchRedirect s = true) (i : In) : Vacant (step s i) := by
  have hid : s.id.valid = false := by
    cases hid : s.id.valid
    · rfl
    · rw [hsp.branchRedirect_of_id hid] at hb
      simp at hb
  refine ⟨?_, ?_, fun hin => ?_⟩
  · rw [step_ex]
    simp [exNext, (branchRedirect_elim hb).2.2.2, idWillBubble, hid, IdEx.bubble]
  · rw [step_id]
    simp [idNext, flushId, hb]
  · rw [step_fetch]
    rcases fetchNext_inflight hin with ⟨ha, -⟩ | ⟨-, -, -, -, hs⟩
    · simp [(ifetchAccept_elim ha).2.2.1] at hb
    · simp [hs, flushId, hb]

/-- While something is in MEM, what follows a jump is only on its way. -/
theorem Vacant.step (h : Vacant s) (hm : s.mem.valid = true) (i : In) :
    (CorePipeline.step s i).mem.valid = (stallMem s && !wbRedirect s) ∧ (CorePipeline.step s i).ex.valid = false ∧
      (CorePipeline.step s i).id.valid = false := by
  refine ⟨?_, exNext_empty h.ex h.id, ?_⟩
  · rw [step_mem]
    cases hv : (memNext s i).valid
    · cases hst : stallMem s
      · rfl
      · cases hw : wbRedirect s
        · rw [memNext_of_stall hw hst, memHold_valid, hm] at hv
          simp at hv
        · rfl
    · obtain ⟨hw, ⟨hst, -⟩ | ⟨-, hx, -⟩⟩ := memNext_valid hv
      · rw [hst, hw]
        rfl
      · rw [h.ex] at hx
        simp at hx
  · rw [step_id]
    cases hv : (idNext s i).valid
    · rfl
    · obtain ⟨-, ⟨hid, -⟩ | ⟨-, ha, -⟩ | ⟨-, -, hr, -⟩⟩ := idNext_valid hv
      · rw [h.id] at hid
        simp at hid
      · rw [(allowIrqInject_elim ha).2.2.1] at hm
        simp at hm
      · simp only [rspConsumable, rspArriving, Bool.and_eq_true, Bool.not_eq_true'] at hr
        rw [h.fetch hr.1.1] at hr
        simp at hr

theorem Sequel.step {u : Uses} (h : Sequel s) (hsp : Spaced s) (hc : Chained s u) (hw : wbRedirect s = false) (i : In) :
    Sequel (step s i) where
  mem hv ht := by
    have ht' : (memNext s i).trap = false := ht
    obtain ⟨-, ⟨hst, hm, he⟩ | ⟨hse, hx, he⟩⟩ := memNext_valid hv
    · rw [he, memHold_trap] at ht'
      rw [step_mem, he, memHold_pc, afterMem_step_of_stall hw (stallEx_of_stallMem hst)]
      rcases h.mem hm ht' with hpc | ⟨hst', -⟩
      · exact .inl hpc
      · rw [hst] at hst'
        simp at hst'
    · rw [he, memAdvance_trap] at ht'
      cases hb : branchRedirect s
      · left
        have hirq : s.ex.ctrl.irq = false := by
          cases hq : s.ex.ctrl.irq
          · rfl
          · rw [exTrap_of_irq hx hq] at ht'
            simp at ht'
        rw [step_mem, he, memAdvance_pc, afterMem_step hw hb hse]
        exact hc.ex hx hirq
      · exact .inr ⟨stallMem_of_jump (hsp.ex_decoded hx) hb he, Vacant.of_branch hsp hb i⟩
  wb hv ht := by
    obtain ⟨-, hm, hsm, he⟩ := wbNext_valid hv
    have htr : s.mem.trap = false := by
      cases htr : s.mem.trap
      · rfl
      · have ht' : (wbNext s).trap = false := ht
        rw [he, (hsp.mem_origin hm).ofMem_trap s.bus htr] at ht'
        simp at ht'
    rcases h.mem hm htr with hpc | ⟨-, hvac⟩
    · left
      rw [step_wb, he, ofMem_pc, behindPc_step hw hsm]
      exact hpc
    · right
      obtain ⟨hm', hx', hid'⟩ := hvac.step hm i
      rw [hsm] at hm'
      exact ⟨hm', hx', hid'⟩

/-! ## Runs -/

section
variable (hc : ∀ u, u ≤ t → wbRedirect (run pc regs inp u) = true → exDivStall (run pc regs inp u) = false)

include hc

theorem onPath_of_calm : OnPath pc regs inp t := by
  have hall : ∀ u, u ≤ t → OnPath pc regs inp u := by
    intro u hu
    induction u with
    | zero => exact onPath_zero
    | succ u ih => exact (ih (by omega)).step (hc u (by omega))
  exact hall t (Nat.le_refl t)

theorem sequel_of_calm : Sequel (run pc regs inp t) := by
  have hall : ∀ u, u ≤ t → Sequel (run pc regs inp u) := by
    intro u hu
    induction u with
    | zero => constructor <;> simp [run, reset]
    | succ u ih =>
        cases hw : wbRedirect (run pc regs inp u)
        · have hpath : OnPath pc regs inp u := onPath_of_calm fun w hw => hc w (by omega)
          exact (ih (by omega)).step (spaced_run u) hpath.chained hw (inp u)
        · exact ((spaced_run u).drained_of_redirect hw (hc u (by omega) hw)).sequel
  exact hall t (Nat.le_refl t)

/-- Behind a commit the pipe is empty, or the word behind it comes next. -/
theorem hollow_or_behind (hv : (run pc regs inp t).wb.valid = true) :
    Hollow (run pc regs inp (t + 1)) ∨ wbRedirect (run pc regs inp t) = false ∧
      Decode.isSerial (run pc regs inp t).wb.instr = false ∧
        headPc (run pc regs inp (t + 1)) = (run pc regs inp t).wb.pc + 4 := by
  cases hw : wbRedirect (run pc regs inp t)
  · cases hs : Decode.isSerial (run pc regs inp t).wb.instr
    · have ht : (run pc regs inp t).wb.trap = false := by
        cases ht : (run pc regs inp t).wb.trap
        · rfl
        · simp [wbRedirect, hv, ht] at hw
      have hstep : headPc (run pc regs inp (t + 1)) = behindPc (run pc regs inp t) := headPc_step hw (inp t)
      rcases (sequel_of_calm hc).wb hv ht with hpc | ⟨hm, hx, hid⟩
      · exact .inr ⟨rfl, rfl, hstep.trans hpc⟩
      · exact .inl ⟨exNext_empty hx hid, memNext_empty hm (.inr hx), wbNext_empty (.inl hm)⟩
    · -- a serialised instruction is alone, and holds ID
      left
      have hser : (run pc regs inp t).wb.isSerial = true := by rw [((spaced_run t).wb_origin hv).isSerial_eq]; exact hs
      obtain ⟨hx, hm⟩ := (serialAlone_run t).wb hv hser
      refine ⟨?_, memNext_empty hm (.inr hx), wbNext_empty (.inl hm)⟩
      show (exNext _ _).valid = false
      cases hxv : (exNext (run pc regs inp t) (inp t)).valid
      · rfl
      · have hx' := (exNext_of_serialInflight (by simp [serialInflight, hv, hser]) hxv).2
        rw [hx] at hx'
        simp at hx'
  · have hd : Drained (run pc regs inp (t + 1)) :=
      (spaced_run t).drained_of_redirect hw (hc t (Nat.le_refl t) hw)
    exact .inl ⟨hd.ex, hd.mem, hd.wb⟩

end

/-- The next commit is of the oldest instruction. -/
theorem NextCommit.pc_eq (h : NextCommit pc regs inp t v) :
    (run pc regs inp v).wb.pc = headPc (run pc regs inp (t + 1)) := by
  have hall : ∀ u, t + 1 ≤ u → u ≤ v → headPc (run pc regs inp u) = headPc (run pc regs inp (t + 1)) := by
    intro u htu
    induction u, htu using Nat.le_induction with
    | base => exact fun _ => rfl
    | succ u htu ih =>
        intro huv
        have hwb := h.between u (by omega) (by omega)
        have hstep : headPc (run pc regs inp (u + 1)) = behindPc (run pc regs inp u) :=
          headPc_step (by simp [wbRedirect, hwb]) (inp u)
        rw [hstep, ← headPc_of_no_wb hwb, ih (by omega)]
  rw [← hall v h.later (Nat.le_refl v), headPc_of_wb h.commit]

theorem nextCommit_exists (h : NeverStops pc regs inp) (t : Nat) : ∃ v, NextCommit pc regs inp t v := by
  have hex : ∃ v, t < v ∧ (run pc regs inp v).wb.valid = true := by
    obtain ⟨v, hv, hr⟩ := h (t + 1)
    refine ⟨v, hv, ?_⟩
    cases hw : (run pc regs inp v).wb.valid
    · simp [shown, shows, hw] at hr
    · rfl
  obtain ⟨htv, hv⟩ := Nat.find_spec hex
  refine ⟨Nat.find hex, htv, hv, fun u htu huv => ?_⟩
  have hno := Nat.find_min hex huv
  simpa [htu] using hno

/-! ## Theorem -/

/-- On buses that go on accepting and answering, as long as no redirect meets a division in EX, a pending interrupt is
what commits next, unless the instruction that has committed last runs straight on. -/
theorem interrupt_taken (pc : Word) (regs : RegFile) (inp : Nat → In) (t : Nat)
    (hw : Isa.Willing (shown pc regs inp) inp)
    (hc : ∀ u, u ≤ t → wbRedirect (run pc regs inp u) = true → exDivStall (run pc regs inp u) = false)
    (hv : (run pc regs inp t).wb.valid = true) (hp : PendingAfter pc regs inp t) :
    ∃ v, NextCommit pc regs inp t v ∧ (irqTrapWb (run pc regs inp v) = true ∨ RunsOn pc regs inp t v) := by
  obtain ⟨v, hn⟩ := nextCommit_exists (never_stops pc regs inp hw) t
  refine ⟨v, hn, ?_⟩
  rcases hollow_or_behind hc hv with hh | ⟨hr, hs, hpc⟩
  · exact .inl (irq_of_hollow hh hp hn)
  · exact .inr ⟨hr, hs, hn.pc_eq.trans hpc⟩

/-- The `csrrsi mstatus, 8` that commits in cycle 13 is serialised, so that the interrupt comes next. -/
theorem interrupt_taken_patching :
    ∃ v, NextCommit RESET_PC (fun _ => 0) (pipelineBench patching 0 RESET_PC fun _ => 0).inp 13 v ∧
      irqTrapWb (run RESET_PC (fun _ => 0) (pipelineBench patching 0 RESET_PC fun _ => 0).inp v) = true := by
  obtain ⟨v, hn, hv⟩ := interrupt_taken RESET_PC (fun _ => 0) (pipelineBench patching 0 RESET_PC fun _ => 0).inp 13
    (by rw [pipelineBench_shown]; exact Isa.Bench.willing _) (by decide +kernel) (by decide +kernel)
    (fun u hu hno => by
      rcases Nat.lt_or_ge u 18 with hlt | hge
      · have hall : ∀ u, u < 18 → 13 < u → Csr.irqPending
            (run RESET_PC (fun _ => 0) (pipelineBench patching 0 RESET_PC fun _ => 0).inp u).csr
            ((pipelineBench patching 0 RESET_PC fun _ => 0).inp u).ext = true := by decide +kernel
        exact hall u hlt hu
      · have hc : (run RESET_PC (fun _ => 0)
            (pipelineBench patching 0 RESET_PC fun _ => 0).inp 18).wb.valid = true := by
          decide +kernel
        rw [hno 18 (by omega) hge] at hc
        simp at hc)
  refine ⟨v, hn, hv.resolve_right fun hr => ?_⟩
  have hs : Decode.isSerial (run RESET_PC (fun _ => 0)
      (pipelineBench patching 0 RESET_PC fun _ => 0).inp 13).wb.instr = true := by decide +kernel
  rw [hr.plain] at hs
  simp at hs

end QinglongCore.CorePipeline
