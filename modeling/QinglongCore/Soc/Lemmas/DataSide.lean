import QinglongCore.Mmu.Lemmas.Forwarding
import QinglongCore.Mmu.Lemmas.Walks
import QinglongCore.Rtl.Soc
import QinglongCore.Pipeline.Lemmas.Spacing

/-!
# The data side of the MMU under a beat in MEM

A beat is accepted by the request register, walks, leaves the register, and is answered. What holds in each
of these phases is one invariant of the system.
-/

namespace QinglongCore.Soc

open CorePipeline (memBusy dmemReqValid memRspThisCycle wbRedirect)

variable {pc : Word} {regs : RegFile} {payload : Mmu.Req} {inp : Nat → In} {s : State} {i : In} {t : Nat}

/-! ## The core of the system -/

theorem core_run (t : Nat) : (run pc regs payload inp t).core =
    CorePipeline.run pc regs (fun t => coreIn (run pc regs payload inp t) (inp t)) t := by
  induction t with
  | zero => rfl
  | succ t ih =>
      have h : (run pc regs payload inp (t + 1)).core =
        CorePipeline.step (run pc regs payload inp t).core (coreIn (run pc regs payload inp t) (inp t)) := rfl
      rw [h, ih]
      rfl

theorem spaced_core (t : Nat) : CorePipeline.Spaced (run pc regs payload inp t).core := by
  rw [core_run]
  exact CorePipeline.spaced_run t

/-! ## Wires -/

/-- The branch of the data side; it does not depend on the buses. -/
def dmBranch (s : State) : Mmu.Branch :=
  s.mmu.dms.branch (ctx s.core.csr) (Mmu.dmAccess (ctx s.core.csr)) (dmPort s .ready)

theorem dmBranch_eq (i : In) :
    s.mmu.dms.branch (ctx s.core.csr) (Mmu.dmAccess (ctx s.core.csr)) (dmPort s i) = dmBranch s := rfl

theorem dmOut_eq : dmOut s i =
    s.mmu.dms.out (ctx s.core.csr) (Mmu.dmAccess (ctx s.core.csr)) (dmPort s i) := rfl

/-- The PMP denies the request in the register. -/
def dmKill (s : State) : Bool :=
  s.mmu.dms.pmpKillComb (ctx s.core.csr) (Mmu.dmAccess (ctx s.core.csr)) (dmPort s .ready)

/-- The context of the MMU only changes with an instruction in WB. -/
theorem ctx_of_wb_empty (h : s.core.wb.valid = false) : ctx (step s i).core.csr = ctx s.core.csr := by
  have hstep : (step s i).core.csr = Csr.step s.core.csr i.ext (CorePipeline.csrIn s.core) := rfl
  rw [hstep, CorePipeline.csrStep_of_idle h]
  rfl

theorem sfence_of_wb_empty (h : s.core.wb.valid = false) : (sfence s).valid = false := by
  simp [sfence, CorePipeline.wbIsSfence, h]

theorem not_kill (hp : s.mmu.dms.pmpPending = false) (hk : dmKill s = false) (i : In) :
    s.mmu.dms.pmpKill (ctx s.core.csr) (Mmu.dmAccess (ctx s.core.csr)) (dmPort s i) = false := by
  rw [Mmu.Side.pmpKill, hp, Bool.or_false]; exact hk

theorem dmKill_of_no_req (h : s.pipe.valid = false) : dmKill s = false :=
  Mmu.Side.pmpKillComb_of_no_req h

/-- The PMP denies no request that waits. -/
theorem dmKill_of_wait (hb : dmBranch s = .wait) : dmKill s = false := by
  obtain ⟨ha, hh, hl⟩ := Mmu.Side.branch_wait_iff.mp hb
  have hh' : s.mmu.dms.hit (ctx s.core.csr) (dmPort s .ready) = none := by simpa using hh
  cases hq : s.pipe.valid
  · exact dmKill_of_no_req hq
  · have hq' : (dmPort s .ready).reqValid = true := hq
    simp only [Mmu.Side.cacheLive, hq', Bool.not_true, Bool.false_or] at hl
    have hu : (s.mmu.dms.xlate.valid && !s.mmu.dms.xlate.fault && s.mmu.dms.vaMatch (dmPort s .ready)) = false := by
      rw [Bool.and_right_comm, hl, Bool.false_and]
    have haddr := Mmu.Side.pmpAddr_of_not_go (p := dmPort s .ready) ha (Mmu.Side.tlbGo_of_miss hh')
    rw [hu] at haddr
    simp [dmKill, Mmu.Side.pmpKillComb, haddr]

/-! ## The invariant -/

/-- The walk that runs is that of the request in the register, which waits for it. -/
structure Walking (s : State) : Prop where
  req : s.pipe.valid = true
  wait : dmBranch s = .wait
  va : s.mmu.ptw.va = s.pipe.req.addr
  effPriv : s.mmu.ptw.effPriv = (ctx s.core.csr).dmEffPriv
  isStore : s.mmu.ptw.isStore = s.pipe.req.wen
  isFetch : s.mmu.ptw.isFetch = false

structure DmInv (s : State) : Prop where
  pending : s.mmu.dms.pmpPending = false
  valid_fired : s.pipe.valid = true → s.core.bus.reqFired = true
  fired_req : s.core.bus.reqFired = true → s.pipe.req = coreDmReq s
  walking : s.mmu.ptw.state ≠ .idle → s.mmu.ptw.side = true → Walking s
  /-- A fault in the walk-result registers is about to be answered. -/
  faulted : s.mmu.dms.xlate.valid = true → s.mmu.dms.xlate.fault = true →
    s.pipe.valid = true ∧ (dmBranch s).refuses = true
  /-- A request that has left the register passed, and its response will. -/
  passing : s.core.bus.reqFired = true → s.pipe.valid = false → (dmBranch s).passes = true

theorem dmInv_reset (pc : Word) (regs : RegFile) (payload : Mmu.Req) : DmInv (reset pc regs payload) := by
  constructor <;> simp [reset, CorePipeline.reset, Mmu.reset, Mmu.Side.reset]

/-! ## The MMU -/

/-- What a walk for the data side leaves at its end. -/
def dmWalk (s : State) (i : In) : Option Mmu.Xlate :=
  if s.mmu.ptw.side then Mmu.walkXlate s.mmu (mmuIn s i) s.mmu.dms.xlate else none
def dmFill (s : State) (i : In) : Option Mmu.TlbEntry :=
  if s.mmu.ptw.side then Mmu.walkFill s.mmu (mmuIn s i) else none

theorem step_dmXlate : (step s i).mmu.dms.xlate =
    s.mmu.dms.xlateNext (ctx s.core.csr) (Mmu.dmAccess (ctx s.core.csr)) (dmPort s i) (dmWalk s i) := rfl

theorem step_dmXlate_of_wait (hb : dmBranch s = .wait) :
    (step s i).mmu.dms.xlate = (dmWalk s i).getD s.mmu.dms.xlate := by
  rw [step_dmXlate]
  exact Mmu.Side.xlateNext_of_wait ((dmBranch_eq i).trans hb)

theorem step_dmTlb : (step s i).mmu.dms.tlb = s.mmu.dms.tlbNext (sfence s) (dmFill s i) := rfl

theorem step_ptw : (step s i).mmu.ptw = Mmu.ptwNext s.mmu (mmuIn s i) := rfl

theorem step_pipe : (step s i).pipe = pipeNext s i := rfl

theorem dmFill_of_no_walk (h : dmWalk s i = none) : dmFill s i = none := by
  cases hs : s.mmu.ptw.side <;> simp only [dmWalk, dmFill, hs, ↓reduceIte, Bool.false_eq_true] at h ⊢
  exact Mmu.walkFill_of_no_end h

theorem dmWalk_elim {y : Mmu.Xlate} (h : dmWalk s i = some y) :
    s.mmu.ptw.side = true ∧ s.mmu.ptw.state ≠ .idle ∧
      Mmu.walkXlate s.mmu (mmuIn s i) s.mmu.dms.xlate = some y := by
  cases hs : s.mmu.ptw.side <;> simp only [dmWalk, hs, ↓reduceIte, Bool.false_eq_true, reduceCtorEq] at h
  refine ⟨rfl, ?_, h⟩
  intro hi
  simp [Mmu.walkXlate, hi] at h

theorem DmInv.no_walk (h : DmInv s) (hb : dmBranch s ≠ .wait) (i : In) : dmWalk s i = none := by
  cases hw : dmWalk s i with
  | none => rfl
  | some y =>
      obtain ⟨hs, hn, -⟩ := dmWalk_elim hw
      exact absurd (h.walking hn hs).wait hb

theorem DmInv.pending_step (h : DmInv s) (i : In) : (step s i).mmu.dms.pmpPending = false := by
  have hs : (step s i).mmu.dms.pmpPending = s.mmu.dms.pmpPendingNext (ctx s.core.csr)
    (Mmu.dmAccess (ctx s.core.csr)) (dmPort s i) := rfl
  have hr : (dmPort s i).rspReady = true := rfl
  rw [hs]
  simp [Mmu.Side.pmpPendingNext, hr, h.pending]

/-- A walk for the data side that runs in the next cycle is that of a waiting request, and has not ended. -/
theorem DmInv.ptw_step (h : DmInv s) (hn : (step s i).mmu.ptw.state ≠ .idle)
    (hs : (step s i).mmu.ptw.side = true) :
    s.pipe.valid = true ∧ dmBranch s = .wait ∧ dmWalk s i = none ∧
      (step s i).mmu.ptw.va = s.pipe.req.addr ∧
      (step s i).mmu.ptw.effPriv = (ctx s.core.csr).dmEffPriv ∧
      (step s i).mmu.ptw.isStore = s.pipe.req.wen ∧ (step s i).mmu.ptw.isFetch = false := by
  have hnw : s.mmu.ptw.side = true → dmWalk s i = none := by
    intro hside
    cases hw : dmWalk s i with
    | none => rfl
    | some y =>
        obtain ⟨-, -, hx⟩ := dmWalk_elim hw
        exact absurd (Mmu.ptwNext_of_walkXlate hx) hn
  rw [step_ptw] at hn hs ⊢
  by_cases hidle : s.mmu.ptw.state = .idle
  · rcases Mmu.ptwNext_idle (i := mmuIn s i) hidle with ⟨-, he⟩ | ⟨-, hd, he⟩ | ⟨-, -, he⟩
    · rw [he] at hs; simp at hs
    · obtain ⟨hq, ha, hh, hl⟩ := Mmu.needsWalk_elim hd
      have hwalk : dmWalk s i = none := by
        cases hw : dmWalk s i with
        | none => rfl
        | some y => exact absurd hidle (dmWalk_elim hw).2.1
      rw [he]
      exact ⟨hq, Mmu.Side.branch_wait_iff.mpr ⟨ha, hh, hl⟩, hwalk, rfl, rfl, rfl, rfl⟩
    · rw [he] at hn; exact absurd hidle hn
  · have hkeep : (Mmu.ptwNext s.mmu (mmuIn s i)).side = s.mmu.ptw.side ∧
        (Mmu.ptwNext s.mmu (mmuIn s i)).va = s.mmu.ptw.va ∧
        (Mmu.ptwNext s.mmu (mmuIn s i)).effPriv = s.mmu.ptw.effPriv ∧
        (Mmu.ptwNext s.mmu (mmuIn s i)).isStore = s.mmu.ptw.isStore ∧
        (Mmu.ptwNext s.mmu (mmuIn s i)).isFetch = s.mmu.ptw.isFetch := Mmu.ptwNext_keep hidle
    rw [hkeep.1] at hs
    have hw := h.walking hidle hs
    exact ⟨hw.req, hw.wait, hnw hs, hkeep.2.1.trans hw.va, hkeep.2.2.1.trans hw.effPriv,
      hkeep.2.2.2.1.trans hw.isStore, hkeep.2.2.2.2.trans hw.isFetch⟩

/-! ## The core -/

theorem wb_empty_of_fired (hsp : CorePipeline.Spaced s.core) (hf : s.core.bus.reqFired = true) :
    s.core.wb.valid = false := by
  have hm : s.core.mem.valid = true := by
    have h := hsp.fired_busy hf
    simp only [memBusy, Bool.and_eq_true] at h; exact h.1
  cases hw : s.core.wb.valid
  · rfl
  · rw [hsp.unfired_behind_wb hm hw] at hf; simp at hf

/-- Without a response and a redirect a beat stays in MEM as it is, and is accepted when its request is. -/
theorem beat_stays (hb : memBusy s.core = true) (hw : wbRedirect s.core = false)
    (hr : (dmOut s i).rspValid = false) :
    (step s i).core.mem = s.core.mem ∧ (step s i).core.bus.amoOld = s.core.bus.amoOld ∧
      (step s i).core.bus.reqFired = (dmPipeUpFire s i || s.core.bus.reqFired) := by
  have hrsp : memRspThisCycle s.core (coreIn s i) = false := by
    simp [memRspThisCycle, coreIn, hr]
  have hst : CorePipeline.stallMem s.core = true := by simp [CorePipeline.stallMem, hb]
  refine ⟨?_, ?_, ?_⟩
  · have h : (step s i).core.mem = CorePipeline.memNext s.core (coreIn s i) := rfl
    rw [h]
    simp [CorePipeline.memNext, hst, hw, CorePipeline.memHold, hrsp]
  · have h : (step s i).core.bus = CorePipeline.busNext s.core (coreIn s i) := rfl
    rw [h]
    simp [CorePipeline.busNext, hw, hst, hrsp]
  · have h : (step s i).core.bus = CorePipeline.busNext s.core (coreIn s i) := rfl
    have hacc : CorePipeline.dmemAccept s.core (coreIn s i) = dmPipeUpFire s i := rfl
    rw [h]
    simp only [CorePipeline.busNext, hw, hrsp, hacc, Bool.false_eq_true, ↓reduceIte]
    cases dmPipeUpFire s i <;> simp

theorem coreDmReq_of_beat (hm : (step s i).core.mem = s.core.mem)
    (ha : (step s i).core.bus.amoOld = s.core.bus.amoOld) : coreDmReq (step s i) = coreDmReq s := by
  unfold coreDmReq CorePipeline.dmemReqAddr CorePipeline.dmemReqWen CorePipeline.dmemReqWdata
    CorePipeline.dmemReqWmask CorePipeline.dmemReqSize CorePipeline.memIsStoreOp
    CorePipeline.memAmoStoreBeat
  rw [hm, ha]

/-- A response ends the acceptance of the beat. -/
theorem unfired_of_rsp (hb : memBusy s.core = true) (hr : (dmOut s i).rspValid = true) :
    (step s i).core.bus.reqFired = false := by
  have hrsp : memRspThisCycle s.core (coreIn s i) = true := by
    simp only [memBusy, Bool.and_eq_true] at hb
    simp [memRspThisCycle, coreIn, hr, hb.1, hb.2]
  have h : (step s i).core.bus = CorePipeline.busNext s.core (coreIn s i) := rfl
  rw [h]
  simp [CorePipeline.busNext, hrsp]

theorem unfired_of_no_beat (hf : s.core.bus.reqFired = false) (hq : dmemReqValid s.core = false) :
    (step s i).core.bus.reqFired = false := by
  have h : (step s i).core.bus = CorePipeline.busNext s.core (coreIn s i) := rfl
  have hacc : CorePipeline.dmemAccept s.core (coreIn s i) = false := by simp [CorePipeline.dmemAccept, hq]
  rw [h]
  simp [CorePipeline.busNext, hacc, hf]

theorem memBusy_of_req (h : dmemReqValid s.core = true) : memBusy s.core = true := by
  simp only [dmemReqValid, Bool.and_eq_true] at h
  simp [memBusy, h.1.1.1, h.1.2]

/-! ## Phases -/

theorem no_upFire_of_fired (hf : s.core.bus.reqFired = true) : dmPipeUpFire s i = false := by
  simp [dmPipeUpFire, dmemReqValid, hf]

theorem step_pipe_of_fired (hf : s.core.bus.reqFired = true) :
    (step s i).pipe = if dmPipeDnFire s i then ⟨false, s.pipe.req⟩ else s.pipe := by
  rw [step_pipe, pipeNext, no_upFire_of_fired hf]
  rfl

/-- An accepted beat without a response keeps its request and its context. -/
theorem fired_stays (hsp : CorePipeline.Spaced s.core) (hf : s.core.bus.reqFired = true)
    (hr : (dmOut s i).rspValid = false) :
    (step s i).core.bus.reqFired = true ∧ coreDmReq (step s i) = coreDmReq s ∧
      ctx (step s i).core.csr = ctx s.core.csr ∧ (sfence s).valid = false := by
  have hwb := wb_empty_of_fired hsp hf
  have hw : wbRedirect s.core = false := by simp [wbRedirect, hwb]
  obtain ⟨hm, ha, hf'⟩ := beat_stays (hsp.fired_busy hf) hw hr
  refine ⟨?_, coreDmReq_of_beat hm ha, ctx_of_wb_empty hwb, sfence_of_wb_empty hwb⟩
  rw [hf', no_upFire_of_fired hf, hf]
  rfl

/-- The walk of the waiting request ends with a fault: the request is refused in the next cycle. -/
theorem Walking.refuses_of_fault {y : Mmu.Xlate} (hw : Walking s) (hwalk : dmWalk s i = some y)
    (hc : ctx (step s i).core.csr = ctx s.core.csr) (hf : (sfence s).valid = false)
    (hp : (step s i).pipe = s.pipe) (hfault : y.fault = true) : (dmBranch (step s i)).refuses = true := by
  obtain ⟨hside, -, hx⟩ := dmWalk_elim hwalk
  obtain ⟨ha, hh, -⟩ := Mmu.Side.branch_wait_iff.mp hw.wait
  have hmiss : ∀ k, Mmu.tlbMatch (s.mmu.dms.tlb k) s.pipe.req.addr (ctx s.core.csr).asid = false := by
    rw [← Mmu.lookup_none_iff]
    have hh' : s.mmu.dms.hit (ctx s.core.csr) (dmPort s .ready) = none := by simpa using hh
    exact hh'
  have hxl : (step s i).mmu.dms.xlate = y := by
    rw [step_dmXlate_of_wait hw.wait, hwalk]
    rfl
  have hend := Mmu.walk_end hx
  have hfill : dmFill s i = Mmu.walkFill s.mmu (mmuIn s i) := by simp [dmFill, hside]
  rw [dmBranch, Mmu.Side.branch_refuses_iff, hc]
  refine ⟨ha, ?_⟩
  have hhit : (step s i).mmu.dms.hit (ctx s.core.csr) (dmPort (step s i) .ready) =
      Mmu.lookup (s.mmu.dms.tlbNext (sfence s) (dmFill s i)) s.pipe.req.addr (ctx s.core.csr).asid := by
    rw [← step_dmTlb, ← hp]
    rfl
  rw [hhit, hfill]
  cases hfl : Mmu.walkFill s.mmu (mmuIn s i) with
  | none =>
      rw [Mmu.Side.tlbNext_quiet hf, Mmu.lookup_none_iff.mpr hmiss]
      have hva : (step s i).mmu.dms.vaMatch (dmPort (step s i) .ready) = true := by
        have h₁ : y.va = s.pipe.req.addr := (Mmu.walkXlate_va hx).trans hw.va
        have h₂ : (dmPort (step s i) .ready).req.addr = s.pipe.req.addr := by rw [← hp]; rfl
        simp [Mmu.Side.vaMatch, hxl, h₁, h₂]
      have hv := Mmu.walkXlate_valid hx
      simp [Mmu.Side.cacheLive, hva, hxl, hv, hfault]
  | some e =>
      rw [hfl] at hend
      obtain ⟨hm, -, hperm⟩ := hend
      rw [hw.va] at hm
      have hothers : ∀ k, k ≠ s.mmu.dms.repl → Mmu.tlbMatch (s.mmu.dms.tlbNext (sfence s) (some e) k)
          s.pipe.req.addr (ctx s.core.csr).asid = false := by
        intro k hk
        rw [Mmu.Side.tlbNext_fill hf, if_neg hk]
        exact hmiss k
      have hl := Mmu.lookup_of_only hothers
      rw [Mmu.Side.tlbNext_fill hf, if_pos rfl] at hl
      have hm' : Mmu.tlbMatch e s.pipe.req.addr (ctx s.core.csr).asid = true := hm
      rw [hl, if_pos hm']
      rw [hfault, hw.effPriv, hw.isStore, hw.isFetch] at hperm
      have hwen : (dmPort (step s i) .ready).req.wen = s.pipe.req.wen := by rw [← hp]; rfl
      rw [hwen]
      have hperm' : (!e.permOk (ctx s.core.csr) (Mmu.dmAccess (ctx s.core.csr)) s.pipe.req.wen) = true := hperm.symm
      simpa using hperm'

/-- A request that waits stays in the register. -/
theorem DmInv.wait_step (h : DmInv s) (hsp : CorePipeline.Spaced s.core) (hv : s.pipe.valid = true)
    (hb : dmBranch s = .wait) : DmInv (step s i) := by
  have hf := h.valid_fired hv
  have hkill := not_kill h.pending (dmKill_of_wait hb) i
  obtain ⟨hready, hrsp, -⟩ := Mmu.Side.out_of_wait hkill hb
  rw [← dmOut_eq] at hready hrsp
  obtain ⟨hf', hreq, hc, hsf⟩ := fired_stays hsp hf hrsp
  have hp : (step s i).pipe = s.pipe := by
    rw [step_pipe, pipeNext, no_upFire_of_fired hf]
    simp [dmPipeDnFire, hready]
  have hstay : dmWalk s i = none → dmBranch (step s i) = .wait := by
    intro hwalk
    rw [dmBranch, hc, ← hb]
    refine Mmu.Side.branch_congr ?_ ?_ ?_ ?_
    · rw [step_dmTlb, dmFill_of_no_walk hwalk, Mmu.Side.tlbNext_quiet hsf]
    · rw [step_dmXlate_of_wait hb, hwalk]; rfl
    · exact congrArg Pipe.req hp
    · exact congrArg Pipe.valid hp
  constructor
  · exact h.pending_step i
  · exact fun _ => hf'
  · intro _
    rw [hp, hreq]; exact h.fired_req hf
  · intro hn hs
    obtain ⟨-, -, hwalk, hva, hep, hst, hfe⟩ := h.ptw_step hn hs
    exact ⟨by rw [hp]; exact hv, hstay hwalk, by rw [hp]; exact hva, by rw [hc]; exact hep,
      by rw [hp]; exact hst, hfe⟩
  · intro hxv hxf
    refine ⟨by rw [hp]; exact hv, ?_⟩
    cases hwalk : dmWalk s i with
    | none =>
        rw [step_dmXlate_of_wait hb, hwalk] at hxv hxf
        have hr := (h.faulted hxv hxf).2
        rw [hb] at hr
        simp [Mmu.Branch.refuses] at hr
    | some y =>
        obtain ⟨hside, hn, -⟩ := dmWalk_elim hwalk
        rw [step_dmXlate_of_wait hb, hwalk] at hxf
        exact (h.walking hn hside).refuses_of_fault hwalk hc hsf hp hxf
  · intro _ hpv
    rw [hp, hv] at hpv; simp at hpv

/-- Without the end of a walk no fault is left in the walk-result registers. -/
theorem DmInv.not_faulted_step (h : DmInv s) (hwalk : dmWalk s i = none) :
    ¬ ((step s i).mmu.dms.xlate.valid = true ∧ (step s i).mmu.dms.xlate.fault = true) := by
  rw [step_dmXlate, hwalk]
  exact Mmu.Side.xlateNext_not_faulted rfl fun hv hf => h.faulted hv hf

theorem DmInv.not_walking_step (h : DmInv s) (hb : s.pipe.valid = false ∨ dmBranch s ≠ .wait)
    (hn : (step s i).mmu.ptw.state ≠ .idle) (hs : (step s i).mmu.ptw.side = true) : False := by
  obtain ⟨hv, hw, -⟩ := h.ptw_step hn hs
  rcases hb with hb | hb
  · rw [hv] at hb; simp at hb
  · exact hb hw

/-- The response of an accepted beat, which leaves the register with it or has left it. -/
theorem DmInv.answered_step (h : DmInv s) (hsp : CorePipeline.Spaced s.core)
    (hf : s.core.bus.reqFired = true) (hb : dmBranch s ≠ .wait) (hr : (dmOut s i).rspValid = true)
    (hleave : s.pipe.valid = true → (dmOut s i).reqReady = true) : DmInv (step s i) := by
  have hf' : (step s i).core.bus.reqFired = false := unfired_of_rsp (hsp.fired_busy hf) hr
  have hp : (step s i).pipe.valid = false := by
    rw [step_pipe, pipeNext, no_upFire_of_fired hf]
    cases hv : s.pipe.valid
    · simp [dmPipeDnFire, hv]
    · simp [dmPipeDnFire, hv, hleave hv]
  have hx := h.not_faulted_step (h.no_walk hb i)
  constructor
  · exact h.pending_step i
  · intro hv; rw [hp] at hv; simp at hv
  · intro hv; rw [hf'] at hv; simp at hv
  · exact fun hn hs => (h.not_walking_step (Or.inr hb) hn hs).elim
  · exact fun hxv hxf => absurd ⟨hxv, hxf⟩ hx
  · intro hv; rw [hf'] at hv; simp at hv

/-- A request that passes leaves the register when the bus takes it, and waits for its response. -/
theorem DmInv.pass_step (h : DmInv s) (hsp : CorePipeline.Spaced s.core)
    (hf : s.core.bus.reqFired = true) (hb : (dmBranch s).passes = true) (hk : dmKill s = false)
    (hd : i.dmRspValid = false) : DmInv (step s i) := by
  have hbw : dmBranch s ≠ .wait := by intro he; rw [he] at hb; simp [Mmu.Branch.passes] at hb
  have hout := Mmu.Side.out_of_passes (not_kill h.pending hk i) hb
  rw [← dmOut_eq] at hout
  have hrsp : (dmOut s i).rspValid = false := hout.2.1.trans hd
  obtain ⟨hf', hreq, hc, hsf⟩ := fired_stays hsp hf hrsp
  have hpr : (step s i).pipe.req = s.pipe.req := by
    rw [step_pipe, pipeNext, no_upFire_of_fired hf]
    cases dmPipeDnFire s i <;> rfl
  have hwalk := h.no_walk hbw i
  have hx := h.not_faulted_step hwalk
  constructor
  · exact h.pending_step i
  · exact fun _ => hf'
  · intro _; rw [hpr, hreq]; exact h.fired_req hf
  · exact fun hn hs => (h.not_walking_step (Or.inr hbw) hn hs).elim
  · exact fun hxv hxf => absurd ⟨hxv, hxf⟩ hx
  · intro _ hpv
    rw [dmBranch, hc]
    refine Mmu.Side.passes_after hb ?_ hpr ?_ hpv
    · rw [step_dmTlb, dmFill_of_no_walk hwalk, Mmu.Side.tlbNext_quiet hsf]
    · intro hfw
      rw [step_dmXlate, hwalk]
      exact Mmu.Side.xlateNext_of_forward hfw hd

/-- No beat is accepted in MEM: nothing is in the register, and an address left there is not looked at. -/
theorem DmInv.idle_step (h : DmInv s) (hf : s.core.bus.reqFired = false)
    (hr : dmemReqValid s.core = true → (dmOut s i).rspValid = false)
    (hw : dmemReqValid s.core = true → wbRedirect s.core = false) : DmInv (step s i) := by
  have hp : s.pipe.valid = false := by
    cases hp : s.pipe.valid
    · rfl
    · rw [h.valid_fired hp] at hf; simp at hf
  have hup : dmPipeUpFire s i = dmemReqValid s.core := by
    simp [dmPipeUpFire, coreDmReqReady, hp]
  have hwalk : dmWalk s i = none := by
    cases hwalk : dmWalk s i with
    | none => rfl
    | some y =>
        obtain ⟨hside, hn, -⟩ := dmWalk_elim hwalk
        have hv := (h.walking hn hside).req
        rw [hp] at hv; simp at hv
  have hx := h.not_faulted_step hwalk
  cases hq : dmemReqValid s.core
  · rw [hq] at hup
    have hf' : (step s i).core.bus.reqFired = false := unfired_of_no_beat hf hq
    have hp' : (step s i).pipe.valid = false := by
      rw [step_pipe, pipeNext, hup]
      cases dmPipeDnFire s i <;> simp [hp]
    constructor
    · exact h.pending_step i
    · intro hv; rw [hp'] at hv; simp at hv
    · intro hv; rw [hf'] at hv; simp at hv
    · exact fun hn hs => (h.not_walking_step (Or.inl hp) hn hs).elim
    · exact fun hxv hxf => absurd ⟨hxv, hxf⟩ hx
    · intro hv; rw [hf'] at hv; simp at hv
  · rw [hq] at hup
    obtain ⟨hm, ha, hf'⟩ := beat_stays (memBusy_of_req hq) (hw hq) (hr hq)
    have hp' : (step s i).pipe = ⟨true, coreDmReq s⟩ := by
      rw [step_pipe, pipeNext, hup]; rfl
    constructor
    · exact h.pending_step i
    · intro _; rw [hf', hup]; rfl
    · intro _; rw [hp', coreDmReq_of_beat hm ha]
    · exact fun hn hs => (h.not_walking_step (Or.inl hp) hn hs).elim
    · exact fun hxv hxf => absurd ⟨hxv, hxf⟩ hx
    · intro _ hv; rw [hp'] at hv; simp at hv

end QinglongCore.Soc
