import QinglongCore.Base.InOrder
import QinglongCore.Soc.Lemmas.DataSide

/-!
# Matching of data responses

A beat is named by the cycle in which the request register takes its request. The MMU decides by the address
in the register also when the register is empty, and the core takes any response while a beat is in MEM.
-/

namespace QinglongCore.Soc

open CorePipeline (memBusy dmemReqValid memRspThisCycle wbRedirect)

/-! ## Statement -/

section

variable (pc : Word) (regs : RegFile) (payload : Mmu.Req) (inp : Nat → In)

def dmOutAt (t : Nat) : Mmu.Out := dmOut (run pc regs payload inp t) (inp t)

/-- The beat whose request was taken last. -/
def beatOf : Nat → Nat
  | 0 => 0
  | t + 1 => if dmPipeUpFire (run pc regs payload inp t) (inp t) then t else beatOf t

def dmIssued (t : Nat) : Bool := (dmOutAt pc regs payload inp t).dsReqValid && (inp t).dmReqReady
def dmReturned (t : Nat) : Bool := (inp t).dmRspValid && (dmOutAt pc regs payload inp t).dsRspReady

abbrev dmOutstanding : Nat → List Nat :=
  InOrder.outstanding (dmIssued pc regs payload inp) (dmReturned pc regs payload inp)

/-- The data bus answers nothing that was not issued. -/
def DmBusAnswers (t : Nat) : Prop := (inp t).dmRspValid = true → dmOutstanding pc regs payload inp t ≠ []

instance (t : Nat) : Decidable (DmBusAnswers pc regs payload inp t) :=
  inferInstanceAs (Decidable (_ = true → _ ≠ []))

/-- The request of the beat in MEM was taken, and the response that the core takes is the MMU's own answer to
it as it leaves the register, or that of the bus to it. -/
def DmMatched (t : Nat) : Prop :=
  let s := run pc regs payload inp t
  let o := dmOutAt pc regs payload inp t
  memRspThisCycle s.core (coreIn s (inp t)) = true →
    s.core.bus.reqFired = true ∧ s.pipe.req = coreDmReq s ∧
      ((dmPipeDnFire s (inp t) = true ∧ dmIssued pc regs payload inp t = false ∧
          (o.rspFault || o.rspPagefault) = true) ∨
        ((∃ d, (dmOutstanding pc regs payload inp t).head? = some d ∧ d < t ∧
            beatOf pc regs payload inp d = beatOf pc regs payload inp t ∧
            beatOf pc regs payload inp t < d ∧ (run pc regs payload inp d).pipe.req = s.pipe.req) ∧
          dmReturned pc regs payload inp t = true ∧ o.rspData = (inp t).dmRspRdata ∧
          o.rspFault = (inp t).dmRspFault ∧ o.rspPagefault = false))

/-- Nothing that redirects retires while the request of the beat in MEM is to be taken. -/
def Undisturbed (s : State) : Prop := dmemReqValid s.core = true → wbRedirect s.core = false

instance (s : State) : Decidable (Undisturbed s) := inferInstanceAs (Decidable (_ = true → _ = false))

/-- The TLB denies the address left in the register while the request of the beat in MEM is to be taken. -/
def staleDenied (s : State) (i : In) : Bool :=
  dmemReqValid s.core && s.mmu.dms.tlbDeny (ctx s.core.csr) (Mmu.dmAccess (ctx s.core.csr)) (dmPort s i)

end

variable {pc : Word} {regs : RegFile} {payload : Mmu.Req} {inp : Nat → In} {s : State} {i : In} {t T : Nat}

/-! ## Answers -/

/-- An accepted beat is answered by the MMU as its request leaves the register, waits, or gets the answer of
the bus. -/
theorem DmInv.answer_cases (h : DmInv s) (hf : s.core.bus.reqFired = true) (i : In) :
    (s.pipe.valid = true ∧ dmBranch s ≠ .wait ∧ (dmOut s i).reqReady = true ∧ (dmOut s i).rspValid = true ∧
      (dmOut s i).dsReqValid = false ∧ ((dmOut s i).rspFault || (dmOut s i).rspPagefault) = true) ∨
    (s.pipe.valid = true ∧ dmBranch s = .wait ∧ (dmOut s i).rspValid = false ∧ (dmOut s i).reqReady = false ∧
      (dmOut s i).dsReqValid = false) ∨
    ((dmBranch s).passes = true ∧ dmKill s = false ∧ (dmOut s i).reqReady = i.dmReqReady ∧
      (dmOut s i).rspValid = i.dmRspValid ∧ (dmOut s i).rspData = i.dmRspRdata ∧
      (dmOut s i).rspFault = i.dmRspFault ∧ (dmOut s i).rspPagefault = false ∧
      (dmOut s i).dsReqValid = s.pipe.valid ∧ (dmOut s i).dsRspReady = true) := by
  have hpass : dmBranch s = .wait ∨ (dmBranch s).refuses = true → s.pipe.valid = true := by
    intro hb
    cases hv : s.pipe.valid
    · have hp := h.passing hf hv
      rcases hb with hb | hb
      · rw [hb] at hp; simp [Mmu.Branch.passes] at hp
      · exact absurd hp (Mmu.Branch.not_passes_of_refuses hb)
    · rfl
  cases hk : dmKill s
  · have hkill := not_kill h.pending hk i
    rcases Mmu.Branch.cases_kind (dmBranch s) with hb | hb | hb
    · obtain ⟨hr, hv, hd, hfa, hp, hq⟩ := Mmu.Side.out_of_passes hkill hb
      exact Or.inr (Or.inr ⟨hb, rfl, hr, hv, hd, hfa, hp, hq, Mmu.Side.dsRspReady_of_passes hkill hb⟩)
    · obtain ⟨hr, hv, -, hp, hq⟩ := Mmu.Side.out_of_refuses hkill hb
      have hne : dmBranch s ≠ .wait := by intro he; rw [he] at hb; simp [Mmu.Branch.refuses] at hb
      refine Or.inl ⟨hpass (Or.inr hb), hne, hr, hv, hq, ?_⟩
      rw [dmOut_eq, hp, Bool.or_true]
    · obtain ⟨hr, hv, hq⟩ := Mmu.Side.out_of_wait hkill hb
      exact Or.inr (Or.inl ⟨hpass (Or.inl hb), hb, hv, hr, hq⟩)
  · have hkill : s.mmu.dms.pmpKill (ctx s.core.csr) (Mmu.dmAccess (ctx s.core.csr)) (dmPort s i) = true := by
      rw [Mmu.Side.pmpKill, h.pending, Bool.or_false]; exact hk
    obtain ⟨hr, hv, hfa, -, hq⟩ := Mmu.Side.out_of_kill hkill
    have hne : dmBranch s ≠ .wait := by intro he; rw [dmKill_of_wait he] at hk; simp at hk
    have hval : s.pipe.valid = true := by
      cases hval : s.pipe.valid
      · rw [dmKill_of_no_req hval] at hk; simp at hk
      · rfl
    refine Or.inl ⟨hval, hne, hr, hv, hq, ?_⟩
    rw [dmOut_eq, hfa, Bool.true_or]

theorem DmInv.pipe_empty (h : DmInv s) (hf : s.core.bus.reqFired = false) : s.pipe.valid = false := by
  cases hp : s.pipe.valid
  · rfl
  · rw [h.valid_fired hp] at hf; simp at hf

/-- With the register empty and the bus silent, the MMU answers exactly where the TLB denies the address left
in the register. -/
theorem DmInv.idle_rsp (h : DmInv s) (hf : s.core.bus.reqFired = false) (hd : i.dmRspValid = false) :
    (dmOut s i).rspValid =
      s.mmu.dms.tlbDeny (ctx s.core.csr) (Mmu.dmAccess (ctx s.core.csr)) (dmPort s i) := by
  have hkill := not_kill h.pending (dmKill_of_no_req (h.pipe_empty hf)) i
  have hden : s.mmu.dms.tlbDeny (ctx s.core.csr) (Mmu.dmAccess (ctx s.core.csr)) (dmPort s i) = true ↔
      (dmBranch s).refuses = true := by
    rw [Mmu.Side.tlbDeny_iff, dmBranch, Mmu.Side.branch_refuses_iff]
    refine and_congr_right fun ha => ?_
    have hhit : s.mmu.dms.hit (ctx s.core.csr) (dmPort s i) =
      s.mmu.dms.hit (ctx s.core.csr) (dmPort s .ready) := rfl
    have hwen : (dmPort s i).req.wen = (dmPort s .ready).req.wen := rfl
    rw [hhit, hwen]
    cases hh : s.mmu.dms.hit (ctx s.core.csr) (dmPort s .ready) with
    | some e => simp
    | none =>
        simp only [reduceCtorEq, false_and, exists_false, false_iff]
        rintro ⟨hl, hfault⟩
        simp only [Mmu.Side.cacheLive, Bool.and_eq_true] at hl
        have hv := (h.faulted hl.1 hfault).1
        rw [h.pipe_empty hf] at hv
        simp at hv
  rw [Bool.eq_iff_iff, hden, dmOut_eq]
  rcases Mmu.Branch.cases_kind (dmBranch s) with hb | hb | hb
  · have hv : (dmPort s i).dsRspValid = false := hd
    have hnr : ¬ (dmBranch s).refuses = true := fun hr => Mmu.Branch.not_passes_of_refuses hr hb
    rw [(Mmu.Side.out_of_passes hkill hb).2.1, hv]
    simp [hnr]
  · simp [(Mmu.Side.out_of_refuses hkill hb).2.1, hb]
  · simp [(Mmu.Side.out_of_wait hkill hb).2.1, hb, Mmu.Branch.refuses]

/-! ## Runs -/

/-- The invariant holds, and the bus owes an answer exactly for an accepted beat that has left the register. -/
structure DmRun (pc : Word) (regs : RegFile) (payload : Mmu.Req) (inp : Nat → In) (t : Nat) : Prop where
  inv : DmInv (run pc regs payload inp t)
  taken : (run pc regs payload inp t).core.bus.reqFired = true → beatOf pc regs payload inp t < t
  owed : (run pc regs payload inp t).core.bus.reqFired = true → (run pc regs payload inp t).pipe.valid = false →
    ∃ d, dmOutstanding pc regs payload inp t = [d] ∧ d < t ∧
      beatOf pc regs payload inp d = beatOf pc regs payload inp t ∧ beatOf pc regs payload inp t < d ∧
      (run pc regs payload inp d).pipe.req = (run pc regs payload inp t).pipe.req
  free : (run pc regs payload inp t).core.bus.reqFired = false ∨ (run pc regs payload inp t).pipe.valid = true →
    dmOutstanding pc regs payload inp t = []

theorem dmRun_zero : DmRun pc regs payload inp 0 where
  inv := dmInv_reset pc regs payload
  taken h := by simp [run, reset, CorePipeline.reset] at h
  owed h := by simp [run, reset, CorePipeline.reset] at h
  free _ := rfl

theorem DmRun.silent (h : DmRun pc regs payload inp t) (hb : DmBusAnswers pc regs payload inp t)
    (hf : (run pc regs payload inp t).core.bus.reqFired = false ∨ (run pc regs payload inp t).pipe.valid = true) :
    (inp t).dmRspValid = false := by
  cases hd : (inp t).dmRspValid
  · rfl
  · exact absurd (h.free hf) (hb hd)

theorem issued_of_fired (hq : (dmOutAt pc regs payload inp t).dsReqValid = false) :
    dmIssued pc regs payload inp t = false := by
  rw [dmIssued, hq, Bool.false_and]

theorem beatOf_of_fired (hf : (run pc regs payload inp t).core.bus.reqFired = true) :
    beatOf pc regs payload inp (t + 1) = beatOf pc regs payload inp t := by
  rw [beatOf, no_upFire_of_fired hf]
  rfl

/-- No beat is accepted. -/
theorem DmRun.idle_step (h : DmRun pc regs payload inp t) (hb : DmBusAnswers pc regs payload inp t)
    (hu : Undisturbed (run pc regs payload inp t))
    (hs : staleDenied (run pc regs payload inp t) (inp t) = false)
    (hf : (run pc regs payload inp t).core.bus.reqFired = false) : DmRun pc regs payload inp (t + 1) := by
  have hpv := h.inv.pipe_empty hf
  have hr : dmemReqValid (run pc regs payload inp t).core = true →
      (dmOut (run pc regs payload inp t) (inp t)).rspValid = false := by
    intro hq
    rw [h.inv.idle_rsp hf (h.silent hb (Or.inl hf))]
    simpa [staleDenied, hq] using hs
  have hout : dmOutstanding pc regs payload inp (t + 1) = [] := by
    have hi : dmIssued pc regs payload inp t = false := issued_of_fired (Mmu.Side.dsReqValid_of_no_req hpv)
    have h₀ := h.free (Or.inl hf)
    unfold dmOutstanding at h₀ ⊢
    rw [InOrder.outstanding_issue h₀, hi]
    rfl
  have hup : (run pc regs payload inp (t + 1)).core.bus.reqFired = true →
      dmPipeUpFire (run pc regs payload inp t) (inp t) = true := by
    intro hf'
    have hrdy : coreDmReqReady (run pc regs payload inp t) (inp t) = true := by simp [coreDmReqReady, hpv]
    cases hq : dmemReqValid (run pc regs payload inp t).core
    · have hf'' := unfired_of_no_beat (i := inp t) hf hq
      have hstep : (step (run pc regs payload inp t) (inp t)).core.bus.reqFired = true := hf'
      rw [hf''] at hstep
      simp at hstep
    · simp [dmPipeUpFire, hq, hrdy]
  refine ⟨h.inv.idle_step hf hr hu, ?_, ?_, fun _ => hout⟩
  · intro hf'
    simp [beatOf, hup hf']
  · intro hf' hv'
    have hp : (run pc regs payload inp (t + 1)).pipe = pipeNext (run pc regs payload inp t) (inp t) := rfl
    rw [hp, pipeNext, hup hf'] at hv'
    simp at hv'

/-- The accepted beat gets the MMU's own answer. -/
theorem DmRun.refused_step (h : DmRun pc regs payload inp t)
    (hf : (run pc regs payload inp t).core.bus.reqFired = true)
    (hv : (run pc regs payload inp t).pipe.valid = true) (hw : dmBranch (run pc regs payload inp t) ≠ .wait)
    (hready : (dmOut (run pc regs payload inp t) (inp t)).reqReady = true)
    (hr : (dmOut (run pc regs payload inp t) (inp t)).rspValid = true)
    (hq : (dmOut (run pc regs payload inp t) (inp t)).dsReqValid = false) : DmRun pc regs payload inp (t + 1) := by
  have hsp : CorePipeline.Spaced (run pc regs payload inp t).core := spaced_core t
  have hf' : (run pc regs payload inp (t + 1)).core.bus.reqFired = false := unfired_of_rsp (hsp.fired_busy hf) hr
  have h₀ := h.free (Or.inr hv)
  refine ⟨h.inv.answered_step hsp hf hw hr fun _ => hready, ?_, ?_, fun _ => ?_⟩
  · intro hf''; rw [hf'] at hf''; simp at hf''
  · intro hf''; rw [hf'] at hf''; simp at hf''
  · unfold dmOutstanding at h₀ ⊢
    rw [InOrder.outstanding_issue h₀, issued_of_fired hq]
    rfl

/-- The accepted beat waits in the register. -/
theorem DmRun.wait_step (h : DmRun pc regs payload inp t)
    (hf : (run pc regs payload inp t).core.bus.reqFired = true)
    (hv : (run pc regs payload inp t).pipe.valid = true) (hw : dmBranch (run pc regs payload inp t) = .wait)
    (hready : (dmOut (run pc regs payload inp t) (inp t)).reqReady = false)
    (hq : (dmOut (run pc regs payload inp t) (inp t)).dsReqValid = false) : DmRun pc regs payload inp (t + 1) := by
  have hp : (run pc regs payload inp (t + 1)).pipe = (run pc regs payload inp t).pipe := by
    have hs := step_pipe_of_fired (i := inp t) hf
    simp only [dmPipeDnFire, hready, Bool.and_false, Bool.false_eq_true, ↓reduceIte] at hs
    exact hs
  have h₀ := h.free (Or.inr hv)
  refine ⟨h.inv.wait_step (spaced_core t) hv hw, ?_, ?_, fun _ => ?_⟩
  · intro _
    rw [beatOf_of_fired hf]
    exact Nat.lt_succ_of_lt (h.taken hf)
  · intro _ hv'; rw [hp, hv] at hv'; simp at hv'
  · unfold dmOutstanding at h₀ ⊢
    rw [InOrder.outstanding_issue h₀, issued_of_fired hq]
    rfl

/-- The accepted beat passes in the register, and is issued when the bus takes it. -/
theorem DmRun.pass_step (h : DmRun pc regs payload inp t) (hb : DmBusAnswers pc regs payload inp t)
    (hf : (run pc regs payload inp t).core.bus.reqFired = true)
    (hv : (run pc regs payload inp t).pipe.valid = true)
    (hpass : (dmBranch (run pc regs payload inp t)).passes = true) (hk : dmKill (run pc regs payload inp t) = false)
    (hready : (dmOut (run pc regs payload inp t) (inp t)).reqReady = (inp t).dmReqReady)
    (hrsp : (dmOut (run pc regs payload inp t) (inp t)).rspValid = (inp t).dmRspValid)
    (hq : (dmOut (run pc regs payload inp t) (inp t)).dsReqValid = true) : DmRun pc regs payload inp (t + 1) := by
  have hd := h.silent hb (Or.inr hv)
  have hs := step_pipe_of_fired (i := inp t) hf
  have hdn : dmPipeDnFire (run pc regs payload inp t) (inp t) = (inp t).dmReqReady := by
    rw [dmPipeDnFire, hv, hready, Bool.true_and]
  have hi : dmIssued pc regs payload inp t = (inp t).dmReqReady := by
    rw [dmIssued, dmOutAt, hq, Bool.true_and]
  have hout : dmOutstanding pc regs payload inp (t + 1) = if (inp t).dmReqReady then [t] else [] := by
    have h₀ := h.free (Or.inr hv)
    unfold dmOutstanding at h₀ ⊢
    rw [InOrder.outstanding_issue h₀, hi]
  rw [hdn] at hs
  refine ⟨h.inv.pass_step (spaced_core t) hf hpass hk hd, ?_, ?_, ?_⟩
  · intro _
    rw [beatOf_of_fired hf]
    exact Nat.lt_succ_of_lt (h.taken hf)
  · intro _ hv'
    cases hr : (inp t).dmReqReady
    · have hp : (run pc regs payload inp (t + 1)).pipe = (run pc regs payload inp t).pipe := by
        rw [hr] at hs; exact hs
      rw [hp, hv] at hv'; simp at hv'
    · have hp : (run pc regs payload inp (t + 1)).pipe = ⟨false, (run pc regs payload inp t).pipe.req⟩ := by
        rw [hr] at hs; exact hs
      refine ⟨t, by rw [hout, hr]; rfl, Nat.lt_succ_self t, (beatOf_of_fired hf).symm, ?_, by rw [hp]⟩
      rw [beatOf_of_fired hf]
      exact h.taken hf
  · intro hfree
    cases hr : (inp t).dmReqReady
    · rw [hout, hr]; rfl
    · exfalso
      have hp : (run pc regs payload inp (t + 1)).pipe = ⟨false, (run pc regs payload inp t).pipe.req⟩ := by
        rw [hr] at hs; exact hs
      rcases hfree with hf' | hv'
      · have hst := (fired_stays (spaced_core t) hf (hrsp.trans hd)).1
        have hst' : (run pc regs payload inp (t + 1)).core.bus.reqFired = true := hst
        rw [hst'] at hf'; simp at hf'
      · rw [hp] at hv'; simp at hv'

/-- The accepted beat has left the register, and is answered when the bus answers. -/
theorem DmRun.owed_step (h : DmRun pc regs payload inp t)
    (hf : (run pc regs payload inp t).core.bus.reqFired = true)
    (hv : (run pc regs payload inp t).pipe.valid = false)
    (hpass : (dmBranch (run pc regs payload inp t)).passes = true) (hk : dmKill (run pc regs payload inp t) = false)
    (hrsp : (dmOut (run pc regs payload inp t) (inp t)).rspValid = (inp t).dmRspValid)
    (hret : (dmOut (run pc regs payload inp t) (inp t)).dsRspReady = true) : DmRun pc regs payload inp (t + 1) := by
  have hsp : CorePipeline.Spaced (run pc regs payload inp t).core := spaced_core t
  obtain ⟨d, hd, hlt, hbeat, hgt, hreq⟩ := h.owed hf hv
  have hi : dmIssued pc regs payload inp t = false := issued_of_fired (Mmu.Side.dsReqValid_of_no_req hv)
  have hr : dmReturned pc regs payload inp t = (inp t).dmRspValid := by
    rw [dmReturned, dmOutAt, hret, Bool.and_true]
  have hw : dmBranch (run pc regs payload inp t) ≠ .wait := by
    intro he; rw [he] at hpass; simp [Mmu.Branch.passes] at hpass
  have hp : (run pc regs payload inp (t + 1)).pipe = (run pc regs payload inp t).pipe := by
    have hs := step_pipe_of_fired (i := inp t) hf
    simp only [dmPipeDnFire, hv, Bool.false_and, Bool.false_eq_true, ↓reduceIte] at hs
    exact hs
  cases hdr : (inp t).dmRspValid
  · rw [hdr] at hrsp hr
    have hf' : (run pc regs payload inp (t + 1)).core.bus.reqFired = true := (fired_stays hsp hf hrsp).1
    refine ⟨h.inv.pass_step hsp hf hpass hk hdr, ?_, ?_, ?_⟩
    · intro _
      rw [beatOf_of_fired hf]
      exact Nat.lt_succ_of_lt (h.taken hf)
    · intro _ _
      refine ⟨d, ?_, by omega, by rw [hbeat, beatOf_of_fired hf], by rw [beatOf_of_fired hf]; exact hgt, by rw [hreq, hp]⟩
      unfold dmOutstanding at hd ⊢
      rw [InOrder.outstanding_idle hi hr, hd]
    · intro hfree
      rcases hfree with hf'' | hv'
      · rw [hf'] at hf''; simp at hf''
      · rw [hp, hv] at hv'; simp at hv'
  · rw [hdr] at hrsp hr
    have hf' : (run pc regs payload inp (t + 1)).core.bus.reqFired = false := unfired_of_rsp (hsp.fired_busy hf) hrsp
    refine ⟨h.inv.answered_step hsp hf hw hrsp fun hv' => ?_, ?_, ?_, fun _ => ?_⟩
    · rw [hv] at hv'; simp at hv'
    · intro hf''; rw [hf'] at hf''; simp at hf''
    · intro hf''; rw [hf'] at hf''; simp at hf''
    · unfold dmOutstanding at hd ⊢
      exact InOrder.outstanding_return hd hi hr

theorem dmRun_step (h : DmRun pc regs payload inp t) (hb : DmBusAnswers pc regs payload inp t)
    (hu : Undisturbed (run pc regs payload inp t))
    (hs : staleDenied (run pc regs payload inp t) (inp t) = false) : DmRun pc regs payload inp (t + 1) := by
  cases hf : (run pc regs payload inp t).core.bus.reqFired
  · exact h.idle_step hb hu hs hf
  rcases h.inv.answer_cases hf (inp t) with
    ⟨hv, hw, hready, hr, hq, -⟩ | ⟨hv, hw, -, hready, hq⟩ | ⟨hpass, hk, hready, hr, -, -, -, hq, hret⟩
  · exact h.refused_step hf hv hw hready hr hq
  · exact h.wait_step hf hv hw hready hq
  · cases hv : (run pc regs payload inp t).pipe.valid
    · exact h.owed_step hf hv hpass hk hr hret
    · exact h.pass_step hb hf hv hpass hk hready hr (hq.trans hv)

/-! ## Matching -/

theorem matched_of_fired (h : DmRun pc regs payload inp t) (hb : DmBusAnswers pc regs payload inp t)
    (hf : (run pc regs payload inp t).core.bus.reqFired = true) : DmMatched pc regs payload inp t := by
  intro hm
  refine ⟨hf, h.inv.fired_req hf, ?_⟩
  have hrsp : (dmOut (run pc regs payload inp t) (inp t)).rspValid = true := by
    simp only [memRspThisCycle, Bool.and_eq_true] at hm
    exact hm.2
  rcases h.inv.answer_cases hf (inp t) with
    ⟨hv, -, hready, -, hq, hfault⟩ | ⟨-, -, hr, -, -⟩ | ⟨-, -, -, hr, hdata, hfa, hp, -, hret⟩
  · refine Or.inl ⟨?_, issued_of_fired hq, hfault⟩
    rw [dmPipeDnFire, hv, hready, Bool.true_and]
  · rw [hrsp] at hr; simp at hr
  · right
    rw [hrsp] at hr
    have hv : (run pc regs payload inp t).pipe.valid = false := by
      cases hv : (run pc regs payload inp t).pipe.valid
      · rfl
      · rw [h.silent hb (Or.inr hv)] at hr; simp at hr
    obtain ⟨d, hd, hlt, hbeat, hgt, hreq⟩ := h.owed hf hv
    refine ⟨⟨d, by rw [hd]; rfl, hlt, hbeat, hgt, hreq⟩, ?_, hdata, hfa, hp⟩
    rw [dmReturned, dmOutAt, hret, ← hr]
    rfl

/-- While no beat is accepted, the core takes a response exactly where the address left in the register is
denied. -/
theorem matched_iff_of_unfired (h : DmRun pc regs payload inp t) (hb : DmBusAnswers pc regs payload inp t)
    (hf : (run pc regs payload inp t).core.bus.reqFired = false) :
    DmMatched pc regs payload inp t ↔ staleDenied (run pc regs payload inp t) (inp t) = false := by
  have hsp : CorePipeline.Spaced (run pc regs payload inp t).core := spaced_core t
  have hrsp := h.inv.idle_rsp hf (h.silent hb (Or.inl hf))
  have hreq : dmemReqValid (run pc regs payload inp t).core = memBusy (run pc regs payload inp t).core := by
    cases hm : memBusy (run pc regs payload inp t).core
    · cases hq : dmemReqValid (run pc regs payload inp t).core
      · rfl
      · rw [memBusy_of_req hq] at hm; simp at hm
    · simp only [memBusy, Bool.and_eq_true] at hm
      have hbus := (hsp.mem_origin hm.1).hasBusOp hm.2
      simp [dmemReqValid, CorePipeline.memHasBusOp, hbus, hm.1, hm.2, hf]
  have hm : memRspThisCycle (run pc regs payload inp t).core (coreIn (run pc regs payload inp t) (inp t)) =
      staleDenied (run pc regs payload inp t) (inp t) := by
    rw [staleDenied, hreq, memBusy, memRspThisCycle, ← hrsp]
    rfl
  constructor
  · intro hmatch
    cases hst : staleDenied (run pc regs payload inp t) (inp t)
    · rfl
    · have hfired := (hmatch (hm.trans hst)).1
      rw [hf] at hfired; simp at hfired
  · intro hst hrsp'
    rw [hm, hst] at hrsp'; simp at hrsp'

theorem matched_iff (h : DmRun pc regs payload inp t) (hb : DmBusAnswers pc regs payload inp t) :
    DmMatched pc regs payload inp t ↔ staleDenied (run pc regs payload inp t) (inp t) = false := by
  cases hf : (run pc regs payload inp t).core.bus.reqFired
  · exact matched_iff_of_unfired h hb hf
  · have hst : staleDenied (run pc regs payload inp t) (inp t) = false := by
      simp [staleDenied, dmemReqValid, hf]
    exact ⟨fun _ => hst, fun _ => matched_of_fired h hb hf⟩

theorem dmRun_run (hb : ∀ t' < t, DmBusAnswers pc regs payload inp t')
    (hu : ∀ t' < t, Undisturbed (run pc regs payload inp t'))
    (hs : ∀ t' < t, staleDenied (run pc regs payload inp t') (inp t') = false) : DmRun pc regs payload inp t := by
  induction t with
  | zero => exact dmRun_zero
  | succ t ih =>
      refine dmRun_step (ih ?_ ?_ ?_) (hb t (Nat.lt_succ_self t)) (hu t (Nat.lt_succ_self t))
        (hs t (Nat.lt_succ_self t))
      · exact fun t' ht => hb t' (by omega)
      · exact fun t' ht => hu t' (by omega)
      · exact fun t' ht => hs t' (by omega)

/-- In a run in which no beat's request meets a redirect, every response goes to its own beat exactly if no
address left in the register is denied while a request is to be taken. -/
theorem dmMatched_iff (hb : ∀ t ≤ T, DmBusAnswers pc regs payload inp t)
    (hu : ∀ t ≤ T, Undisturbed (run pc regs payload inp t)) :
    (∀ t ≤ T, DmMatched pc regs payload inp t) ↔
      ∀ t ≤ T, staleDenied (run pc regs payload inp t) (inp t) = false := by
  have hrun : ∀ t ≤ T, (∀ t' < t, staleDenied (run pc regs payload inp t') (inp t') = false) →
      DmRun pc regs payload inp t := fun t ht hs =>
    dmRun_run (fun t' ht' => hb t' (by omega)) (fun t' ht' => hu t' (by omega)) hs
  constructor
  · intro h t
    induction t using Nat.strong_induction_on with
    | _ t ih =>
        intro ht
        have hs : ∀ t' < t, staleDenied (run pc regs payload inp t') (inp t') = false :=
          fun t' ht' => ih t' ht' (by omega)
        exact (matched_iff (hrun t ht hs) (hb t ht)).mp (h t ht)
  · intro h t ht
    have hs : ∀ t' < t, staleDenied (run pc regs payload inp t') (inp t') = false :=
      fun t' ht' => h t' (by omega)
    exact (matched_iff (hrun t ht hs) (hb t ht)).mpr (h t ht)

/-- `csrw satp, x1`; `csrw mstatus, x2` sets MPRV with MPP = U; `lw x5, 0(x3)` reads a user page;
`csrw mstatus, x4` sets MPP = S; `lw x6, 0(x7)`. -/
def mprvInp (t : Nat) : In :=
  .answer
    (if t = 1 then some 0x18009073#32 else if t = 3 ∨ t = 7 then some 0x30011073#32
      else if t = 9 then some 0x0001A283#32 else if t = 13 then some 0x30021073#32
      else if t = 25 then some 0x0003A303#32 else if t = 29 then some 0x00000013#32 else none)
    (if t = 21 then some 0x00000007#32 else none)
    (if t = 17 then some 0x801#32 else if t = 19 then some 0x1000053#32 else none)

def mprvRegs : RegFile := fun r =>
  if r = 1 then 0x80000001#32 else if r = 2 then 0x20000#32 else if r = 3 then 0x1000#32
  else if r = 4 then 0x20800#32 else 0x3000#32

/-- Up to cycle 29, in all cycles; the first load is answered in cycle 21. -/
theorem dmMatched_mprv : (dmOutAt RESET_PC mprvRegs ⟨0, false, 0, 0, 0⟩ mprvInp 21).rspValid = true ∧
    ∀ t ≤ 29, DmMatched RESET_PC mprvRegs ⟨0, false, 0, 0, 0⟩ mprvInp t :=
  ⟨by decide +kernel, (dmMatched_iff (by decide +kernel) (by decide +kernel)).mpr (by decide +kernel)⟩

/-- In cycle 30 the second load is to be taken, and the TLB denies the user page of the first one. -/
theorem not_dmMatched : ¬ ∀ pc regs payload inp T, (∀ t ≤ T, DmBusAnswers pc regs payload inp t) →
    ∀ t ≤ T, DmMatched pc regs payload inp t := by
  intro h
  have hm := h RESET_PC mprvRegs ⟨0, false, 0, 0, 0⟩ mprvInp 30 (by decide +kernel) 30 le_rfl
  have hf := (hm (by decide +kernel)).1
  exact absurd hf (by decide +kernel)

end QinglongCore.Soc
