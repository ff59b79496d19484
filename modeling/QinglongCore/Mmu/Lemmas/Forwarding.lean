import Mathlib.Tactic.Common
import QinglongCore.Rtl.Mmu

/-!
# The forwarding multiplexer of a side

Which branch is selected, what it answers, and what becomes of the walk-result registers.
-/

namespace QinglongCore.Mmu

/-- The branch hands requests and responses through. -/
def Branch.passes : Branch → Bool
  | .bare | .tlbGo | .forward => true
  | .tlbDeny | .faultReply | .wait => false

/-- The branch answers the core itself. -/
def Branch.refuses : Branch → Bool
  | .tlbDeny | .faultReply => true
  | .bare | .tlbGo | .forward | .wait => false

theorem Branch.cases_kind (b : Branch) : b.passes = true ∨ b.refuses = true ∨ b = .wait := by
  cases b <;> simp [Branch.passes, Branch.refuses]

theorem Branch.not_passes_of_refuses {b : Branch} (h : b.refuses = true) : ¬ b.passes = true := by
  cases b <;> simp [Branch.passes, Branch.refuses] at h ⊢

namespace Side

variable {x : Side} {c : Ctx} {a : Access} {p : Port} {w : Option Xlate}

/-! ## Branches -/

theorem branch_bare_iff : x.branch c a p = .bare ↔ a.xlate = false := by
  unfold branch
  cases a.xlate
  · simp
  · split_ifs <;> simp_all

theorem tlbGo_of_branch (h : x.branch c a p = .tlbGo) : x.tlbGo c a p = true := by
  unfold branch at h
  split_ifs at h
  assumption

theorem tlbDeny_of_branch (h : x.branch c a p = .tlbDeny) : x.tlbDeny c a p = true := by
  unfold branch at h
  split_ifs at h
  assumption

theorem forward_of_branch (h : x.branch c a p = .forward) : x.forward a p = true := by
  unfold branch at h
  split_ifs at h
  assumption

theorem faultReply_of_branch (h : x.branch c a p = .faultReply) : x.faultReply a p = true := by
  unfold branch at h
  split_ifs at h
  assumption

/-- A translated side waits exactly when neither the TLB nor the walk-result register answers. -/
theorem branch_wait_iff :
    x.branch c a p = .wait ↔ a.xlate = true ∧ (x.hit c p).isNone = true ∧ x.cacheLive p = false := by
  unfold branch tlbGo tlbDeny forward faultReply
  cases ha : a.xlate
  · simp
  cases hh : x.hit c p with
  | none => cases hl : x.cacheLive p <;> cases hf : x.xlate.fault <;> simp
  | some e => cases hp : e.permOk c a p.req.wen <;> simp [hp]

/-- A translated side whose TLB misses goes by the walk-result register. -/
theorem branch_of_miss (ha : a.xlate = true) (hh : x.hit c p = none) (hl : x.cacheLive p = true) :
    x.branch c a p = if x.xlate.fault then .faultReply else .forward := by
  unfold branch tlbGo tlbDeny forward faultReply
  cases hf : x.xlate.fault <;> simp [ha, hh, hl]

theorem tlbGo_of_hit {e : TlbEntry} (ha : a.xlate = true) (hh : x.hit c p = some e) :
    x.tlbGo c a p = e.permOk c a p.req.wen := by
  simp [tlbGo, ha, hh]

theorem tlbGo_of_miss (hh : x.hit c p = none) : x.tlbGo c a p = false := by simp [tlbGo, hh]

theorem tlbPa_of_hit {e : TlbEntry} (hh : x.hit c p = some e) : x.tlbPa c p = e.pa p.req.addr := by
  simp [tlbPa, hh]

theorem branch_of_hit {e : TlbEntry} (ha : a.xlate = true) (hh : x.hit c p = some e) :
    x.branch c a p = if e.permOk c a p.req.wen then .tlbGo else .tlbDeny := by
  unfold branch tlbGo tlbDeny
  cases hp : e.permOk c a p.req.wen <;> simp [ha, hh, hp]

theorem branch_refuses_iff : (x.branch c a p).refuses = true ↔
    a.xlate = true ∧ match x.hit c p with
      | some e => e.permOk c a p.req.wen = false
      | none => x.cacheLive p = true ∧ x.xlate.fault = true := by
  cases ha : a.xlate
  · rw [branch_bare_iff.mpr ha]
    simp [Branch.refuses]
  · cases hh : x.hit c p with
    | some e =>
        rw [branch_of_hit ha hh]
        cases hp : e.permOk c a p.req.wen <;> simp [Branch.refuses, hp]
    | none =>
        cases hl : x.cacheLive p
        · rw [branch_wait_iff.mpr ⟨ha, by simp [hh], hl⟩]
          simp [Branch.refuses]
        · rw [branch_of_miss ha hh hl]
          cases x.xlate.fault <;> simp [Branch.refuses]

theorem pass_addr (hb : (x.branch c a p).passes = true) : (x.muxed c a p).dsReq.addr =
    match x.branch c a p with
    | .tlbGo => x.tlbPa c p
    | .forward => x.xlate.pa
    | _ => p.req.addr := by
  unfold muxed
  cases hbr : x.branch c a p <;> simp_all [Branch.passes, pass]

theorem tlbDeny_iff : x.tlbDeny c a p = true ↔
    a.xlate = true ∧ ∃ e, x.hit c p = some e ∧ e.permOk c a p.req.wen = false := by
  unfold tlbDeny
  cases x.hit c p <;> simp

theorem refuses_of_tlbDeny (h : x.tlbDeny c a p = true) : (x.branch c a p).refuses = true := by
  obtain ⟨ha, e, hh, hp⟩ := tlbDeny_iff.mp h
  rw [branch_of_hit ha hh, hp]
  rfl

/-! ## Addresses that the PMP checks -/

theorem pmpAddr_bare (ha : a.xlate = false) : x.pmpAddr c a p = some p.req.addr := by simp [pmpAddr, ha]

theorem pmpAddr_of_go (ha : a.xlate = true) (hg : x.tlbGo c a p = true) :
    x.pmpAddr c a p = some (x.tlbPa c p) := by
  simp [pmpAddr, ha, hg]

theorem pmpAddr_of_not_go (ha : a.xlate = true) (hg : x.tlbGo c a p = false) :
    x.pmpAddr c a p = if x.xlate.valid && !x.xlate.fault && x.vaMatch p then some x.xlate.pa else none := by
  simp [pmpAddr, ha, hg]

/-! ## Answers -/

theorem pmpKillComb_of_no_req (h : p.reqValid = false) : x.pmpKillComb c a p = false := by
  unfold pmpKillComb
  cases x.pmpAddr c a p <;> simp [h]

theorem pmpKill_of_no_req (h : p.reqValid = false) : x.pmpKill c a p = x.pmpPending := by
  simp [pmpKill, pmpKillComb_of_no_req h]

theorem out_of_kill (h : x.pmpKill c a p = true) :
    (x.out c a p).reqReady = true ∧ (x.out c a p).rspValid = true ∧ (x.out c a p).rspFault = true ∧
      (x.out c a p).rspPagefault = false ∧ (x.out c a p).dsReqValid = false := by
  simp [out, h, refuse]

theorem out_of_passes (hk : x.pmpKill c a p = false) (hb : (x.branch c a p).passes = true) :
    (x.out c a p).reqReady = p.dsReqReady ∧ (x.out c a p).rspValid = p.dsRspValid ∧
      (x.out c a p).rspData = p.dsRspData ∧ (x.out c a p).rspFault = p.dsRspFault ∧
      (x.out c a p).rspPagefault = false ∧ (x.out c a p).dsReqValid = p.reqValid := by
  unfold out muxed
  cases hbr : x.branch c a p <;> simp_all [Branch.passes, pass]

theorem out_of_refuses (hk : x.pmpKill c a p = false) (hb : (x.branch c a p).refuses = true) :
    (x.out c a p).reqReady = true ∧ (x.out c a p).rspValid = true ∧ (x.out c a p).rspFault = false ∧
      (x.out c a p).rspPagefault = true ∧ (x.out c a p).dsReqValid = false := by
  unfold out muxed
  cases hbr : x.branch c a p <;> simp_all [Branch.refuses, refuse]

theorem out_of_wait (hk : x.pmpKill c a p = false) (hb : x.branch c a p = .wait) :
    (x.out c a p).reqReady = false ∧ (x.out c a p).rspValid = false ∧ (x.out c a p).dsReqValid = false := by
  simp [out, muxed, hk, hb, stall]

theorem dsReqValid_of_no_req (h : p.reqValid = false) : (x.out c a p).dsReqValid = false := by
  unfold out muxed
  cases x.pmpKill c a p <;> cases x.branch c a p <;> simp [refuse, pass, stall, h]

theorem dsRspReady_of_passes (hk : x.pmpKill c a p = false) (hb : (x.branch c a p).passes = true) :
    (x.out c a p).dsRspReady = p.rspReady := by
  unfold out muxed
  cases hbr : x.branch c a p <;> simp_all [Branch.passes, pass]

theorem dsRspReady_of_wait (hk : x.pmpKill c a p = false) (hb : x.branch c a p = .wait) :
    (x.out c a p).dsRspReady = true := by
  simp [out, muxed, hk, hb, stall]

/-- An answer of the bus is lost exactly in the branch that waits. -/
theorem rspValid_of_dsRsp (h : p.dsRspValid = true) :
    (x.out c a p).rspValid = true ↔ x.pmpKill c a p = true ∨ x.branch c a p ≠ .wait := by
  cases hk : x.pmpKill c a p
  · rcases Branch.cases_kind (x.branch c a p) with hb | hb | hb
    · have hne : x.branch c a p ≠ .wait := by rintro he; simp [he, Branch.passes] at hb
      simp [(out_of_passes hk hb).2.1, h, hne]
    · have hne : x.branch c a p ≠ .wait := by rintro he; simp [he, Branch.refuses] at hb
      simp [(out_of_refuses hk hb).2.1, hne]
    · simp [(out_of_wait hk hb).2.1, hb]
  · simp [(out_of_kill hk).2.1]

/-! ## Walk-result registers -/

/-- Without a ready core the registers are set, never cleared. -/
theorem xlateNext_valid_of_not_ready (hr : p.rspReady = false) (hw : ∀ y, w = some y → y.valid = true)
    (hv : x.xlate.valid = true) : (x.xlateNext c a p w).valid = true := by
  have h₁ : (w.getD x.xlate).valid = true := by
    cases w with
    | none => exact hv
    | some y => exact hw y rfl
  simp [xlateNext, forwardRspDone, faultRspDone, tlbRspFire, tlbDenyFire, hr, hv, h₁]

/-- A request that the TLB lets go, or denies, to a core that is not ready leaves the registers set. -/
theorem xlateNext_valid_of_tlb (hr : p.rspReady = false) (hw : ∀ y, w = some y → y.valid = true)
    (h : x.tlbReqFire c a p = true ∨ x.tlbDeny c a p = true ∧ p.reqValid = true) :
    (x.xlateNext c a p w).valid = true := by
  cases hv : x.xlate.valid
  · rcases h with h | ⟨h, hq⟩
    · have hd : x.tlbDeny c a p = false := by
        simp only [tlbReqFire, tlbGo, Bool.and_eq_true] at h
        unfold tlbDeny
        cases hh : x.hit c p with
        | none => simp
        | some e => simp_all
      simp [xlateNext, forwardRspDone, faultRspDone, tlbRspFire, tlbDenyFire, hr, hv, h, hd]
    · simp [xlateNext, forwardRspDone, faultRspDone, tlbRspFire, tlbDenyFire, hr, hv, h, hq]
  · exact xlateNext_valid_of_not_ready hr hw hv

/-- Without a request the registers are cleared only by an answer to the core, or by a fault reply that a
TLB hit overrides. -/
theorem xlateNext_valid_of_unanswered (hq : p.reqValid = false) (hw : ∀ y, w = some y → y.valid = true)
    (hv : x.xlate.valid = true) (ho : (x.out c a p).rspValid = false)
    (hgo : ¬ (x.tlbGo c a p = true ∧ x.xlate.fault = true)) : (x.xlateNext c a p w).valid = true := by
  have hk : x.pmpKill c a p = false := by
    cases hk : x.pmpKill c a p
    · rfl
    · rw [(out_of_kill hk).2.1] at ho; simp at ho
  have hrefuse : (x.branch c a p).refuses = false := by
    cases hb : (x.branch c a p).refuses
    · rfl
    · rw [(out_of_refuses hk hb).2.1] at ho; simp at ho
  have hlive : x.cacheLive p = true := by simp [cacheLive, hv, hq]
  have hrsp : a.xlate = true → p.dsRspValid = false := by
    intro ha
    rcases Branch.cases_kind (x.branch c a p) with hb | hb | hb
    · rw [(out_of_passes hk hb).2.1] at ho; exact ho
    · rw [hrefuse] at hb; simp at hb
    · rw [branch_wait_iff, hlive] at hb; simp at hb
  have hfault : x.faultReply a p = false := by
    cases hf : x.faultReply a p
    · rfl
    simp only [faultReply, Bool.and_eq_true] at hf
    cases hh : x.hit c p with
    | none =>
        rw [branch_of_miss hf.1.1 hh hlive, hf.2] at hrefuse
        simp [Branch.refuses] at hrefuse
    | some e =>
        cases hp : e.permOk c a p.req.wen
        · rw [branch_of_hit hf.1.1 hh, hp] at hrefuse
          simp [Branch.refuses] at hrefuse
        · exact absurd ⟨by simp [tlbGo, hf.1.1, hh, hp], hf.2⟩ hgo
  have hfwd : x.forwardRspDone a p = false := by
    cases ha : a.xlate
    · simp [forwardRspDone, forward, ha]
    · simp [forwardRspDone, hrsp ha]
  have htlb : x.tlbRspFire c a p = false := by
    cases ha : a.xlate
    · simp [tlbRspFire, tlbGo, ha]
    · simp [tlbRspFire, hrsp ha]
  have h₁ : (w.getD x.xlate).valid = true := by
    cases w with
    | none => exact hv
    | some y => exact hw y rfl
  simp [xlateNext, hfwd, htlb, faultRspDone, hfault, tlbDenyFire, hq, hv, h₁]

/-! ## A side whose core is always ready -/

theorem xlateNext_of_ready (hr : p.rspReady = true) : x.xlateNext c a p w =
    let y :=
      if x.tlbReqFire c a p && !(x.tlbGo c a p && p.dsRspValid) && !x.xlate.valid then
        { valid := true, fault := false, pa := x.tlbPa c p, va := p.req.addr }
      else w.getD x.xlate
    if x.forward a p && p.dsRspValid || x.faultReply a p || x.tlbGo c a p && p.dsRspValid ||
        x.tlbDeny c a p && p.reqValid then
      { y with valid := false, fault := false }
    else y := by
  simp only [xlateNext, forwardRspDone, faultRspDone, tlbRspFire, tlbDenyFire, hr, Bool.and_true]
  cases x.tlbDeny c a p <;> cases p.reqValid <;> simp

theorem answered_of_refuses (hq : p.reqValid = true) (hb : (x.branch c a p).refuses = true) :
    (x.faultReply a p || x.tlbDeny c a p && p.reqValid) = true := by
  cases hbr : x.branch c a p <;> rw [hbr] at hb <;> simp only [Branch.refuses, Bool.false_eq_true] at hb
  · simp [tlbDeny_of_branch hbr, hq]
  · simp [faultReply_of_branch hbr]

/-- A fault in the walk-result registers is answered at once; without the end of a walk none is left. -/
theorem xlateNext_not_faulted (hr : p.rspReady = true)
    (hx : x.xlate.valid = true → x.xlate.fault = true → p.reqValid = true ∧ (x.branch c a p).refuses = true) :
    ¬ ((x.xlateNext c a p none).valid = true ∧ (x.xlateNext c a p none).fault = true) := by
  rw [xlateNext_of_ready hr]
  rintro ⟨hv, hf⟩
  simp only [Option.getD_none] at hv hf
  split at hv
  · simp at hv
  · next hc =>
      simp only [hc, Bool.false_eq_true, ↓reduceIte] at hf
      split at hf
      · simp at hf
      · next hn =>
          simp only [hn, Bool.false_eq_true, ↓reduceIte] at hv
          obtain ⟨hq, hb⟩ := hx hv hf
          have hans := answered_of_refuses hq hb
          simp only [Bool.or_eq_true] at hans hc
          tauto

theorem xlateNext_of_forward (hb : x.branch c a p = .forward) (hd : p.dsRspValid = false) :
    x.xlateNext c a p none = x.xlate := by
  have hh : x.hit c p = none := by
    cases hh : x.hit c p with
    | none => rfl
    | some e =>
        have ha := forward_of_branch hb
        simp only [forward, Bool.and_eq_true] at ha
        rw [branch_of_hit ha.1.1 hh] at hb
        split at hb <;> simp at hb
  have hf := forward_of_branch hb
  simp only [forward, Bool.and_eq_true, Bool.not_eq_true'] at hf
  simp [xlateNext, tlbReqFire, forwardRspDone, faultRspDone, tlbRspFire, tlbDenyFire, tlbGo_of_miss hh,
    tlbDeny, hh, faultReply, hf.2, hd]

/-- A waiting side takes the result of a walk. -/
theorem xlateNext_of_wait (hb : x.branch c a p = .wait) : x.xlateNext c a p w = w.getD x.xlate := by
  obtain ⟨ha, hh, hl⟩ := branch_wait_iff.mp hb
  have hh' : x.hit c p = none := by simpa using hh
  simp [xlateNext, tlbReqFire, forwardRspDone, faultRspDone, tlbRspFire, tlbDenyFire, tlbGo_of_miss hh',
    tlbDeny, hh', forward, faultReply, hl]

theorem tlbNext_quiet {f : Sfence} (hf : f.valid = false) : x.tlbNext f none = x.tlb := by
  funext k
  simp [tlbNext, Sfence.hits, hf]

theorem tlbNext_fill {f : Sfence} {e : TlbEntry} (hf : f.valid = false) (k : Fin 4) :
    x.tlbNext f (some e) k = if k = x.repl then e else x.tlb k := by
  simp [tlbNext, Sfence.hits, hf]

theorem branch_congr {x' : Side} {p' : Port} (ht : x'.tlb = x.tlb) (hx : x'.xlate = x.xlate)
    (hr : p'.req = p.req) (hq : p'.reqValid = p.reqValid) : x'.branch c a p' = x.branch c a p := by
  unfold branch tlbGo tlbDeny forward faultReply cacheLive vaMatch hit
  rw [ht, hx, hr, hq]

/-- A request that passes goes on to pass after it has left. -/
theorem passes_after {x' : Side} {p' : Port} (hb : (x.branch c a p).passes = true) (ht : x'.tlb = x.tlb)
    (hr : p'.req = p.req) (hx : x.branch c a p = .forward → x'.xlate = x.xlate) (hq : p'.reqValid = false) :
    (x'.branch c a p').passes = true := by
  have hh : x'.hit c p' = x.hit c p := by simp [hit, ht, hr]
  cases ha : a.xlate
  · rw [branch_bare_iff.mpr ha]; rfl
  cases hhit : x.hit c p with
  | some e =>
      rw [branch_of_hit ha hhit] at hb
      rw [branch_of_hit ha (hh.trans hhit), hr]
      exact hb
  | none =>
      cases hl : x.cacheLive p
      · rw [branch_wait_iff.mpr ⟨ha, by simp [hhit], hl⟩] at hb
        simp [Branch.passes] at hb
      · have hbr := branch_of_miss ha hhit hl
        cases hf : x.xlate.fault
        · rw [hf] at hbr
          have hx' := hx (by simpa using hbr)
          have hv : x.xlate.valid = true := by
            simp only [cacheLive, Bool.and_eq_true] at hl; exact hl.1
          have hl' : x'.cacheLive p' = true := by simp [cacheLive, hx', hv, hq]
          rw [branch_of_miss ha (hh.trans hhit) hl', hx', hf]
          rfl
        · rw [hbr, hf] at hb
          simp [Branch.passes] at hb

end Side

end QinglongCore.Mmu
