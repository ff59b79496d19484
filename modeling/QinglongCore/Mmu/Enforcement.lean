import QinglongCore.Mmu.Lemmas.Forwarding

/-!
# PMP enforcement

The address that the PMP checks and the address that is driven downstream are chosen by two multiplexers.
-/

namespace QinglongCore.Mmu

namespace Side

variable (x : Side) (c : Ctx) (a : Access) (p : Port)

/-- The PMP faults the request that the forwarding multiplexer is about to drive. -/
def drivesDenied : Bool :=
  p.reqValid && (x.branch c a p).passes && Pmp.fault c.pmp a.effPriv (x.muxed c a p).dsReq.addr (pmpAccess a p)

/-- The PMP denies the presented request, by the address driven or by the address checked. -/
def pmpDenies : Bool := x.drivesDenied c a p || x.pmpKillComb c a p

variable {x : Side} {c : Ctx} {a : Access} {p : Port}

theorem dsReqValid_elim (h : (x.out c a p).dsReqValid = true) :
    x.pmpKill c a p = false ∧ (x.branch c a p).passes = true ∧ p.reqValid = true ∧
      (x.out c a p).dsReq = (x.muxed c a p).dsReq := by
  cases hk : x.pmpKill c a p
  · refine ⟨rfl, ?_, ?_, by simp [out, hk]⟩
    · rcases Branch.cases_kind (x.branch c a p) with hb | hb | hb
      · exact hb
      · rw [(out_of_refuses hk hb).2.2.2.2] at h; simp at h
      · rw [(out_of_wait hk hb).2.2] at h; simp at h
    · cases hq : p.reqValid
      · rw [dsReqValid_of_no_req hq] at h; exact h
      · rfl
  · rw [(out_of_kill hk).2.2.2.2] at h; simp at h

/-- For a presented request the two multiplexers agree. -/
theorem pmpAddr_of_passes (hq : p.reqValid = true) (hb : (x.branch c a p).passes = true) :
    x.pmpAddr c a p = some (x.muxed c a p).dsReq.addr := by
  rw [pass_addr hb]
  cases hbr : x.branch c a p with
  | bare => exact pmpAddr_bare (branch_bare_iff.mp hbr)
  | tlbGo =>
      have hgo := tlbGo_of_branch hbr
      have ha : a.xlate = true := by
        simp only [tlbGo, Bool.and_eq_true] at hgo
        exact hgo.1
      exact pmpAddr_of_go ha hgo
  | forward =>
      have hf := forward_of_branch hbr
      simp only [forward, cacheLive, hq, Bool.not_true, Bool.false_or, Bool.and_eq_true, Bool.not_eq_true'] at hf
      obtain ⟨⟨ha, hv, hva⟩, hfault⟩ := hf
      have hgo : x.tlbGo c a p = false := by
        cases hgo : x.tlbGo c a p
        · rfl
        · unfold branch at hbr
          simp [ha, hgo] at hbr
      rw [pmpAddr_of_not_go ha hgo]
      simp [hv, hva, hfault]
  | tlbDeny => rw [hbr] at hb; simp [Branch.passes] at hb
  | faultReply => rw [hbr] at hb; simp [Branch.passes] at hb
  | wait => rw [hbr] at hb; simp [Branch.passes] at hb

theorem killComb_of_denies (h : x.pmpDenies c a p = true) : x.pmpKillComb c a p = true := by
  simp only [pmpDenies, drivesDenied, Bool.or_eq_true, Bool.and_eq_true] at h
  rcases h with ⟨⟨hq, hb⟩, hf⟩ | h
  · unfold pmpKillComb
    rw [pmpAddr_of_passes hq hb]
    simp [hq, hf]
  · exact h

/-- What is driven downstream is what the PMP lets pass, and is the access the core asks for. -/
theorem allowed_of_dsReqValid (h : (x.out c a p).dsReqValid = true) :
    Pmp.fault c.pmp a.effPriv (x.out c a p).dsReq.addr (pmpAccess a p) = false ∧
      (x.out c a p).dsReq.wen = p.req.wen := by
  obtain ⟨hk, hb, hq, hreq⟩ := dsReqValid_elim h
  have hkc : x.pmpKillComb c a p = false := by
    simp only [pmpKill, Bool.or_eq_false_iff] at hk
    exact hk.1
  refine ⟨?_, ?_⟩
  · unfold pmpKillComb at hkc
    rw [pmpAddr_of_passes hq hb] at hkc
    rw [hreq]
    simpa [hq] using hkc
  · rw [hreq]
    unfold muxed
    cases hbr : x.branch c a p <;> rw [hbr] at hb <;> simp [Branch.passes, pass] at hb ⊢

/-! ## The pending latch -/

theorem pmpPendingNext_of_kill (hk : x.pmpKill c a p = true) (hr : p.rspReady = false) :
    x.pmpPendingNext c a p = true := by
  unfold pmpPendingNext
  simp only [pmpKill, Bool.or_eq_true] at hk
  rcases hk with hk | hk
  · have hq : p.reqValid = true := by
      cases hq : p.reqValid
      · rw [pmpKillComb_of_no_req hq] at hk; simp at hk
      · rfl
    simp [hk, hq, hr]
  · simp [hk, hr]

/-- A denial is kept until the core is ready. -/
theorem pmpKill_until_ready (x : Nat → Side) (c : Nat → Ctx) (a : Nat → Access) (p : Nat → Port)
    (hstep : ∀ t, (x (t + 1)).pmpPending = (x t).pmpPendingNext (c t) (a t) (p t)) {t u : Nat} (htu : t ≤ u)
    (hd : (x t).pmpDenies (c t) (a t) (p t) = true) (hr : ∀ v, t ≤ v → v < u → (p v).rspReady = false) :
    (x u).pmpKill (c u) (a u) (p u) = true := by
  induction u, htu using Nat.le_induction with
  | base => simp [pmpKill, killComb_of_denies hd]
  | succ u htu ih =>
      have hk := ih fun v h₁ h₂ => hr v h₁ (Nat.lt_succ_of_lt h₂)
      have hp := (hstep u).trans (pmpPendingNext_of_kill hk (hr u htu (Nat.lt_succ_self u)))
      simp [pmpKill, hp]

end Side

/-- The core is answered with an access fault, and nothing is sent downstream. -/
def Out.AccessFaulted (o : Out) : Prop :=
  o.dsReqValid = false ∧ o.rspValid = true ∧ o.rspFault = true ∧ o.rspPagefault = false

variable (inp : Nat → In)

def ifOutAt (t : Nat) : Out := ifOut (run inp t) (inp t)
def dmOutAt (t : Nat) : Out := dmOut (run inp t) (inp t)

def ifDenied (t : Nat) : Bool := (run inp t).ifs.pmpDenies (inp t).ctx (ifAcc (inp t)) (inp t).ifp
def dmDenied (t : Nat) : Bool := (run inp t).dms.pmpDenies (inp t).ctx (dmAcc (inp t)) (inp t).dmp

/-- What goes downstream has passed the PMP; what the PMP denies is answered with an access fault from the cycle
of the denial to the first cycle in which the core is ready. -/
theorem pmp_enforced (t : Nat) :
    ((ifOutAt inp t).dsReqValid = true → Pmp.fault (inp t).ctx.pmp (inp t).ctx.priv (ifOutAt inp t).dsReq.addr
      ⟨false, false, true⟩ = false) ∧
    ((dmOutAt inp t).dsReqValid = true → (dmOutAt inp t).dsReq.wen = (inp t).dmp.req.wen ∧
      Pmp.fault (inp t).ctx.pmp (inp t).ctx.dmEffPriv (dmOutAt inp t).dsReq.addr
        ⟨!(inp t).dmp.req.wen, (inp t).dmp.req.wen, false⟩ = false) ∧
    ∀ u, t ≤ u →
      (ifDenied inp t = true → (∀ v, t ≤ v → v < u → (inp v).ifp.rspReady = false) →
        (ifOutAt inp u).AccessFaulted) ∧
      (dmDenied inp t = true → (∀ v, t ≤ v → v < u → (inp v).dmp.rspReady = false) →
        (dmOutAt inp u).AccessFaulted) := by
  refine ⟨fun h => (Side.allowed_of_dsReqValid h).1, fun h => ?_, fun u htu => ⟨fun hd hr => ?_, fun hd hr => ?_⟩⟩
  · obtain ⟨hf, hwen⟩ := Side.allowed_of_dsReqValid h
    exact ⟨hwen, hf⟩
  · have hk := Side.pmpKill_until_ready (fun t => (run inp t).ifs) (fun t => (inp t).ctx) (fun t => ifAcc (inp t))
      (fun t => (inp t).ifp) (fun _ => rfl) htu hd hr
    obtain ⟨-, h₁, h₂, h₃, h₄⟩ := Side.out_of_kill hk
    exact ⟨h₄, h₁, h₂, h₃⟩
  · have hk := Side.pmpKill_until_ready (fun t => (run inp t).dms) (fun t => (inp t).ctx) (fun t => dmAcc (inp t))
      (fun t => (inp t).dmp) (fun _ => rfl) htu hd hr
    obtain ⟨-, h₁, h₂, h₃, h₄⟩ := Side.out_of_kill hk
    exact ⟨h₄, h₁, h₂, h₃⟩

/-- One fetch in S-mode, presented in cycle 0 to a core that takes the answer in cycle 2; no entry grants a thing. -/
def lateInp (t : Nat) : In where
  ctx := ⟨0, PRV_S, false, 0, false, false, ⟨fun n => if n = 0 then 0x18 else 0, fun _ => 0xFFFFFFFF⟩⟩
  sfence := ⟨false, false, 0, false, 0⟩
  ifp := ⟨decide (t = 0), Req.fetch 0x80000000, decide (t = 2), true, false, 0, false⟩
  dmp := ⟨false, Req.fetch 0, true, true, false, 0, false⟩
  ptwReqReady := true
  ptwRspValid := false
  ptwRspRdata := 0
  ptwRspFault := false

theorem pmp_enforced_late : (ifOutAt lateInp 2).AccessFaulted := by
  have h := (pmp_enforced lateInp 0).2.2 2 (by decide)
  refine h.1 (by decide +kernel) ?_
  intro v _ hv
  have : v = 0 ∨ v = 1 := by omega
  rcases this with rfl | rfl <;> rfl

end QinglongCore.Mmu
