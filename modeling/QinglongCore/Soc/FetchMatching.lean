import QinglongCore.Base.InOrder
import QinglongCore.Mmu.Lemmas.Roots
import QinglongCore.Soc.Lemmas.FetchSide

/-!
# Matching of fetch responses

The fetch tracker advances the address in the accepting cycle, and the MMU goes on to decide by the address
on the port. What a fetch calls for is given by the TLB, else by the page tables below the root of the present `satp`,
and not by the walk-result register. A fetch is named by the cycle of its acceptance.
-/

namespace QinglongCore.Soc

open CorePipeline (ifetchAccept)

/-! ## Statement -/

/-- What an accepted fetch is to be answered with. -/
inductive Verdict where
  | pageFault
  | accessFault
  | issue (pa : Word)
  deriving DecidableEq

/-- The privilege of a fetch that is translated. -/
def fetchMode (p : BitVec 2) : Sv32.Mode := if p = PRV_U then .user else .supervisor

section

variable (s : State)

def pmpDeniesFetch (pa : Word) : Bool :=
  Pmp.fault (pmpConfig s.core.csr) s.core.csr.privMode pa ⟨false, false, true⟩

section

variable (mem : Word → Option Word)

/-- The translation of the address on the port by a walk of the page tables below the root of `satp`. -/
def fetchWalk : Option Word :=
  Sv32.translate mem (Mmu.rootPpn (ctx s.core.csr).satp) (fetchMode (ctx s.core.csr).priv) .fetch (ctx s.core.csr).sum
    (ctx s.core.csr).mxr s.core.fetch.pc

/-- The translation of the address on the port in the present context, by the TLB entry for the ASID of `satp`, else by
the page tables; `none` where execution is denied. -/
def fetchTranslation : Option Word :=
  if xlateIf s then
    match ifHit s with
    | some e =>
        if e.permOk (ctx s.core.csr) (Mmu.ifAccess (ctx s.core.csr)) false then some (e.pa s.core.fetch.pc)
        else none
    | none => fetchWalk s mem
  else some s.core.fetch.pc

def fetchVerdict : Verdict :=
  match fetchTranslation s mem with
  | none => .pageFault
  | some pa => if pmpDeniesFetch s pa then .accessFault else .issue pa

end

/-- The address that the MMU puts out for the address on the port. -/
def fetchPa : Word :=
  if xlateIf s then
    match ifHit s with
    | some e => e.pa s.core.fetch.pc
    | none => s.mmu.ifs.xlate.pa
  else s.core.fetch.pc

/-- The TLB denies the address on the port, or misses with a fault in the walk-result register. -/
def portDenied : Bool :=
  xlateIf s &&
    match ifHit s with
    | some e => !e.permOk (ctx s.core.csr) (Mmu.ifAccess (ctx s.core.csr)) false
    | none => s.mmu.ifs.xlate.valid && s.mmu.ifs.xlate.fault

/-- The PMP denies the address in a walk-result register that holds a translation of the page. -/
def walkPaDenied : Bool :=
  s.mmu.ifs.xlate.valid && !s.mmu.ifs.xlate.fault &&
    s.mmu.ifs.xlate.va.extractLsb' 12 20 == s.core.fetch.pc.extractLsb' 12 20 &&
    pmpDeniesFetch s s.mmu.ifs.xlate.pa

end

section

variable (pc : Word) (regs : RegFile) (payload : Mmu.Req) (inp : Nat → In)

def accepted (t : Nat) : Bool :=
  ifetchAccept (run pc regs payload inp t).core (coreIn (run pc regs payload inp t) (inp t))

/-- The fetch that is in flight in cycle `t`: the last one accepted. -/
def fetchOf : Nat → Nat
  | 0 => 0
  | t + 1 => if accepted pc regs payload inp t then t else fetchOf t

def ifOutAt (t : Nat) : Mmu.Out := ifOut (run pc regs payload inp t) (inp t)

def ifKillCombAt (t : Nat) : Bool :=
  let s := run pc regs payload inp t
  s.mmu.ifs.pmpKillComb (ctx s.core.csr) (Mmu.ifAccess (ctx s.core.csr)) (ifPort s (inp t))

def ifIssued (t : Nat) : Bool := (ifOutAt pc regs payload inp t).dsReqValid && (inp t).ifReqReady
def ifReturned (t : Nat) : Bool := (inp t).ifRspValid && (ifOutAt pc regs payload inp t).dsRspReady

abbrev ifOutstanding : Nat → List Nat :=
  InOrder.outstanding (ifIssued pc regs payload inp) (ifReturned pc regs payload inp)

section

variable (mem : Nat → Word → Option Word)

/-- With the page tables `mem`, the answer of cycle `t` is the one that the fetch accepted in cycle `a` calls for. -/
def AnswersFor (a t : Nat) : Prop :=
  let o := ifOutAt pc regs payload inp t
  match fetchVerdict (run pc regs payload inp a) (mem a) with
  | .pageFault => ifIssued pc regs payload inp a = false ∧ o.rspValid = true ∧ o.rspPagefault = true
  | .accessFault =>
      ifIssued pc regs payload inp a = false ∧ o.rspValid = true ∧ o.rspFault = true ∧ o.rspPagefault = false
  | .issue pa =>
      ifIssued pc regs payload inp a = true ∧ (ifOutAt pc regs payload inp a).dsReq.addr = pa ∧
        (o.rspValid = true ↔
          ifReturned pc regs payload inp t = true ∧ (ifOutstanding pc regs payload inp t).head? = some a) ∧
        (o.rspValid = true →
          o.rspData = (inp t).ifRspData ∧ o.rspFault = (inp t).ifRspFault ∧ o.rspPagefault = false)

/-- In cycle `t` the fetch in flight, if there is one, gets the answer it calls for or none; no other fetch is
accepted, and one answer ends it. -/
def FetchMatched (t : Nat) : Prop :=
  (run pc regs payload inp t).core.fetch.inflight = true →
    accepted pc regs payload inp t = false ∧
    ((run pc regs payload inp (t + 1)).core.fetch.inflight = !(ifOutAt pc regs payload inp t).rspValid) ∧
    AnswersFor pc regs payload inp mem (fetchOf pc regs payload inp t) t

end

/-- The context of fetches is what it was when the fetch in flight was accepted. -/
def ContextHeld (t : Nat) : Prop :=
  let c := ctx (run pc regs payload inp t).core.csr
  let c₀ := ctx (run pc regs payload inp (fetchOf pc regs payload inp t)).core.csr
  (run pc regs payload inp t).core.fetch.inflight = true →
    c.satp = c₀.satp ∧ c.priv = c₀.priv ∧ c.sum = c₀.sum ∧ c.mxr = c₀.mxr ∧
      (∀ n, c.pmp.cfg n = c₀.pmp.cfg n) ∧ ∀ n, c.pmp.addr n = c₀.pmp.addr n

/-- The bus answers nothing that was not issued. -/
def BusAnswers (t : Nat) : Prop := (inp t).ifRspValid = true → ifOutstanding pc regs payload inp t ≠ []

instance (t : Nat) : Decidable (ContextHeld pc regs payload inp t) :=
  inferInstanceAs (Decidable (_ = true → _ ∧ _ ∧ _ ∧ _ ∧ (∀ _ : Fin 16, _ = _) ∧ ∀ _ : Fin 16, _ = _))

instance (t : Nat) : Decidable (BusAnswers pc regs payload inp t) :=
  inferInstanceAs (Decidable (_ = true → _ ≠ []))

/-- At the acceptance of the fetch in flight, the address then on the port was denied if the translation denies it, and
else had the address of the translation put out; since then the address on the port is denied if the fetch is, passes
if the fetch does, and a response finds an answering branch. -/
def FetchSteady (mem : Nat → Word → Option Word) (t : Nat) : Prop :=
  let a := fetchOf pc regs payload inp t
  let s₀ := run pc regs payload inp a
  let s := run pc regs payload inp t
  s.core.fetch.inflight = true →
    match fetchVerdict s₀ (mem a) with
    | .pageFault => portDenied s₀ = true ∧ walkPaDenied s₀ = false ∧ portDenied s = true
    | .accessFault => portDenied s₀ = false ∧ pmpDeniesFetch s₀ (fetchPa s₀) = true
    | .issue pa =>
        portDenied s₀ = false ∧ fetchPa s₀ = pa ∧ portDenied s = false ∧
          (exposed pc regs payload inp t = true → (inp t).ifRspValid = true → Answerable s)

end

instance decidableVerdict {A B : Prop} {C : Word → Prop} [Decidable A] [Decidable B] [∀ pa, Decidable (C pa)] :
    (v : Verdict) → Decidable (match v with | .pageFault => A | .accessFault => B | .issue pa => C pa)
  | .pageFault => inferInstanceAs (Decidable A)
  | .accessFault => inferInstanceAs (Decidable B)
  | .issue pa => inferInstanceAs (Decidable (C pa))

instance (s : State) : Decidable (Answerable s) := inferInstanceAs (Decidable (_ ∨ _ ∨ _ ∨ _))

instance (pc : Word) (regs : RegFile) (payload : Mmu.Req) (inp : Nat → In) (mem : Nat → Word → Option Word) (t : Nat) :
    Decidable (FetchSteady pc regs payload inp mem t) :=
  inferInstanceAs (Decidable (_ = true → _))

variable {pc : Word} {regs : RegFile} {payload : Mmu.Req} {inp : Nat → In} {mem : Nat → Word → Option Word} {s : State}
  {i : In} {a t T : Nat}

/-! ## The accepting cycle -/

theorem portDenied_iff : portDenied s = true ↔
    xlateIf s = true ∧ match ifHit s with
      | some e => e.permOk (ctx s.core.csr) (Mmu.ifAccess (ctx s.core.csr)) false = false
      | none => s.mmu.ifs.xlate.valid = true ∧ s.mmu.ifs.xlate.fault = true := by
  unfold portDenied
  cases xlateIf s
  · simp
  · cases ifHit s <;> simp

/-- Without a TLB hit and without a walk result for the page the MMU waits. -/
theorem walk_of_accept (h : ifetchAccept s.core (coreIn s i) = true) (hp : s.mmu.ifs.pmpPending = false)
    (hx : xlateIf s = true) (hh : ifHit s = none) : s.mmu.ifs.cacheUsable (ifPort s i) = true := by
  obtain ⟨-, hq, hready⟩ := accept_elim h
  have hx' : (Mmu.ifAccess (ctx s.core.csr)).xlate = true := hx
  have hh' : s.mmu.ifs.hit (ctx s.core.csr) (ifPort s i) = none := hh
  have hlive : s.mmu.ifs.cacheLive (ifPort s i) = s.mmu.ifs.cacheUsable (ifPort s i) := by
    simp [Mmu.Side.cacheLive, Mmu.Side.cacheUsable, hq]
  cases hu : s.mmu.ifs.cacheUsable (ifPort s i)
  · have hb : s.mmu.ifs.branch (ctx s.core.csr) (Mmu.ifAccess (ctx s.core.csr)) (ifPort s i) = .wait := by
      rw [Mmu.Side.branch_wait_iff, hh', hlive, hu]
      exact ⟨hx, rfl, rfl⟩
    have hk : s.mmu.ifs.pmpKill (ctx s.core.csr) (Mmu.ifAccess (ctx s.core.csr)) (ifPort s i) = false := by
      have ha := Mmu.Side.pmpAddr_of_not_go (p := ifPort s i) hx' (Mmu.Side.tlbGo_of_miss hh')
      rw [Mmu.Side.cacheUsable] at hu
      have hu' : (s.mmu.ifs.xlate.valid && !s.mmu.ifs.xlate.fault && s.mmu.ifs.vaMatch (ifPort s i)) = false := by
        rw [Bool.and_right_comm, hu, Bool.false_and]
      rw [hu'] at ha
      simp [Mmu.Side.pmpKill, Mmu.Side.pmpKillComb, ha, hp]
    rw [ifOut_eq, (Mmu.Side.out_of_wait hk hb).1] at hready
    simp at hready
  · rfl

/-- The PMP checks the address that goes out. -/
theorem pmpAddr_of_granted (h : ifetchAccept s.core (coreIn s i) = true)
    (hp : s.mmu.ifs.pmpPending = false) (hd : portDenied s = false) :
    s.mmu.ifs.pmpAddr (ctx s.core.csr) (Mmu.ifAccess (ctx s.core.csr)) (ifPort s i) = some (fetchPa s) := by
  cases hx : xlateIf s
  · have hx' : (Mmu.ifAccess (ctx s.core.csr)).xlate = false := hx
    rw [Mmu.Side.pmpAddr_bare hx', ifPort_addr]
    simp [fetchPa, hx]
  · have hx' : (Mmu.ifAccess (ctx s.core.csr)).xlate = true := hx
    cases hh : ifHit s with
    | some e =>
        have hh' : s.mmu.ifs.hit (ctx s.core.csr) (ifPort s i) = some e := hh
        have hperm : e.permOk (ctx s.core.csr) (Mmu.ifAccess (ctx s.core.csr)) false = true := by
          simpa [portDenied, hx, hh] using hd
        have hgo := Mmu.Side.tlbGo_of_hit hx' hh'
        rw [Mmu.Side.pmpAddr_of_go hx' (hgo.trans hperm), Mmu.Side.tlbPa_of_hit hh', ifPort_addr]
        simp [fetchPa, hx, hh]
    | none =>
        have hh' : s.mmu.ifs.hit (ctx s.core.csr) (ifPort s i) = none := hh
        have hu := walk_of_accept h hp hx hh
        simp only [Mmu.Side.cacheUsable, Bool.and_eq_true] at hu
        have hf : s.mmu.ifs.xlate.fault = false := by simpa [portDenied, hx, hh, hu.1] using hd
        rw [Mmu.Side.pmpAddr_of_not_go hx' (Mmu.Side.tlbGo_of_miss hh'), hu.1, hf, hu.2]
        simp [fetchPa, hx, hh]

theorem pmpKillComb_of_addr {pa : Word} (hq : (ifPort s i).reqValid = true)
    (ha : s.mmu.ifs.pmpAddr (ctx s.core.csr) (Mmu.ifAccess (ctx s.core.csr)) (ifPort s i) = some pa) :
    s.mmu.ifs.pmpKillComb (ctx s.core.csr) (Mmu.ifAccess (ctx s.core.csr)) (ifPort s i) = pmpDeniesFetch s pa := by
  rw [Mmu.Side.pmpKillComb, ha]
  simp only [hq, Bool.true_and]
  rfl

theorem pmpKillComb_of_denied (hq : (ifPort s i).reqValid = true) (hd : portDenied s = true) :
    s.mmu.ifs.pmpKillComb (ctx s.core.csr) (Mmu.ifAccess (ctx s.core.csr)) (ifPort s i) = walkPaDenied s := by
  obtain ⟨hx, hd⟩ := portDenied_iff.mp hd
  have hx' : (Mmu.ifAccess (ctx s.core.csr)).xlate = true := hx
  have hgo : s.mmu.ifs.tlbGo (ctx s.core.csr) (Mmu.ifAccess (ctx s.core.csr)) (ifPort s i) = false := by
    cases hh : ifHit s with
    | none =>
        have hh' : s.mmu.ifs.hit (ctx s.core.csr) (ifPort s i) = none := hh
        exact Mmu.Side.tlbGo_of_miss hh'
    | some e =>
        have hh' : s.mmu.ifs.hit (ctx s.core.csr) (ifPort s i) = some e := hh
        rw [hh] at hd
        exact (Mmu.Side.tlbGo_of_hit hx' hh').trans hd
  have ha := Mmu.Side.pmpAddr_of_not_go (p := ifPort s i) hx' hgo
  rw [walkPaDenied, ← ifVaMatch_eq i]
  cases hc : (s.mmu.ifs.xlate.valid && !s.mmu.ifs.xlate.fault && s.mmu.ifs.vaMatch (ifPort s i))
  · simp [Mmu.Side.pmpKillComb, ha, hc]
  · rw [hc] at ha
    rw [pmpKillComb_of_addr hq ha, Bool.true_and]

/-- What the translation grants is denied on the port by a fault in the walk-result register, if at all. -/
theorem walkPaDenied_of_translation {pa : Word} {mem : Word → Option Word} (ht : fetchTranslation s mem = some pa)
    (hd : portDenied s = true) : walkPaDenied s = false := by
  obtain ⟨hx, hd⟩ := portDenied_iff.mp hd
  unfold fetchTranslation at ht
  rw [if_pos hx] at ht
  cases hh : ifHit s with
  | some e => simp [hh] at ht hd; simp [hd] at ht
  | none =>
      rw [hh] at hd
      simp [walkPaDenied, hd.2]

theorem refuses_of_accept (h : ifetchAccept s.core (coreIn s i) = true) (hp : s.mmu.ifs.pmpPending = false) :
    (s.mmu.ifs.branch (ctx s.core.csr) (Mmu.ifAccess (ctx s.core.csr)) (ifPort s i)).refuses = true ↔
      portDenied s = true := by
  have hx' : (Mmu.ifAccess (ctx s.core.csr)).xlate = xlateIf s := rfl
  have hhit : s.mmu.ifs.hit (ctx s.core.csr) (ifPort s i) = ifHit s := rfl
  rw [Mmu.Side.branch_refuses_iff, portDenied_iff, hx', hhit]
  refine and_congr_right fun hx => ?_
  cases hh : ifHit s with
  | some e => rfl
  | none =>
      have hu := walk_of_accept h hp hx hh
      simp only [Mmu.Side.cacheUsable, Bool.and_eq_true] at hu
      simp [Mmu.Side.cacheLive, hu.1, hu.2]

theorem fetchPa_of_passes (hb : (s.mmu.ifs.branch (ctx s.core.csr) (Mmu.ifAccess (ctx s.core.csr))
    (ifPort s i)).passes = true) :
    (s.mmu.ifs.muxed (ctx s.core.csr) (Mmu.ifAccess (ctx s.core.csr)) (ifPort s i)).dsReq.addr = fetchPa s := by
  have hx' : (Mmu.ifAccess (ctx s.core.csr)).xlate = xlateIf s := rfl
  have hhit : s.mmu.ifs.hit (ctx s.core.csr) (ifPort s i) = ifHit s := rfl
  rw [Mmu.Side.pass_addr hb]
  cases hx : xlateIf s
  · rw [Mmu.Side.branch_bare_iff.mpr (hx'.trans hx), ifPort_addr]
    simp [fetchPa, hx]
  · cases hh : ifHit s with
    | some e =>
        rw [Mmu.Side.branch_of_hit (hx'.trans hx) (hhit.trans hh)] at hb ⊢
        cases hperm : e.permOk (ctx s.core.csr) (Mmu.ifAccess (ctx s.core.csr)) (ifPort s i).req.wen
        · simp [hperm, Mmu.Branch.passes] at hb
        · simp [fetchPa, hx, hh, Mmu.Side.tlbPa_of_hit (hhit.trans hh), ifPort_addr]
    | none =>
        cases hl : s.mmu.ifs.cacheLive (ifPort s i)
        · rw [Mmu.Side.branch_wait_iff.mpr ⟨hx'.trans hx, by simp [hhit, hh], hl⟩] at hb
          simp [Mmu.Branch.passes] at hb
        · rw [Mmu.Side.branch_of_miss (hx'.trans hx) (hhit.trans hh) hl] at hb ⊢
          cases hf : s.mmu.ifs.xlate.fault
          · simp [fetchPa, hx, hh]
          · simp [hf, Mmu.Branch.passes] at hb

/-- A fetch that the PMP lets pass is refused, or issued for `fetchPa`. -/
theorem issued_of_accept (h : ifetchAccept s.core (coreIn s i) = true) (hp : s.mmu.ifs.pmpPending = false)
    (hk : s.mmu.ifs.pmpKillComb (ctx s.core.csr) (Mmu.ifAccess (ctx s.core.csr)) (ifPort s i) = false) :
    (portDenied s = true ∧ (ifOut s i).dsReqValid = false) ∨
      (portDenied s = false ∧ (ifOut s i).dsReqValid = true ∧ i.ifReqReady = true ∧
        (ifOut s i).dsReq.addr = fetchPa s) := by
  obtain ⟨-, hq, hready⟩ := accept_elim h
  have hkill : s.mmu.ifs.pmpKill (ctx s.core.csr) (Mmu.ifAccess (ctx s.core.csr)) (ifPort s i) = false := by
    simp [Mmu.Side.pmpKill, hk, hp]
  rw [ifOut_eq] at hready ⊢
  rcases Mmu.Branch.cases_kind
    (s.mmu.ifs.branch (ctx s.core.csr) (Mmu.ifAccess (ctx s.core.csr)) (ifPort s i)) with hb | hb | hb
  · right
    have hout := Mmu.Side.out_of_passes hkill hb
    refine ⟨?_, by rw [hout.2.2.2.2.2, hq], by rw [hout.1] at hready; exact hready, ?_⟩
    · cases hd : portDenied s
      · rfl
      · exact absurd hb (Mmu.Branch.not_passes_of_refuses ((refuses_of_accept h hp).mpr hd))
    · rw [← fetchPa_of_passes hb, Mmu.Side.out, hkill]
      rfl
  · exact Or.inl ⟨(refuses_of_accept h hp).mp hb, (Mmu.Side.out_of_refuses hkill hb).2.2.2.2⟩
  · rw [(Mmu.Side.out_of_wait hkill hb).1] at hready
    simp at hready

/-! ## Flights -/

theorem step_pmpPending : (step s i).mmu.ifs.pmpPending =
    s.mmu.ifs.pmpPendingNext (ctx s.core.csr) (Mmu.ifAccess (ctx s.core.csr)) (ifPort s i) := rfl

theorem pmpPending_of_accept (h : ifetchAccept s.core (coreIn s i) = true) (hp : s.mmu.ifs.pmpPending = false) :
    (step s i).mmu.ifs.pmpPending =
      s.mmu.ifs.pmpKillComb (ctx s.core.csr) (Mmu.ifAccess (ctx s.core.csr)) (ifPort s i) := by
  obtain ⟨hin, hq, -⟩ := accept_elim h
  have hr : (ifPort s i).rspReady = false := hin
  rw [step_pmpPending, Mmu.Side.pmpPendingNext, hq, hr, hp]
  cases s.mmu.ifs.pmpKillComb (ctx s.core.csr) (Mmu.ifAccess (ctx s.core.csr)) (ifPort s i) <;> rfl

theorem pmpPending_of_inflight (hin : s.core.fetch.inflight = true) : (step s i).mmu.ifs.pmpPending = false := by
  have hq : (ifPort s i).reqValid = false := no_req_of_inflight hin
  have hr : (ifPort s i).rspReady = true := hin
  rw [step_pmpPending, Mmu.Side.pmpPendingNext, hq, hr]
  cases s.mmu.ifs.pmpPending <;> simp

theorem pmpPending_of_idle (hin : s.core.fetch.inflight = false) (hp : s.mmu.ifs.pmpPending = false)
    (h : ifetchAccept s.core (coreIn s i) = false) : (step s i).mmu.ifs.pmpPending = false := by
  have hr : (ifPort s i).rspReady = false := hin
  rw [step_pmpPending, Mmu.Side.pmpPendingNext, hr, hp]
  cases hq : (ifPort s i).reqValid
  · simp
  cases hk : s.mmu.ifs.pmpKillComb (ctx s.core.csr) (Mmu.ifAccess (ctx s.core.csr)) (ifPort s i)
  · simp
  · have hkill : s.mmu.ifs.pmpKill (ctx s.core.csr) (Mmu.ifAccess (ctx s.core.csr)) (ifPort s i) = true := by
      simp [Mmu.Side.pmpKill, hk]
    have hready : (coreIn s i).ifetchReqReady = true := (Mmu.Side.out_of_kill hkill).1
    have hreq : CorePipeline.ifetchReqValid s.core (coreIn s i).ext = true := hq
    simp [ifetchAccept, hready, hreq] at h

theorem rspValid_of_pending (hp : s.mmu.ifs.pmpPending = true) : (ifOut s i).rspValid = true := by
  have hk : s.mmu.ifs.pmpKill (ctx s.core.csr) (Mmu.ifAccess (ctx s.core.csr)) (ifPort s i) = true := by
    simp [Mmu.Side.pmpKill, hp]
  exact (Mmu.Side.out_of_kill hk).2.1

/-- The fetch in flight in cycle `t` was accepted in cycle `a`, and a denial of the PMP is pending exactly if
it was raised there. -/
structure Flight (pc : Word) (regs : RegFile) (payload : Mmu.Req) (inp : Nat → In) (a t : Nat) : Prop where
  accepted : accepted pc regs payload inp a = true
  fresh : (run pc regs payload inp a).mmu.ifs.pmpPending = false
  pending : (run pc regs payload inp t).mmu.ifs.pmpPending = ifKillCombAt pc regs payload inp a

/-- Without a fetch in flight no denial of the PMP is pending. -/
theorem flight_run (t : Nat) :
    ((run pc regs payload inp t).core.fetch.inflight = true →
        Flight pc regs payload inp (fetchOf pc regs payload inp t) t) ∧
      ((run pc regs payload inp t).core.fetch.inflight = false →
        (run pc regs payload inp t).mmu.ifs.pmpPending = false) := by
  induction t with
  | zero => exact ⟨fun h => by simp [run, reset, CorePipeline.reset] at h, fun _ => rfl⟩
  | succ t ih =>
      have hs : run pc regs payload inp (t + 1) = step (run pc regs payload inp t) (inp t) := rfl
      rw [hs, step_inflight]
      cases ha : ifetchAccept (run pc regs payload inp t).core (coreIn (run pc regs payload inp t) (inp t))
      · have hf : fetchOf pc regs payload inp (t + 1) = fetchOf pc regs payload inp t := by
          simp [fetchOf, Soc.accepted, ha]
        cases hin : (run pc regs payload inp t).core.fetch.inflight
        · exact ⟨by simp, fun _ => pmpPending_of_idle hin (ih.2 hin) ha⟩
        · have hstep := pmpPending_of_inflight (i := inp t) hin
          refine ⟨fun ho => ?_, fun _ => hstep⟩
          have hfl := ih.1 hin
          have hp : (run pc regs payload inp t).mmu.ifs.pmpPending = false := by
            cases hp : (run pc regs payload inp t).mmu.ifs.pmpPending
            · rfl
            · simp [rspValid_of_pending hp] at ho
          rw [hf]
          exact ⟨hfl.accepted, hfl.fresh, by rw [hs, hstep, ← hfl.pending, hp]⟩
      · have hf : fetchOf pc regs payload inp (t + 1) = t := by simp [fetchOf, Soc.accepted, ha]
        have hp := ih.2 (accept_elim ha).1
        rw [hf]
        exact ⟨fun _ => ⟨ha, hp, pmpPending_of_accept ha hp⟩, by simp⟩

/-! ## Requests on the bus -/

/-- The bus owes an answer exactly for the fetch in flight, if that was issued. -/
def BusInv (pc : Word) (regs : RegFile) (payload : Mmu.Req) (inp : Nat → In) (t : Nat) : Prop :=
  ifOutstanding pc regs payload inp t =
    if (run pc regs payload inp t).core.fetch.inflight = true ∧
        ifIssued pc regs payload inp (fetchOf pc regs payload inp t) = true then
      [fetchOf pc regs payload inp t]
    else []

theorem accepted_of_issued (h : ifIssued pc regs payload inp t = true) : accepted pc regs payload inp t = true := by
  simp only [ifIssued, ifOutAt, Bool.and_eq_true] at h
  obtain ⟨hv, hr⟩ := h
  generalize hs : run pc regs payload inp t = s at hv
  have hk : s.mmu.ifs.pmpKill (ctx s.core.csr) (Mmu.ifAccess (ctx s.core.csr)) (ifPort s (inp t)) = false := by
    cases hk : s.mmu.ifs.pmpKill (ctx s.core.csr) (Mmu.ifAccess (ctx s.core.csr)) (ifPort s (inp t))
    · rfl
    · rw [ifOut_eq, (Mmu.Side.out_of_kill hk).2.2.2.2] at hv
      simp at hv
  have hb : (s.mmu.ifs.branch (ctx s.core.csr) (Mmu.ifAccess (ctx s.core.csr)) (ifPort s (inp t))).passes = true := by
    rcases Mmu.Branch.cases_kind
      (s.mmu.ifs.branch (ctx s.core.csr) (Mmu.ifAccess (ctx s.core.csr)) (ifPort s (inp t))) with hb | hb | hb
    · exact hb
    · rw [ifOut_eq, (Mmu.Side.out_of_refuses hk hb).2.2.2.2] at hv
      simp at hv
    · rw [ifOut_eq, (Mmu.Side.out_of_wait hk hb).2.2] at hv
      simp at hv
  obtain ⟨hready, -, -, -, -, hreq⟩ := Mmu.Side.out_of_passes hk hb
  have h₁ : (ifOut s (inp t)).reqReady = true := hready.trans hr
  have h₂ : CorePipeline.ifetchReqValid s.core (coreIn s (inp t)).ext = true := hreq.symm.trans hv
  rw [accepted, hs, ifetchAccept, h₂]
  exact h₁

theorem busInv_step (hq : BusInv pc regs payload inp t) (hm : FetchMatched pc regs payload inp mem t) :
    BusInv pc regs payload inp (t + 1) := by
  unfold BusInv ifOutstanding at hq ⊢
  have hs : (run pc regs payload inp (t + 1)).core.fetch.inflight = (accepted pc regs payload inp t ||
      (run pc regs payload inp t).core.fetch.inflight && !(ifOutAt pc regs payload inp t).rspValid) := step_inflight
  rw [hs]
  cases ha : accepted pc regs payload inp t
  · have hi : ifIssued pc regs payload inp t = false := by
      cases hi : ifIssued pc regs payload inp t
      · rfl
      · rw [accepted_of_issued hi] at ha; simp at ha
    have hf : fetchOf pc regs payload inp (t + 1) = fetchOf pc regs payload inp t := by simp [fetchOf, ha]
    rw [hf]
    cases hin : (run pc regs payload inp t).core.fetch.inflight
    · rw [hin] at hq
      rw [InOrder.outstanding_issue (by simpa using hq), hi]
      simp
    · obtain ⟨-, -, hans⟩ := hm hin
      rw [hin] at hq
      cases hia : ifIssued pc regs payload inp (fetchOf pc regs payload inp t)
      · rw [hia] at hq
        rw [InOrder.outstanding_issue (by simpa using hq), hi]
        simp
      · simp only [hia, and_self, ↓reduceIte] at hq
        unfold AnswersFor ifOutstanding at hans
        cases hv : fetchVerdict (run pc regs payload inp (fetchOf pc regs payload inp t))
            (mem (fetchOf pc regs payload inp t)) with
        | pageFault => rw [hv] at hans; rw [hans.1] at hia; simp at hia
        | accessFault => rw [hv] at hans; rw [hans.1] at hia; simp at hia
        | issue pa =>
            rw [hv] at hans
            have hret := hans.2.2.1
            simp only [hq, List.head?_cons, and_true] at hret
            cases hr : (ifOutAt pc regs payload inp t).rspValid
            · have hn : ifReturned pc regs payload inp t = false := by simpa [hr] using hret
              rw [InOrder.outstanding_idle hi hn, hq]
              simp
            · have hn : ifReturned pc regs payload inp t = true := hret.mp hr
              rw [InOrder.outstanding_return hq hi hn]
              simp
  · have hin : (run pc regs payload inp t).core.fetch.inflight = false := (accept_elim ha).1
    have hf : fetchOf pc regs payload inp (t + 1) = t := by simp [fetchOf, ha]
    rw [hin] at hq
    rw [InOrder.outstanding_issue (by simpa using hq), hf]
    simp

/-- In flight the MMU refuses exactly where the address on the port is denied. -/
theorem refuses_of_inflight (hin : s.core.fetch.inflight = true) :
    (s.mmu.ifs.branch (ctx s.core.csr) (Mmu.ifAccess (ctx s.core.csr)) (ifPort s i)).refuses = true ↔
      portDenied s = true := by
  have hx' : (Mmu.ifAccess (ctx s.core.csr)).xlate = xlateIf s := rfl
  have hhit : s.mmu.ifs.hit (ctx s.core.csr) (ifPort s i) = ifHit s := rfl
  have hl : s.mmu.ifs.cacheLive (ifPort s i) = s.mmu.ifs.xlate.valid := by
    simp [Mmu.Side.cacheLive, no_req_of_inflight hin]
  have hw : (ifPort s i).req.wen = false := rfl
  rw [Mmu.Side.branch_refuses_iff, hx', hhit, hl, hw, portDenied, Bool.and_eq_true]
  refine and_congr_right fun _ => ?_
  cases ifHit s <;> simp

theorem not_issued_of_killComb (hk : ifKillCombAt pc regs payload inp a = true) :
    ifIssued pc regs payload inp a = false := by
  have hkill : (run pc regs payload inp a).mmu.ifs.pmpKill (ctx (run pc regs payload inp a).core.csr)
      (Mmu.ifAccess (ctx (run pc regs payload inp a).core.csr)) (ifPort (run pc regs payload inp a) (inp a)) =
      true := by
    simp only [Mmu.Side.pmpKill, Bool.or_eq_true]
    exact Or.inl hk
  have h := (Mmu.Side.out_of_kill hkill).2.2.2.2
  rw [ifIssued, ifOutAt, ifOut_eq, h, Bool.false_and]

namespace Flight

variable (fl : Flight pc regs payload inp a t) (hin : (run pc regs payload inp t).core.fetch.inflight = true)
include fl

theorem killComb_of_denied (hd : portDenied (run pc regs payload inp a) = true) :
    ifKillCombAt pc regs payload inp a = walkPaDenied (run pc regs payload inp a) :=
  pmpKillComb_of_denied (accept_elim fl.accepted).2.1 hd

theorem killComb_of_granted (hd : portDenied (run pc regs payload inp a) = false) :
    ifKillCombAt pc regs payload inp a =
      pmpDeniesFetch (run pc regs payload inp a) (fetchPa (run pc regs payload inp a)) :=
  pmpKillComb_of_addr (accept_elim fl.accepted).2.1 (pmpAddr_of_granted fl.accepted fl.fresh hd)

/-- What the PMP lets pass at the acceptance was refused there, or issued. -/
theorem issued_eq (hk : ifKillCombAt pc regs payload inp a = false) :
    ifIssued pc regs payload inp a = !portDenied (run pc regs payload inp a) := by
  rcases issued_of_accept fl.accepted fl.fresh hk with ⟨hd, hv⟩ | ⟨hd, hv, hr, -⟩
  · rw [ifIssued, ifOutAt, hv, hd]
    rfl
  · rw [ifIssued, ifOutAt, hv, hr, hd]
    rfl

include hin

theorem kill_eq : (run pc regs payload inp t).mmu.ifs.pmpKill (ctx (run pc regs payload inp t).core.csr)
    (Mmu.ifAccess (ctx (run pc regs payload inp t).core.csr)) (ifPort (run pc regs payload inp t) (inp t)) =
    ifKillCombAt pc regs payload inp a := by
  rw [Mmu.Side.pmpKill_of_no_req (no_req_of_inflight hin), fl.pending]

theorem rspValid_of_killComb (hk : ifKillCombAt pc regs payload inp a = true) :
    (ifOutAt pc regs payload inp t).rspValid = true ∧ (ifOutAt pc regs payload inp t).rspFault = true ∧
      (ifOutAt pc regs payload inp t).rspPagefault = false := by
  obtain ⟨-, hv, hf, hp, -⟩ := Mmu.Side.out_of_kill ((fl.kill_eq hin).trans hk)
  exact ⟨hv, hf, hp⟩

/-- Without a denial of the PMP: the MMU refuses, waits, or hands the answer of the bus through. -/
theorem answer_cases (hk : ifKillCombAt pc regs payload inp a = false) :
    let o := ifOutAt pc regs payload inp t
    (portDenied (run pc regs payload inp t) = true ∧ o.rspValid = true ∧ o.rspPagefault = true) ∨
    (portDenied (run pc regs payload inp t) = false ∧ o.rspValid = false ∧
      ifReturned pc regs payload inp t = (inp t).ifRspValid) ∨
    (portDenied (run pc regs payload inp t) = false ∧ o.rspValid = (inp t).ifRspValid ∧
      ifReturned pc regs payload inp t = (inp t).ifRspValid ∧ o.rspData = (inp t).ifRspData ∧
      o.rspFault = (inp t).ifRspFault ∧ o.rspPagefault = false) := by
  have hkill := (fl.kill_eq hin).trans hk
  have hr : (ifPort (run pc regs payload inp t) (inp t)).rspReady = true := hin
  have hden := refuses_of_inflight (i := inp t) hin
  rcases Mmu.Branch.cases_kind ((run pc regs payload inp t).mmu.ifs.branch
    (ctx (run pc regs payload inp t).core.csr) (Mmu.ifAccess (ctx (run pc regs payload inp t).core.csr))
    (ifPort (run pc regs payload inp t) (inp t))) with hb | hb | hb
  · have hd : portDenied (run pc regs payload inp t) = false := by
      rw [← Bool.not_eq_true, ← hden]
      exact fun h => Mmu.Branch.not_passes_of_refuses h hb
    obtain ⟨-, hv, hdata, hf, hp, -⟩ := Mmu.Side.out_of_passes hkill hb
    refine Or.inr (Or.inr ⟨hd, hv, ?_, hdata, hf, hp⟩)
    rw [ifReturned, ifOutAt, ifOut_eq, Mmu.Side.dsRspReady_of_passes hkill hb, hr, Bool.and_true]
  · obtain ⟨-, hv, -, hp, -⟩ := Mmu.Side.out_of_refuses hkill hb
    exact Or.inl ⟨hden.mp hb, hv, hp⟩
  · have hd : portDenied (run pc regs payload inp t) = false := by
      rw [← Bool.not_eq_true, ← hden, hb]
      simp [Mmu.Branch.refuses]
    refine Or.inr (Or.inl ⟨hd, (Mmu.Side.out_of_wait hkill hb).2.1, ?_⟩)
    rw [ifReturned, ifOutAt, ifOut_eq, Mmu.Side.dsRspReady_of_wait hkill hb, Bool.and_true]

theorem pageFault_iff :
    (ifIssued pc regs payload inp a = false ∧ (ifOutAt pc regs payload inp t).rspValid = true ∧
        (ifOutAt pc regs payload inp t).rspPagefault = true) ↔
      portDenied (run pc regs payload inp a) = true ∧ walkPaDenied (run pc regs payload inp a) = false ∧
        portDenied (run pc regs payload inp t) = true := by
  cases hk : ifKillCombAt pc regs payload inp a
  · have hi := fl.issued_eq hk
    cases hda : portDenied (run pc regs payload inp a)
    · simp [hi, hda]
    · rw [fl.killComb_of_denied hda] at hk
      rcases fl.answer_cases hin ((fl.killComb_of_denied hda).trans hk) with
        ⟨hd, hv, hp⟩ | ⟨hd, hv, -⟩ | ⟨hd, -, -, -, -, hp⟩
      · simp [hi, hda, hk, hv, hp, hd]
      · simp [hv, hd]
      · simp [hp, hd]
  · have hw : portDenied (run pc regs payload inp a) = true → walkPaDenied (run pc regs payload inp a) = true :=
      fun hda => (fl.killComb_of_denied hda).symm.trans hk
    simp only [(fl.rspValid_of_killComb hin hk).2.2, Bool.false_eq_true, and_false, false_iff, not_and]
    intro hda hn
    rw [hw hda] at hn
    simp at hn

/-- The bus answers only what it owes; so an access fault that was not raised by the PMP is not answered. -/
theorem accessFault_iff {pa : Word} {mem : Word → Option Word} (hq : BusInv pc regs payload inp t)
    (hb : BusAnswers pc regs payload inp t) (ha : fetchOf pc regs payload inp t = a)
    (ht : fetchTranslation (run pc regs payload inp a) mem = some pa) :
    (ifIssued pc regs payload inp a = false ∧ (ifOutAt pc regs payload inp t).rspValid = true ∧
        (ifOutAt pc regs payload inp t).rspFault = true ∧ (ifOutAt pc regs payload inp t).rspPagefault = false) ↔
      portDenied (run pc regs payload inp a) = false ∧
        pmpDeniesFetch (run pc regs payload inp a) (fetchPa (run pc regs payload inp a)) = true := by
  cases hda : portDenied (run pc regs payload inp a)
  · have hk := fl.killComb_of_granted hda
    cases hw : pmpDeniesFetch (run pc regs payload inp a) (fetchPa (run pc regs payload inp a))
    · simp [fl.issued_eq (hk.trans hw), hda]
    · obtain ⟨hv, hf, hp⟩ := fl.rspValid_of_killComb hin (hk.trans hw)
      simp [not_issued_of_killComb (hk.trans hw), hv, hf, hp]
  · have hk := (fl.killComb_of_denied hda).trans (walkPaDenied_of_translation ht hda)
    have hi : ifIssued pc regs payload inp a = false := by rw [fl.issued_eq hk, hda]; rfl
    have hn : (inp t).ifRspValid = false := by
      cases hn : (inp t).ifRspValid
      · rfl
      · rw [BusInv, ha, hi] at hq
        exact absurd (by simpa using hq) (hb hn)
    rcases fl.answer_cases hin hk with ⟨-, -, hp⟩ | ⟨-, hv, -⟩ | ⟨-, hv, -⟩
    · simp [hp]
    · simp [hv]
    · simp [hv, hn]

theorem issue_iff {pa : Word} (hq : BusInv pc regs payload inp t) (ha : fetchOf pc regs payload inp t = a)
    (hpmp : pmpDeniesFetch (run pc regs payload inp a) pa = false) :
    (ifIssued pc regs payload inp a = true ∧ (ifOutAt pc regs payload inp a).dsReq.addr = pa ∧
        ((ifOutAt pc regs payload inp t).rspValid = true ↔
          ifReturned pc regs payload inp t = true ∧ (ifOutstanding pc regs payload inp t).head? = some a) ∧
        ((ifOutAt pc regs payload inp t).rspValid = true →
          (ifOutAt pc regs payload inp t).rspData = (inp t).ifRspData ∧
            (ifOutAt pc regs payload inp t).rspFault = (inp t).ifRspFault ∧
            (ifOutAt pc regs payload inp t).rspPagefault = false)) ↔
      portDenied (run pc regs payload inp a) = false ∧ fetchPa (run pc regs payload inp a) = pa ∧
        portDenied (run pc regs payload inp t) = false ∧
        (exposed pc regs payload inp t = true → (inp t).ifRspValid = true → Answerable (run pc regs payload inp t)) := by
  rw [BusInv, hin, ha] at hq
  constructor
  · rintro ⟨hi, haddr, hrsp, hdata⟩
    rw [hi] at hq
    have hk' : ifKillCombAt pc regs payload inp a = false := by
      cases hk' : ifKillCombAt pc regs payload inp a
      · rfl
      · rw [not_issued_of_killComb hk'] at hi; simp at hi
    simp only [hq, and_self, ↓reduceIte, List.head?_cons, and_true] at hrsp
    obtain ⟨hda, hpa⟩ : portDenied (run pc regs payload inp a) = false ∧ fetchPa (run pc regs payload inp a) = pa := by
      rcases issued_of_accept fl.accepted fl.fresh hk' with ⟨h, -⟩ | ⟨h, -, -, ho⟩
      · rw [fl.issued_eq hk', h] at hi; simp at hi
      · exact ⟨h, by rw [← haddr, ifOutAt, ho]⟩
    rcases fl.answer_cases hin hk' with ⟨-, hv, hp⟩ | ⟨hd, hv, hret⟩ | ⟨hd, hv, -, -, -, -⟩
    · rw [(hdata hv).2.2] at hp; simp at hp
    · refine ⟨hda, hpa, hd, fun _ hr => ?_⟩
      rw [hret, hv, hr] at hrsp; simp at hrsp
    · exact ⟨hda, hpa, hd, fun _ hr => (rspValid_iff hin hr).mp (hv.trans hr)⟩
  · rintro ⟨hda, hpa, hd, hex⟩
    have hk := fl.killComb_of_granted hda
    rw [hpa, hpmp] at hk
    rcases issued_of_accept fl.accepted fl.fresh hk with ⟨h, -⟩ | ⟨-, hv, hr, haddr⟩
    · rw [hda] at h; simp at h
    have hi : ifIssued pc regs payload inp a = true := by rw [ifIssued, ifOutAt, hv, hr, Bool.true_and]
    rw [hi] at hq
    refine ⟨hi, haddr.trans hpa, ?_⟩
    simp only [hq, and_self, ↓reduceIte, List.head?_cons, and_true]
    rcases fl.answer_cases hin hk with ⟨hd', -, -⟩ | ⟨-, hv, hret⟩ | ⟨-, hv, hret, hdata, hf, hp⟩
    · rw [hd] at hd'; simp at hd'
    · have hn : (inp t).ifRspValid = false := by
        cases hn : (inp t).ifRspValid
        · rfl
        · have h := (rspValid_iff hin hn).mpr (answerable_run hin fun he => hex he hn)
          rw [ifOutAt] at hv; rw [hv] at h; simp at h
      simp [hv, hret, hn]
    · exact ⟨by rw [hv, hret], fun _ => ⟨hdata, hf, hp⟩⟩

end Flight

theorem matched_iff_steady (hq : BusInv pc regs payload inp t) (hb : BusAnswers pc regs payload inp t) :
    FetchMatched pc regs payload inp mem t ↔ FetchSteady pc regs payload inp mem t := by
  unfold FetchMatched FetchSteady
  refine forall_congr' fun hin => ?_
  have fl := (flight_run t).1 hin
  have ha : accepted pc regs payload inp t = false := by
    cases ha : accepted pc regs payload inp t
    · rfl
    · rw [(accept_elim ha).1] at hin; simp at hin
  have hn : (run pc regs payload inp (t + 1)).core.fetch.inflight =
      !(ifOutAt pc regs payload inp t).rspValid := by
    have hs := step_inflight (s := run pc regs payload inp t) (i := inp t)
    rw [hin, Bool.true_and] at hs
    rw [accepted] at ha
    rw [ha, Bool.false_or] at hs
    exact hs
  simp only [ha, hn, true_and]
  unfold AnswersFor fetchVerdict
  cases ht : fetchTranslation (run pc regs payload inp (fetchOf pc regs payload inp t))
      (mem (fetchOf pc regs payload inp t)) with
  | none => exact fl.pageFault_iff hin
  | some pa =>
      cases hp : pmpDeniesFetch (run pc regs payload inp (fetchOf pc regs payload inp t)) pa
      · simp only [hp, Bool.false_eq_true, ↓reduceIte]
        exact fl.issue_iff hin hq rfl hp
      · simp only [hp, ↓reduceIte]
        exact fl.accessFault_iff hin hq hb rfl ht

theorem busInv_run (h : ∀ t' < t, FetchMatched pc regs payload inp mem t') : BusInv pc regs payload inp t := by
  induction t with
  | zero => rfl
  | succ t ih => exact busInv_step (ih fun t' ht => h t' (by omega)) (h t (by omega))

theorem matched_iff_steady_upTo (hb : ∀ t ≤ T, BusAnswers pc regs payload inp t) :
    (∀ t ≤ T, FetchMatched pc regs payload inp mem t) ↔ ∀ t ≤ T, FetchSteady pc regs payload inp mem t := by
  constructor
  · intro h t ht
    exact (matched_iff_steady (busInv_run fun t' ht' => h t' (by omega)) (hb t ht)).mp (h t ht)
  · intro h t
    induction t using Nat.strong_induction_on with
    | _ t ih =>
        intro ht
        exact (matched_iff_steady (busInv_run fun t' ht' => ih t' ht' (by omega)) (hb t ht)).mpr (h t ht)

section

variable (pc : Word) (regs : RegFile) (payload : Mmu.Req) (inp : Nat → In)

/-- The inputs of the MMU along the run. -/
def mmuInAt (t : Nat) : Mmu.In := mmuIn (run pc regs payload inp t) (inp t)

/-- The walker's reads are answered from page tables that do not change. -/
def TablesServed (tables : Word → Word) : Prop :=
  Mmu.PtwServed (mmuInAt pc regs payload inp) (Mmu.holds (Mmu.tables tables))

/-- What the walk-result register holds in cycle `a` is what the walk that ended in cycle `e` has left in it; that walk
was made for the address on the port, below the root of the present `satp`, for the present privilege, SUM and MXR. -/
structure MadeBy (e a : Nat) : Prop where
  side : (run pc regs payload inp e).mmu.ptw.side = false
  left : Mmu.walkXlate (run pc regs payload inp e).mmu (mmuInAt pc regs payload inp e)
    (run pc regs payload inp e).mmu.ifs.xlate = some (run pc regs payload inp a).mmu.ifs.xlate
  va : (run pc regs payload inp a).mmu.ifs.xlate.va = (run pc regs payload inp a).core.fetch.pc
  root : Mmu.rootPpn (Mmu.walkSatp (mmuInAt pc regs payload inp) e) =
    Mmu.rootPpn (ctx (run pc regs payload inp a).core.csr).satp
  priv : (run pc regs payload inp e).mmu.ptw.effPriv = (fetchMode (ctx (run pc regs payload inp a).core.csr).priv).bits
  sum : (ctx (run pc regs payload inp e).core.csr).sum = (ctx (run pc regs payload inp a).core.csr).sum
  mxr : (ctx (run pc regs payload inp e).core.csr).mxr = (ctx (run pc regs payload inp a).core.csr).mxr

/-- A fetch accepted without a TLB hit uses a walk-result register that was made in the present context. -/
def MadeHere (a : Nat) : Prop :=
  accepted pc regs payload inp a = true → xlateIf (run pc regs payload inp a) = true →
    ifHit (run pc regs payload inp a) = none → ∃ e, MadeBy pc regs payload inp e a

/-- The fetch in flight is steady since its acceptance. -/
def FlightSteady (mem : Nat → Word → Option Word) (t : Nat) : Prop :=
  let a := fetchOf pc regs payload inp t
  let s := run pc regs payload inp t
  s.core.fetch.inflight = true →
    match fetchVerdict (run pc regs payload inp a) (mem a) with
    | .pageFault => walkPaDenied (run pc regs payload inp a) = false ∧ portDenied s = true
    | .accessFault => True
    | .issue _ =>
        portDenied s = false ∧ (exposed pc regs payload inp t = true → (inp t).ifRspValid = true → Answerable s)

end

theorem mmu_run (t : Nat) : Mmu.run (mmuInAt pc regs payload inp) t = (run pc regs payload inp t).mmu := by
  induction t with
  | zero => rfl
  | succ t ih =>
      show Mmu.step (Mmu.run (mmuInAt pc regs payload inp) t) _ = Mmu.step _ _
      rw [ih]
      rfl

/-- A register made in the present context holds the translation of the address on the port. -/
theorem MadeBy.outcome {tables : Word → Word} {e : Nat} (hs : TablesServed pc regs payload inp tables)
    (h : MadeBy pc regs payload inp e a) :
    (run pc regs payload inp a).mmu.ifs.xlate.outcome = fetchWalk (run pc regs payload inp a) (Mmu.tables tables) := by
  have hx := h.left
  rw [← mmu_run e] at hx
  have hout := Mmu.walkXlate_outcome hs hx (by rw [mmu_run]; exact h.side) (by rw [mmu_run]; exact h.priv)
  rw [hout, h.va, h.root, fetchWalk, ← h.sum, ← h.mxr]
  rfl

theorem fetchOf_le (t : Nat) : fetchOf pc regs payload inp t ≤ t := by
  induction t with
  | zero => exact le_rfl
  | succ t ih =>
      unfold fetchOf
      split
      · exact Nat.le_succ t
      · exact ih.trans (Nat.le_succ t)

/-- With it the address on the port is denied or given its address as the translation has it. -/
theorem steady_of_madeHere {tables : Word → Word} (hs : TablesServed pc regs payload inp tables)
    (h : MadeHere pc regs payload inp a) (ha : accepted pc regs payload inp a = true)
    (hp : (run pc regs payload inp a).mmu.ifs.pmpPending = false) :
    match fetchTranslation (run pc regs payload inp a) (Mmu.tables tables) with
    | none => portDenied (run pc regs payload inp a) = true
    | some pa => portDenied (run pc regs payload inp a) = false ∧ fetchPa (run pc regs payload inp a) = pa := by
  unfold fetchTranslation fetchPa
  cases hx : xlateIf (run pc regs payload inp a)
  · simp [portDenied, hx]
  · cases hh : ifHit (run pc regs payload inp a) with
    | some e =>
        cases hok : e.permOk (ctx (run pc regs payload inp a).core.csr)
          (Mmu.ifAccess (ctx (run pc regs payload inp a).core.csr)) false <;> simp [portDenied, hx, hh, hok]
    | none =>
        obtain ⟨e, he⟩ := h ha hx hh
        have hv := walk_of_accept ha hp hx hh
        simp only [Mmu.Side.cacheUsable, Bool.and_eq_true] at hv
        simp only [if_true]
        rw [← he.outcome hs, Mmu.Xlate.outcome]
        cases hf : (run pc regs payload inp a).mmu.ifs.xlate.fault <;> simp [portDenied, hx, hh, hf, hv.1]

/-- As long as every register that decides a fetch was made below the root of the present `satp` in the present
context, only what happens to a fetch in flight can go wrong. -/
theorem fetchMatched_iff_of_madeHere {tables : Word → Word} (hs : TablesServed pc regs payload inp tables)
    (hb : ∀ t ≤ T, BusAnswers pc regs payload inp t) (hm : ∀ t ≤ T, MadeHere pc regs payload inp t) :
    (∀ t ≤ T, FetchMatched pc regs payload inp (fun _ => Mmu.tables tables) t) ↔
      ∀ t ≤ T, FlightSteady pc regs payload inp (fun _ => Mmu.tables tables) t := by
  rw [matched_iff_steady_upTo hb]
  refine forall₂_congr fun t ht => forall_congr' fun hin => ?_
  have fl := (flight_run t).1 hin
  have hst := steady_of_madeHere hs (hm _ ((fetchOf_le t).trans ht)) fl.accepted fl.fresh
  unfold fetchVerdict
  cases hv : fetchTranslation (run pc regs payload inp (fetchOf pc regs payload inp t)) (Mmu.tables tables) with
  | none =>
      rw [hv] at hst
      simp only
      exact and_iff_right hst
  | some pa =>
      rw [hv] at hst
      obtain ⟨hd, hpa⟩ := hst
      cases hp : pmpDeniesFetch (run pc regs payload inp (fetchOf pc regs payload inp t)) pa
      · simp [hp, hd, hpa]
      · simp [hp, hd, hpa]

/-! ## Two runs -/

theorem FetchMatched.no_pagefault {pa : Word} (h : FetchMatched pc regs payload inp mem t)
    (hin : (run pc regs payload inp t).core.fetch.inflight = true)
    (hv : fetchVerdict (run pc regs payload inp (fetchOf pc regs payload inp t))
      (mem (fetchOf pc regs payload inp t)) = .issue pa)
    (hr : (ifOutAt pc regs payload inp t).rspValid = true) : (ifOutAt pc regs payload inp t).rspPagefault = false := by
  obtain ⟨-, -, hans⟩ := h hin
  unfold AnswersFor at hans
  rw [hv] at hans
  exact (hans.2.2.2 hr).2.2

/-- The page at `0x1000` is readable, and executable if asked for; the page below is executable. -/
def boundaryTables (executable : Bool) (x : Word) : Word :=
  if x = 0x1000#32 then 0x801#32 else if x = 0x2004#32 then (if executable then 0x100005B#32 else 0x1000053#32)
  else if x = 0x2000#32 then 0x100005B#32 else 0#32

def boundaryRegs : RegFile := fun r =>
  if r = 1 then 0x80000001#32 else if r = 2 then 0x1000#32 else 0xFFC#32

/-- `csrw satp, x1`, `csrw mepc, x2` and `mret` into the page at `0x1000`. -/
def pageInp (t : Nat) : In :=
  .answer
    (if t = 1 then some 0x18009073#32 else if t = 3 ∨ t = 7 then some 0x34111073#32
      else if t = 9 then some 0x30200073#32 else if t = 13 ∨ t = 24 then some 0x00000013#32 else none)
    none
    (if t = 18 then some 0x801#32 else if t = 20 then some 0x100005B#32 else none)

/-- The same, and then, in the trap handler, `csrw mepc, x3` and `mret`. -/
def boundaryInp (t : Nat) : In :=
  .answer
    (if t = 1 then some 0x18009073#32 else if t = 3 ∨ t = 7 then some 0x34111073#32
      else if t = 9 ∨ t = 30 then some 0x30200073#32 else if t = 28 then some 0x34119073#32
      else if t = 13 ∨ t = 34 ∨ t = 43 then some 0x00000013#32 else none)
    none
    (if t = 18 ∨ t = 39 then some 0x801#32 else if t = 20 then some 0x1000053#32
      else if t = 41 then some 0x100005B#32 else none)

theorem boundary_served :
    TablesServed RESET_PC boundaryRegs ⟨0, false, 0, 0, 0⟩ boundaryInp (boundaryTables false) := by
  intro t ht
  have ht' : t = 18 ∨ t = 20 ∨ t = 39 ∨ t = 41 := by
    by_contra hn
    simp only [not_or] at hn
    simp [Mmu.ptwReturned, mmuInAt, mmuIn, boundaryInp, In.answer, hn] at ht
  rcases ht' with rfl | rfl | rfl | rfl
  · exact ⟨17, [], by decide +kernel, by show Mmu.tables _ _ = _; decide +kernel⟩
  · exact ⟨19, [], by decide +kernel, by show Mmu.tables _ _ = _; decide +kernel⟩
  · exact ⟨38, [], by decide +kernel, by show Mmu.tables _ _ = _; decide +kernel⟩
  · exact ⟨40, [], by decide +kernel, by show Mmu.tables _ _ = _; decide +kernel⟩

end QinglongCore.Soc
