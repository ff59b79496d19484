import QinglongCore.Mmu.Provenance
import QinglongCore.Pipeline.Lemmas.Regime
import QinglongCore.Soc.Lemmas.FetchSide
import QinglongCore.Soc.Lemmas.DataSide

/-!
# Completeness of SFENCE.VMA

A fence drops TLB entries in the cycle it retires in. The walker and the walk-result registers are left alone.
-/

namespace QinglongCore.Soc

open CorePipeline (ifetchAccept wbRedirect)

/-! ## Statement -/

section

variable (pc : Word) (regs : RegFile) (payload : Mmu.Req) (inp : Nat → In)

def ages : Nat → Mmu.Age
  | 0 => ⟨0, ⟨fun _ => 0, 0⟩, ⟨fun _ => 0, 0⟩⟩
  | t + 1 =>
      (ages t).next (run pc regs payload inp t).mmu (mmuIn (run pc regs payload inp t) (inp t)) t

end

/-- What decides the address on the port rests on PTEs read after cycle `n` only: a TLB entry that matches,
else the walk-result registers, which are looked at under a request. -/
def DecidedAfter (f : Mmu.Sfence) (n : Nat) (x : Mmu.Side) (g : Mmu.SideAge) (c : Mmu.Ctx) (a : Mmu.Access)
    (p : Mmu.Port) : Prop :=
  a.xlate = true →
    match Mmu.lookupIdx x.tlb p.req.addr c.asid with
    | some k => f.InScope p.req.addr c.asid (x.tlb k).g → n < g.tlb k
    | none =>
        p.reqValid = true → x.cacheUsable p = true → f.InScope p.req.addr c.asid false → n < g.xlate

section

variable (pc : Word) (regs : RegFile) (payload : Mmu.Req) (inp : Nat → In)

/-- In cycle `t` no access in scope of the fence that retired in cycle `n` is decided by an older PTE. -/
def FencedAt (n t : Nat) : Prop :=
  let s := run pc regs payload inp t
  let c := ctx s.core.csr
  let f := sfence (run pc regs payload inp n)
  DecidedAfter f n s.mmu.ifs (ages pc regs payload inp t).ifs c (Mmu.ifAccess c) (ifPort s (inp t)) ∧
    DecidedAfter f n s.mmu.dms (ages pc regs payload inp t).dms c (Mmu.dmAccess c) (dmPort s (inp t))

end

section

variable (s : State) (i : In)

/-- A fence retires with no PTE received for a walk in its scope, and with no fault in the walk-result
registers for a page in its scope, unless that answers the fetch in flight. -/
def FenceMeetsNothing : Prop :=
  (sfence s).valid = true →
    (sfence s).WalkClear s.mmu (mmuIn s i) ∧
    (s.mmu.ifs.xlate.valid = true → s.mmu.ifs.xlate.fault = true →
      (sfence s).OtherPage s.mmu.ifs.xlate.va ∨ xlateIf s = true ∧ s.core.fetch.inflight = true) ∧
    (s.mmu.dms.xlate.valid = true → s.mmu.dms.xlate.fault = true → (sfence s).OtherPage s.mmu.dms.xlate.va)

instance : Decidable (FenceMeetsNothing s i) :=
  inferInstanceAs (Decidable (_ = true → (sfence s).WalkClear _ _ ∧
    (_ = true → _ = true → (sfence s).OtherPage _ ∨ _ = true ∧ _ = true) ∧
    (_ = true → _ = true → (sfence s).OtherPage _)))

/-- A request in scope of the fence `f` passes on the strength of the walk-result registers, without a TLB hit. -/
def PassesByWalk (f : Mmu.Sfence) : Prop :=
  ((ifPort s i).reqValid = true ∧ f.InScope (ifPort s i).req.addr (ctx s.core.csr).asid false ∧
      s.mmu.ifs.branch (ctx s.core.csr) (Mmu.ifAccess (ctx s.core.csr)) (ifPort s i) = .forward) ∨
    (s.pipe.valid = true ∧ f.InScope (dmPort s i).req.addr (ctx s.core.csr).asid false ∧ dmBranch s = .forward)

instance (f : Mmu.Sfence) : Decidable (PassesByWalk s i f) :=
  inferInstanceAs (Decidable
    (_ = true ∧ f.InScope _ _ _ ∧ _ = Mmu.Branch.forward ∨ _ = true ∧ f.InScope _ _ _ ∧ _ = Mmu.Branch.forward))

end

variable {pc : Word} {regs : RegFile} {payload : Mmu.Req} {inp : Nat → In} {s : State} {i : In} {n t T : Nat}

/-! ## The regime under a fetch -/

/-- A fetch that is refused as it is accepted is answered in the same regime. -/
theorem leaving_of_deny (hsp : CorePipeline.Spaced s.core)
    (hd : s.mmu.ifs.tlbDeny (ctx s.core.csr) (Mmu.ifAccess (ctx s.core.csr)) (ifPort s i) = true)
    (hq : (ifPort s i).reqValid = true) :
    xlateIf (step s i) = true ∧ (step s i).core.fetch.inflight = true := by
  have hx : xlateIf s = true := (Mmu.Side.tlbDeny_iff.mp hd).1
  have hready : (ifOut s i).reqReady = true := by
    rw [ifOut_eq]
    cases hk : s.mmu.ifs.pmpKill (ctx s.core.csr) (Mmu.ifAccess (ctx s.core.csr)) (ifPort s i)
    · exact (Mmu.Side.out_of_refuses hk (Mmu.Side.refuses_of_tlbDeny hd)).1
    · exact (Mmu.Side.out_of_kill hk).1
  have ha : ifetchAccept s.core (coreIn s i) = true := by
    have hreq : CorePipeline.ifetchReqValid s.core (coreIn s i).ext = true := hq
    rw [ifetchAccept, hreq]
    exact hready
  have hw : wbRedirect s.core = false := (CorePipeline.ifetchAccept_elim ha).2.2.2.1
  obtain ⟨hsatp, hpriv⟩ := hsp.regime_kept hw i.ext
  refine ⟨?_, by rw [step_inflight, ha]; rfl⟩
  have hc : xlateIf (step s i) = (((step s i).core.csr.satp).getLsbD 31 && (step s i).core.csr.privMode != PRV_M) := rfl
  have hs : (step s i).core.csr = Csr.step s.core.csr i.ext (CorePipeline.csrIn s.core) := rfl
  rw [hc, hs, hsatp, hpriv]
  exact hx

/-! ## After a fence -/

structure Fenced (pc : Word) (regs : RegFile) (payload : Mmu.Req) (inp : Nat → In) (f : Mmu.Sfence) (n t : Nat) :
    Prop where
  walker : Mmu.Delivers f n (run pc regs payload inp t).mmu (mmuIn (run pc regs payload inp t) (inp t))
    (ages pc regs payload inp t) t
  ifTlb : Mmu.TlbFresh f n (run pc regs payload inp t).mmu.ifs (ages pc regs payload inp t).ifs
  dmTlb : Mmu.TlbFresh f n (run pc regs payload inp t).mmu.dms (ages pc regs payload inp t).dms
  ifFault : Mmu.FaultFresh f n (run pc regs payload inp t).mmu.ifs (ages pc regs payload inp t).ifs
    (xlateIf (run pc regs payload inp t) = true ∧ (run pc regs payload inp t).core.fetch.inflight = true)
  dmFault : Mmu.FaultFresh f n (run pc regs payload inp t).mmu.dms (ages pc regs payload inp t).dms False

variable {f : Mmu.Sfence}

/-- What one cycle makes of the walk-result registers. -/
theorem fault_step (t : Nat)
    (hw : Mmu.Delivers f n (run pc regs payload inp t).mmu (mmuIn (run pc regs payload inp t) (inp t))
      (ages pc regs payload inp t) t)
    (hif : Mmu.FaultFresh f n (run pc regs payload inp t).mmu.ifs (ages pc regs payload inp t).ifs
      (xlateIf (run pc regs payload inp t) = true ∧ (run pc regs payload inp t).core.fetch.inflight = true))
    (hdm : Mmu.FaultFresh f n (run pc regs payload inp t).mmu.dms (ages pc regs payload inp t).dms False) :
    Mmu.FaultFresh f n (run pc regs payload inp (t + 1)).mmu.ifs (ages pc regs payload inp (t + 1)).ifs
        (xlateIf (run pc regs payload inp (t + 1)) = true ∧
          (run pc regs payload inp (t + 1)).core.fetch.inflight = true) ∧
      Mmu.FaultFresh f n (run pc regs payload inp (t + 1)).mmu.dms (ages pc regs payload inp (t + 1)).dms False := by
  constructor
  · refine Mmu.FaultFresh.next ?_ ?_ ?_
    · intro hv hf
      rcases hif hv hf with h | h | ⟨hx, hin⟩
      · exact Or.inl h
      · exact Or.inr (Or.inl h)
      · exact Or.inr (Or.inr ⟨hx, hin, no_req_of_inflight hin⟩)
    · intro y hy
      split at hy
      · simp at hy
      · exact hw.walkXlate hy
    · exact fun hd hq _ => leaving_of_deny (spaced_core t) hd hq
  · refine Mmu.FaultFresh.next ?_ ?_ ?_
    · intro hv hf
      rcases hdm hv hf with h | h | h
      · exact Or.inl h
      · exact Or.inr (Or.inl h)
      · exact h.elim
    · intro y hy
      split at hy
      · exact hw.walkXlate hy
      · simp at hy
    · intro _ _ hr
      have hr' : (dmPort (run pc regs payload inp t) (inp t)).rspReady = true := rfl
      rw [show (mmuIn (run pc regs payload inp t) (inp t)).dmp = dmPort (run pc regs payload inp t) (inp t) from rfl,
        hr'] at hr
      simp at hr

theorem fenced_start (hf : (sfence (run pc regs payload inp n)).valid = true)
    (h : FenceMeetsNothing (run pc regs payload inp n) (inp n)) :
    Fenced pc regs payload inp (sfence (run pc regs payload inp n)) n (n + 1) := by
  obtain ⟨hw, hif, hdm⟩ := h hf
  have hdel : Mmu.Delivers (sfence (run pc regs payload inp n)) n (run pc regs payload inp n).mmu
    (mmuIn (run pc regs payload inp n) (inp n)) (ages pc regs payload inp n) n := hw.delivers
  have hfault := fault_step n hdel
    (fun hv hf => Or.inr (hif hv hf)) (fun hv hf => Or.inr (Or.inl (hdm hv hf)))
  refine ⟨hdel.next le_rfl, ?_, ?_, hfault.1, hfault.2⟩
  · refine Mmu.tlbFresh_of_fence hf fun e he => ?_
    split at he
    · simp at he
    · exact hdel.walkFill he
  · refine Mmu.tlbFresh_of_fence hf fun e he => ?_
    split at he
    · exact hdel.walkFill he
    · simp at he

theorem Fenced.next (h : Fenced pc regs payload inp f n t) (hn : n ≤ t) : Fenced pc regs payload inp f n (t + 1) := by
  have hfault := fault_step t h.walker h.ifFault h.dmFault
  refine ⟨h.walker.next hn, ?_, ?_, hfault.1, hfault.2⟩
  · refine h.ifTlb.next fun e he => ?_
    split at he
    · simp at he
    · exact h.walker.walkFill he
  · refine h.dmTlb.next fun e he => ?_
    split at he
    · exact h.walker.walkFill he
    · simp at he

theorem fenced_run (hf : (sfence (run pc regs payload inp n)).valid = true)
    (h : FenceMeetsNothing (run pc regs payload inp n) (inp n)) (ht : n < t) :
    Fenced pc regs payload inp (sfence (run pc regs payload inp n)) n t := by
  induction t, ht using Nat.le_induction with
  | base => exact fenced_start hf h
  | succ t ht ih => exact ih.next (by omega)

/-! ## Decisions -/

theorem decidedAfter_of_fresh {x : Mmu.Side} {g : Mmu.SideAge} {c : Mmu.Ctx} {a : Mmu.Access} {p : Mmu.Port}
    {leaving : Prop} (ht : Mmu.TlbFresh f n x g) (hx : Mmu.FaultFresh f n x g leaving)
    (hl : p.reqValid = true → ¬ leaving)
    (hb : p.reqValid = true → f.InScope p.req.addr c.asid false → x.branch c a p ≠ .forward) :
    DecidedAfter f n x g c a p := by
  intro ha
  cases hk : Mmu.lookupIdx x.tlb p.req.addr c.asid with
  | some k =>
      intro hs
      have hm := Mmu.tlbMatch_of_idx hk
      have hv : (x.tlb k).valid = true := by
        simp only [Mmu.tlbMatch, Bool.and_eq_true] at hm; exact hm.1.1.1
      rcases ht k hv with h | h
      · exact h
      · exact absurd hs (h.not_inScope hm)
  | none =>
      intro hq hu hs
      have hh : x.hit c p = none := by
        rw [Mmu.Side.hit, Mmu.lookup_eq_idx, hk]
        rfl
      simp only [Mmu.Side.cacheUsable, Bool.and_eq_true] at hu
      have hlive : x.cacheLive p = true := by simp [Mmu.Side.cacheLive, hu.1, hu.2]
      have hf : x.xlate.fault = true := by
        cases hf : x.xlate.fault
        · have hbr := Mmu.Side.branch_of_miss ha hh hlive
          rw [hf] at hbr
          exact absurd (by simpa using hbr) (hb hq hs)
        · rfl
      rcases hx hu.1 hf with h | ⟨h1, hp⟩ | h
      · exact h
      · have hsame := hs.1 h1
        have hva : x.xlate.va.extractLsb' 12 20 = p.req.addr.extractLsb' 12 20 := by
          simpa [Mmu.Side.vaMatch] using hu.2
        simp only [Mmu.samePage, hva] at hp hsame
        rw [hsame] at hp; simp at hp
      · exact absurd h (hl hq)

/-- In a run in which no fence meets a walk or a fault in its scope, every fence is complete in each cycle behind it in
which no request in its scope passes by the walk-result registers without a TLB hit. -/
theorem fenced_of_run (h : ∀ n < T, FenceMeetsNothing (run pc regs payload inp n) (inp n)) :
    ∀ n t, n < t → t ≤ T → (sfence (run pc regs payload inp n)).valid = true →
      ¬ PassesByWalk (run pc regs payload inp t) (inp t) (sfence (run pc regs payload inp n)) →
        FencedAt pc regs payload inp n t := by
  intro n t hn ht hf hby
  have hfen := fenced_run hf (h n (by omega)) hn
  constructor
  · refine decidedAfter_of_fresh hfen.ifTlb hfen.ifFault ?_ ?_
    · rintro hq ⟨-, hin⟩
      rw [no_req_of_inflight hin] at hq; simp at hq
    · exact fun hq hs hb => hby (Or.inl ⟨hq, hs, hb⟩)
  · refine decidedAfter_of_fresh hfen.dmTlb hfen.dmFault (fun _ h => h) ?_
    exact fun hq hs hb => hby (Or.inr ⟨hq, hs, hb⟩)

theorem FencedAt.ifTlb {k : Fin 4} (h : FencedAt pc regs payload inp n t)
    (hx : xlateIf (run pc regs payload inp t) = true)
    (hk : Mmu.lookupIdx (run pc regs payload inp t).mmu.ifs.tlb (run pc regs payload inp t).core.fetch.pc
      (ctx (run pc regs payload inp t).core.csr).asid = some k)
    (hs : (sfence (run pc regs payload inp n)).InScope (run pc regs payload inp t).core.fetch.pc
      (ctx (run pc regs payload inp t).core.csr).asid ((run pc regs payload inp t).mmu.ifs.tlb k).g) :
    n < (ages pc regs payload inp t).ifs.tlb k := by
  have h' := h.1 hx
  rw [ifPort_addr, hk] at h'
  exact h' hs

/-- `csrw satp, x1`, `csrw mstatus, x2`, `csrw mepc, x3` and `mret` into S-mode, where `sfence.vma` is the last
word of its page. The walk of the next page gets its level-1 PTE in cycle `l1`; the fence retires in cycle 30. -/
def straddleInp (l1 t : Nat) : In :=
  .answer
    (if t = 1 then some 0x18009073#32 else if t = 3 ∨ t = 7 then some 0x30011073#32
      else if t = 9 then some 0x34119073#32 else if t = 13 then some 0x30200073#32
      else if t = 17 then some 0x00000013#32 else if t = 26 then some 0x12000073#32 else none)
    none
    (if t = 22 ∨ t = l1 then some 0x801#32 else if t = 24 then some 0x100004B#32
      else if t = l1 + 2 then some 0x140004B#32 else none)

def straddleRegs : RegFile := fun r =>
  if r = 1 then 0x80000001#32 else if r = 2 then 0x800#32 else 0xFFC#32

/-- The walk has got nothing yet when the fence retires; its TLB entry lets the next page pass in cycle 35. -/
theorem fenced_straddle :
    (sfence (run RESET_PC straddleRegs ⟨0, false, 0, 0, 0⟩ (straddleInp 32) 30)).valid = true ∧
      ∀ t, 30 < t → t ≤ 36 → FencedAt RESET_PC straddleRegs ⟨0, false, 0, 0, 0⟩ (straddleInp 32) 30 t := by
  have hv : (sfence (run RESET_PC straddleRegs ⟨0, false, 0, 0, 0⟩ (straddleInp 32) 30)).valid = true := by
    decide +kernel
  have hp : ∀ t ≤ 36, ¬ PassesByWalk (run RESET_PC straddleRegs ⟨0, false, 0, 0, 0⟩ (straddleInp 32) t)
      (straddleInp 32 t) (sfence (run RESET_PC straddleRegs ⟨0, false, 0, 0, 0⟩ (straddleInp 32) 30)) := by
    decide +kernel
  exact ⟨hv, fun t h₀ h₁ => fenced_of_run (by decide +kernel) 30 t h₀ h₁ hv (hp t h₁)⟩

/-- The walk gets its level-1 PTE in cycle 29; its TLB entry lets the next page pass in cycle 32. -/
theorem not_fenced : ¬ ∀ pc regs payload inp n t, n < t → (sfence (run pc regs payload inp n)).valid = true →
    FencedAt pc regs payload inp n t := by
  intro h
  have hf := h RESET_PC straddleRegs ⟨0, false, 0, 0, 0⟩ (straddleInp 29) 30 32 (by decide) (by decide +kernel)
  have hage := hf.ifTlb (k := 1) (by decide +kernel) (by decide +kernel) (by decide +kernel)
  exact absurd hage (by decide +kernel)

end QinglongCore.Soc
