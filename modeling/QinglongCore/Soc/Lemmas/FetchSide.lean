import QinglongCore.Mmu.Lemmas.Forwarding
import QinglongCore.Mmu.Lemmas.Walks
import QinglongCore.Rtl.Soc
import QinglongCore.Pipeline.Lemmas.Steps

/-!
# The fetch side of the MMU under a fetch in flight
-/

namespace QinglongCore.Soc

open CorePipeline (ifetchAccept)

/-! ## The address on the port -/

variable (pc : Word) (regs : RegFile) (payload : Mmu.Req) (inp : Nat → In)

/-- The fetch side translates. -/
def xlateIf (s : State) : Bool := (ctx s.core.csr).xlateIf

/-- The TLB lookup of the fetch side, for the address on the port. -/
def ifHit (s : State) : Option Mmu.TlbEntry := Mmu.lookup s.mmu.ifs.tlb s.core.fetch.pc (ctx s.core.csr).asid

/-- The TLB lets the address on the port pass. -/
def ifTlbGo (s : State) (i : In) : Bool := s.mmu.ifs.tlbGo (ctx s.core.csr) (Mmu.ifAccess (ctx s.core.csr)) (ifPort s i)

/-- The fetch in flight was accepted with translation off, or since then a TLB hit has been selected over
a fault in the walk-result register. -/
def exposed : Nat → Bool
  | 0 => false
  | t + 1 =>
      let s := run pc regs payload inp t
      let i := inp t
      if ifetchAccept s.core (coreIn s i) then !xlateIf s
      else exposed t || (s.core.fetch.inflight && ifTlbGo s i && s.mmu.ifs.xlate.valid && s.mmu.ifs.xlate.fault)

/-- Something answers for the address on the port: translation is off, the TLB matches, a walk result
stands, or a denial of the PMP is pending. -/
def Answerable (s : State) : Prop :=
  xlateIf s = false ∨ (ifHit s).isSome = true ∨ s.mmu.ifs.xlate.valid = true ∨ s.mmu.ifs.pmpPending = true

variable {pc regs payload inp} {s : State} {i : In} {t : Nat}

/-! ## Acceptance and answers -/

theorem ifOut_eq : ifOut s i =
    s.mmu.ifs.out (ctx s.core.csr) (Mmu.ifAccess (ctx s.core.csr)) (ifPort s i) := rfl

theorem ifPort_addr : (ifPort s i).req.addr = s.core.fetch.pc := rfl

theorem ifVaMatch_eq (i : In) : s.mmu.ifs.vaMatch (ifPort s i) =
    (s.mmu.ifs.xlate.va.extractLsb' 12 20 == s.core.fetch.pc.extractLsb' 12 20) := rfl

theorem no_req_of_inflight (h : s.core.fetch.inflight = true) : (ifPort s i).reqValid = false := by
  simp [ifPort, CorePipeline.ifetchReqValid, CorePipeline.ifCanIssue, h]

theorem ifWalk_valid (s : State) (i : In) (y : Mmu.Xlate)
    (h : (if s.mmu.ptw.side then none else Mmu.walkXlate s.mmu (mmuIn s i) s.mmu.ifs.xlate) = some y) :
    y.valid = true := by
  split at h
  · simp at h
  · exact Mmu.walkXlate_valid h

/-- A response of the bus reaches the core exactly if something answers for the address on the port. -/
theorem rspValid_iff (h : s.core.fetch.inflight = true) (hr : i.ifRspValid = true) :
    (ifOut s i).rspValid = true ↔ Answerable s := by
  have hq : (ifPort s i).reqValid = false := no_req_of_inflight h
  have hhit : s.mmu.ifs.hit (ctx s.core.csr) (ifPort s i) = ifHit s := rfl
  have hxl : (Mmu.ifAccess (ctx s.core.csr)).xlate = xlateIf s := rfl
  rw [ifOut_eq, Mmu.Side.rspValid_of_dsRsp hr, Mmu.Side.pmpKill_of_no_req hq, Answerable, ne_eq,
    Mmu.Side.branch_wait_iff, hhit, hxl]
  cases hx : xlateIf s <;> cases hh : ifHit s <;> cases hv : s.mmu.ifs.xlate.valid <;>
    simp [Mmu.Side.cacheLive, hq, hv]

theorem accept_elim (h : ifetchAccept s.core (coreIn s i) = true) :
    s.core.fetch.inflight = false ∧ (ifPort s i).reqValid = true ∧ (ifOut s i).reqReady = true := by
  simp only [ifetchAccept, Bool.and_eq_true] at h
  refine ⟨?_, h.1, h.2⟩
  simp only [CorePipeline.ifetchReqValid, CorePipeline.ifCanIssue, Bool.and_eq_true, Bool.not_eq_true'] at h
  exact h.1.1.1.1.1.1

theorem step_inflight : (step s i).core.fetch.inflight = (ifetchAccept s.core (coreIn s i) ||
    (s.core.fetch.inflight && !(ifOut s i).rspValid)) := by
  have h : (step s i).core.fetch.inflight = (ifetchAccept s.core (coreIn s i) ||
      (s.core.fetch.inflight && !(s.core.fetch.inflight && (ifOut s i).rspValid))) := rfl
  rw [h]
  cases s.core.fetch.inflight <;> rfl

/-- A fetch accepted with translation on leaves the walk-result register or a PMP denial set. -/
theorem covered_of_accept (h : ifetchAccept s.core (coreIn s i) = true) (hx : xlateIf s = true) :
    (step s i).mmu.ifs.xlate.valid = true ∨ (step s i).mmu.ifs.pmpPending = true := by
  obtain ⟨hin, hq, hready⟩ := accept_elim h
  have hr : (ifPort s i).rspReady = false := hin
  have hxl : (Mmu.ifAccess (ctx s.core.csr)).xlate = true := hx
  rw [ifOut_eq] at hready
  cases hk : s.mmu.ifs.pmpKill (ctx s.core.csr) (Mmu.ifAccess (ctx s.core.csr)) (ifPort s i)
  · left
    have hvalid := ifWalk_valid s i
    cases hb : s.mmu.ifs.branch (ctx s.core.csr) (Mmu.ifAccess (ctx s.core.csr)) (ifPort s i) with
    | bare => rw [Mmu.Side.branch_bare_iff, hxl] at hb; simp at hb
    | tlbGo =>
        have hds : (ifPort s i).dsReqReady = true := by
          rw [← (Mmu.Side.out_of_passes hk (by rw [hb]; rfl)).1]; exact hready
        have hfire : s.mmu.ifs.tlbReqFire (ctx s.core.csr) (Mmu.ifAccess (ctx s.core.csr)) (ifPort s i) = true := by
          simp [Mmu.Side.tlbReqFire, Mmu.Side.tlbGo_of_branch hb, hq, hds]
        exact Mmu.Side.xlateNext_valid_of_tlb hr hvalid (Or.inl hfire)
    | tlbDeny => exact Mmu.Side.xlateNext_valid_of_tlb hr hvalid (Or.inr ⟨Mmu.Side.tlbDeny_of_branch hb, hq⟩)
    | forward =>
        have hf := Mmu.Side.forward_of_branch hb
        simp only [Mmu.Side.forward, Mmu.Side.cacheLive, Bool.and_eq_true] at hf
        exact Mmu.Side.xlateNext_valid_of_not_ready hr hvalid hf.1.2.1
    | faultReply =>
        have hf := Mmu.Side.faultReply_of_branch hb
        simp only [Mmu.Side.faultReply, Mmu.Side.cacheLive, Bool.and_eq_true] at hf
        exact Mmu.Side.xlateNext_valid_of_not_ready hr hvalid hf.1.2.1
    | wait => rw [(Mmu.Side.out_of_wait hk hb).1] at hready; simp at hready
  · right
    show s.mmu.ifs.pmpPendingNext (ctx s.core.csr) (Mmu.ifAccess (ctx s.core.csr)) (ifPort s i) = true
    simp only [Mmu.Side.pmpKill, Bool.or_eq_true] at hk
    rcases hk with hk | hk
    · simp [Mmu.Side.pmpPendingNext, hk, hq, hr]
    · simp [Mmu.Side.pmpPendingNext, hk, hr]

/-- An unanswered fetch that is not exposed is still covered. -/
theorem covered_run (t : Nat) (hin : (run pc regs payload inp t).core.fetch.inflight = true)
    (he : exposed pc regs payload inp t = false) :
    (run pc regs payload inp t).mmu.ifs.xlate.valid = true ∨
      (run pc regs payload inp t).mmu.ifs.pmpPending = true := by
  induction t with
  | zero => simp [run, reset, CorePipeline.reset] at hin
  | succ t ih =>
      rcases CorePipeline.fetchNext_inflight hin with ⟨ha, -, -⟩ | ⟨ha, hin', hr, -, -⟩
      · simp only [exposed, ha, ↓reduceIte, Bool.not_eq_false'] at he
        exact covered_of_accept ha he
      · simp only [exposed, ha, hin', Bool.false_eq_true, ↓reduceIte, Bool.or_eq_false_iff, Bool.true_and] at he
        have ho : (ifOut (run pc regs payload inp t) (inp t)).rspValid = false := by
          simpa [CorePipeline.rspArriving, hin', coreIn] using hr
        have hq : (ifPort (run pc regs payload inp t) (inp t)).reqValid = false := no_req_of_inflight hin'
        rw [ifOut_eq] at ho
        rcases ih hin' he.1 with hv | hp
        · left
          refine Mmu.Side.xlateNext_valid_of_unanswered hq (ifWalk_valid _ _) hv ho ?_
          rintro ⟨hgo, hf⟩
          have hgo' : ifTlbGo (run pc regs payload inp t) (inp t) = true := hgo
          simp [hgo', hv, hf] at he
        · rw [(Mmu.Side.out_of_kill (by simp [Mmu.Side.pmpKill, hp])).2.1] at ho
          simp at ho

theorem answerable_run (hin : (run pc regs payload inp t).core.fetch.inflight = true)
    (he : exposed pc regs payload inp t = true → Answerable (run pc regs payload inp t)) :
    Answerable (run pc regs payload inp t) := by
  cases hex : exposed pc regs payload inp t
  · rcases covered_run t hin hex with hv | hp
    · exact Or.inr (Or.inr (Or.inl hv))
    · exact Or.inr (Or.inr (Or.inr hp))
  · exact he hex

end QinglongCore.Soc
