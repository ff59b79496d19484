import QinglongCore.Csr.Lemmas.Edges
import QinglongCore.Mmu.Lemmas.Forwarding
import QinglongCore.Rtl.SocTop

/-!
# The MMU out of reset

As long as the program leaves the CSRs alone, both sides of the MMU pass their requests and answers through.
-/

namespace QinglongCore.Soc

variable {s : State} {i : In}

/-- The context of the MMU is that of reset, and nothing of an earlier one is left. -/
structure Bare (s : State) : Prop where
  ctx : ctx s.core.csr = ctx Csr.reset
  ptw : s.mmu.ptw.state = .idle
  ifs : s.mmu.ifs.pmpPending = false
  dms : s.mmu.dms.pmpPending = false

theorem bare_reset (pc : Word) (regs : RegFile) (payload : Mmu.Req) : Bare (reset pc regs payload) :=
  ⟨rfl, rfl, rfl, rfl⟩

section
variable {x : Mmu.Side} {a : Mmu.Access} {p : Mmu.Port}

theorem pmpKillComb_reset (ha : a.xlate = false) : x.pmpKillComb (ctx Csr.reset) a p = false := by
  have hactive : Pmp.anyActive (ctx Csr.reset).pmp = false := by decide
  rw [Mmu.Side.pmpKillComb, Mmu.Side.pmpAddr_bare ha]
  show (p.reqValid && (Pmp.anyActive (ctx Csr.reset).pmp && _)) = false
  rw [hactive, Bool.false_and, Bool.and_false]

theorem out_bare (ha : a.xlate = false) (hp : x.pmpPending = false) :
    x.out (ctx Csr.reset) a p = Mmu.Side.pass p p.req.addr := by
  have hk : x.pmpKill (ctx Csr.reset) a p = false := by rw [Mmu.Side.pmpKill, pmpKillComb_reset ha, hp]; rfl
  rw [Mmu.Side.out, hk, Mmu.Side.muxed, Mmu.Side.branch_bare_iff.mpr ha]
  rfl

theorem needsWalk_bare (ha : a.xlate = false) (c : Mmu.Ctx) : x.needsWalk c a p = false := by
  simp [Mmu.Side.needsWalk, ha]

end

namespace Bare

variable (h : Bare s)
include h

theorem ifOut : ifOut s i = Mmu.Side.pass (ifPort s i) s.core.fetch.pc := by
  show s.mmu.ifs.out (Soc.ctx s.core.csr) (Mmu.ifAccess (Soc.ctx s.core.csr)) (ifPort s i) = _
  rw [h.ctx]
  exact out_bare rfl h.ifs

theorem dmOut : dmOut s i = Mmu.Side.pass (dmPort s i) s.pipe.req.addr := by
  show s.mmu.dms.out (Soc.ctx s.core.csr) (Mmu.dmAccess (Soc.ctx s.core.csr)) (dmPort s i) = _
  rw [h.ctx]
  exact out_bare rfl h.dms

theorem ptwReqValid : Mmu.ptwReqValid s.mmu = false := by
  rw [Mmu.ptwReqValid, h.ptw]
  rfl

/-- The walker stays idle. -/
theorem ptwNext : (Mmu.ptwNext s.mmu (mmuIn s i)).state = .idle := by
  have hif : Mmu.ifNeedsWalk s.mmu (mmuIn s i) = false := by
    refine needsWalk_bare ?_ _
    show (Soc.ctx s.core.csr).xlateIf = false
    rw [h.ctx]
    rfl
  have hdm : Mmu.dmNeedsWalk s.mmu (mmuIn s i) = false := by
    refine needsWalk_bare ?_ _
    show (Soc.ctx s.core.csr).xlateDm = false
    rw [h.ctx]
    rfl
  rw [Mmu.ptwNext, h.ptw]
  simp only [Mmu.launchIf, Mmu.launchDm, hif, hdm, Bool.and_false, Bool.false_eq_true, if_false]
  exact h.ptw

theorem step (hw : CorePipeline.wbRedirect s.core = false) (hc : CorePipeline.csrEnWb s.core = false) :
    Bare (step s i) where
  ctx := by
    simp only [CorePipeline.wbRedirect, Bool.and_eq_false_iff, Bool.or_eq_false_iff] at hw
    have ht : CorePipeline.trapTakeWb s.core = false := by
      rcases hw with hw | hw <;> simp [CorePipeline.trapTakeWb, hw]
    have hm : CorePipeline.mretWb s.core = false := by
      rcases hw with hw | hw <;> simp [CorePipeline.mretWb, hw]
    have hs : CorePipeline.sretWb s.core = false := by
      rcases hw with hw | hw <;> simp [CorePipeline.sretWb, hw]
    have hd : Csr.doWrite s.core.csr i.ext (CorePipeline.csrIn s.core) = false := by
      show (CorePipeline.csrEnWb s.core && _ && _) = false
      rw [hc]
      rfl
    show Soc.ctx (Csr.step s.core.csr i.ext (CorePipeline.csrIn s.core)) = _
    rw [← h.ctx]
    rcases Csr.step_cases s.core.csr i.ext (CorePipeline.csrIn s.core) with ⟨h', -⟩ | ⟨h', -⟩ | ⟨h', -⟩ | ⟨h', -⟩ |
      ⟨h', -⟩ | ⟨-, -, -, -, h'⟩
    · exact absurd h' (by simp [CorePipeline.csrIn, ht])
    · exact absurd h' (by simp [CorePipeline.csrIn, ht])
    · exact absurd h' (by simp [Csr.In.mretTakes, CorePipeline.csrIn, hm])
    · exact absurd h' (by simp [Csr.In.sretTakes, CorePipeline.csrIn, hs])
    · exact absurd h' (by simp [Csr.writes, hd])
    · rw [h']
      rfl
  ptw := h.ptwNext
  ifs := by
    have hk : s.mmu.ifs.pmpKillComb (Soc.ctx s.core.csr) (Mmu.ifAccess (Soc.ctx s.core.csr)) (ifPort s i) = false := by
      rw [h.ctx]
      exact pmpKillComb_reset rfl
    show s.mmu.ifs.pmpPendingNext (Soc.ctx s.core.csr) (Mmu.ifAccess (Soc.ctx s.core.csr)) (ifPort s i) = false
    simp [Mmu.Side.pmpPendingNext, hk, h.ifs]
  dms := by
    have hk : s.mmu.dms.pmpKillComb (Soc.ctx s.core.csr) (Mmu.dmAccess (Soc.ctx s.core.csr)) (dmPort s i) = false := by
      rw [h.ctx]
      exact pmpKillComb_reset rfl
    show s.mmu.dms.pmpPendingNext (Soc.ctx s.core.csr) (Mmu.dmAccess (Soc.ctx s.core.csr)) (dmPort s i) = false
    simp [Mmu.Side.pmpPendingNext, hk, h.dms]

end Bare

end QinglongCore.Soc
