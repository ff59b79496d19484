import QinglongCore.Csr.Lemmas.Edges
import QinglongCore.Rtl.Soc

/-!
# MPRV and the returns

MRET clears MPRV when MPP is not M. SRET clears it when SPP is zero, which leaves out a return to S-mode.
-/

namespace QinglongCore.Csr

variable {s : State} {e : Ext} {i : In}

/-! ## The bit MPRV -/

@[simp] theorem mstatusMprv_tick : mstatusMprv (tick s e i) = mstatusMprv s := rfl

theorem mstatusMprv_trapS : mstatusMprv (trapS s i) = mstatusMprv s := by
  unfold mstatusMprv trapS
  rw [getLsbD_setBit (by decide), if_neg (by decide), getLsbD_setBit (by decide), if_neg (by decide),
    getLsbD_setBit (by decide), if_neg (by decide)]

theorem mprv_setMpp (w : Word) (p : BitVec 2) :
    (setMpp w p).getLsbD MSTATUS_MPRV_BIT = w.getLsbD MSTATUS_MPRV_BIT := by
  unfold setMpp
  rw [getLsbD_setBit (by decide), if_neg (by decide), getLsbD_setBit (by decide), if_neg (by decide)]

theorem mstatusMprv_trapM : mstatusMprv (trapM s i) = mstatusMprv s := by
  unfold mstatusMprv trapM
  rw [mprv_setMpp, getLsbD_setBit (by decide), if_neg (by decide), getLsbD_setBit (by decide), if_neg (by decide)]

theorem mstatusMprv_mretStep (h : (mretStep s).privMode ≠ PRV_M) : mstatusMprv (mretStep s) = false := by
  have hm : (mpp s != PRV_M) = true := bne_iff_ne.mpr h
  unfold mstatusMprv mretStep
  dsimp only
  rw [if_pos hm, getLsbD_setBit (by decide), if_pos rfl]

theorem mstatusMprv_sretStep (s : State) :
    mstatusMprv (sretStep s) = (s.mstatus.getLsbD MSTATUS_SPP_BIT && mstatusMprv s) := by
  unfold mstatusMprv sretStep
  dsimp only
  cases s.mstatus.getLsbD MSTATUS_SPP_BIT
  · rw [if_neg (by decide), getLsbD_setBit (by decide), if_pos rfl]
    rfl
  · rw [if_pos rfl, getLsbD_setBit (by decide), if_neg (by decide), getLsbD_setBit (by decide), if_neg (by decide),
      getLsbD_setBit (by decide), if_neg (by decide), Bool.true_and]

/-- Only a write at the address of `mstatus` reaches MPRV. -/
theorem mstatusMprv_writeMux {a : BitVec 12} (h : a ≠ CSR_MSTATUS) (v : Word) :
    mstatusMprv (writeMux s a v) = mstatusMprv s := by
  unfold mstatusMprv
  rw [writeMux_mstatus, if_neg h]
  split
  · rw [getLsbD_masked]
    exact if_neg (by decide)
  · rfl

theorem priv_of_write_mstatus (h : writes s e i = true) (ha : i.csrAddr = CSR_MSTATUS) : s.privMode = PRV_M := by
  have hp := privOk_of_writes h
  unfold privOk csrMinPriv at hp
  rw [ha] at hp
  revert hp
  generalize s.privMode = p
  revert p
  decide

/-! ## One cycle -/

/-- An SRET from M-mode to S-mode with MPRV set. -/
def sretKeepsMprv (s : State) (i : In) : Bool :=
  i.sretTakes && s.privMode == PRV_M && s.mstatus.getLsbD MSTATUS_SPP_BIT && mstatusMprv s

/-- Below M-mode MPRV is clear. -/
def MprvClear (s : State) : Prop := s.privMode ≠ PRV_M → mstatusMprv s = false

theorem MprvClear.step (h : MprvClear s) (hk : sretKeepsMprv s i = false) : MprvClear (Csr.step s e i) := by
  intro hp
  rcases step_cases s e i with ⟨-, hd, hs⟩ | ⟨-, -, hs⟩ | ⟨-, hs⟩ | ⟨hr, hs⟩ | ⟨hw, hs⟩ | ⟨-, -, -, -, hs⟩
  · rw [hs, mstatusMprv_trapS]
    exact h (trapToS_elim hd).2.1
  · rw [hs] at hp
    exact absurd rfl hp
  · rw [hs] at hp ⊢
    exact mstatusMprv_mretStep hp
  · rw [hs, mstatusMprv_sretStep]
    by_cases hm : s.privMode = PRV_M
    · simpa [sretKeepsMprv, hr, hm, mstatusMprv] using hk
    · simp [h hm]
  · rw [hs, writeMux_privMode, tick_privMode] at hp
    have hne : i.csrAddr ≠ CSR_MSTATUS := fun ha => hp (priv_of_write_mstatus hw ha)
    rw [hs, mstatusMprv_writeMux hne]
    exact h hp
  · rw [hs] at hp ⊢
    exact h hp

/-- After such an SRET the core is in S-mode with MPRV set. -/
theorem not_mprvClear_of_sret (h : sretKeepsMprv s i = true) : ¬ MprvClear (step s e i) := by
  simp only [sretKeepsMprv, Bool.and_eq_true, beq_iff_eq] at h
  obtain ⟨⟨⟨hr, -⟩, hspp⟩, hmprv⟩ := h
  simp only [In.sretTakes, Bool.and_eq_true, Bool.not_eq_true'] at hr
  have hs : step s e i = sretStep (tick s e i) := by simp [step, hr.1.1, hr.1.2, hr.2]
  intro hc
  have hclear := hc (by rw [hs, sretStep_privMode, tick_mstatus, hspp]; decide)
  rw [hs, mstatusMprv_sretStep, tick_mstatus, hspp, mstatusMprv_tick, hmprv] at hclear
  exact absurd hclear (by decide)

/-- With MPRV clear data accesses are made at the privilege of the core. -/
theorem dmEffPriv_of_mprv (h : mstatusMprv s = false) : (Soc.ctx s).dmEffPriv = s.privMode := by
  have hc : (Soc.ctx s).mprv = false := h
  unfold Mmu.Ctx.dmEffPriv
  rw [if_neg (by rw [hc]; simp)]
  rfl

/-! ## Runs -/

/-- What is expected of MPRV in a run: it is clear after a return to a mode below M, it is clear in every cycle
spent below M, and a trap from there into M starts with data accesses at M privilege. -/
structure DropsMprv (s₀ : State) (ext : Nat → Ext) (inp : Nat → In) : Prop where
  ret : ∀ t, ((inp t).mretTakes || (inp t).sretTakes) = true → (run s₀ ext inp (t + 1)).privMode ≠ PRV_M →
    mstatusMprv (run s₀ ext inp (t + 1)) = false
  below : ∀ t, MprvClear (run s₀ ext inp t)
  trap : ∀ t, (inp t).trapTake = true → (run s₀ ext inp t).privMode ≠ PRV_M →
    (run s₀ ext inp (t + 1)).privMode = PRV_M → (Soc.ctx (run s₀ ext inp (t + 1))).dmEffPriv = PRV_M

theorem mprvClear_run {ext : Nat → Ext} {inp : Nat → In} (h : ∀ t, sretKeepsMprv (run reset ext inp t) (inp t) = false)
    (t : Nat) : MprvClear (run reset ext inp t) := by
  induction t with
  | zero => exact fun hp => absurd rfl hp
  | succ t ih => exact ih.step (h t)

/-- MPRV is dropped on the way out of M-mode exactly when no SRET from M-mode to S-mode meets it set. -/
theorem dropsMprv_iff (ext : Nat → Ext) (inp : Nat → In) :
    DropsMprv reset ext inp ↔ ∀ t, sretKeepsMprv (run reset ext inp t) (inp t) = false := by
  constructor
  · intro h t
    cases hk : sretKeepsMprv (run reset ext inp t) (inp t)
    · rfl
    · exact absurd (h.below (t + 1)) (not_mprvClear_of_sret hk)
  · intro h
    have hbelow := mprvClear_run h
    refine ⟨fun t _ hp => hbelow (t + 1) hp, hbelow, ?_⟩
    intro t ht hp hm
    have hclear : mstatusMprv (run reset ext inp (t + 1)) = false := by
      rw [run_succ] at hm ⊢
      cases hd : trapToS (run reset ext inp t) (inp t)
      · have hs : step (run reset ext inp t) (ext t) (inp t) =
            trapM (tick (run reset ext inp t) (ext t) (inp t)) (inp t) := by simp [step, ht, hd]
        rw [hs, mstatusMprv_trapM]
        exact hbelow t hp
      · have hs : step (run reset ext inp t) (ext t) (inp t) =
            trapS (tick (run reset ext inp t) (ext t) (inp t)) (inp t) := by simp [step, ht, hd]
        have hne : PRV_S ≠ PRV_M := by decide
        rw [hs] at hm
        exact absurd hm hne
    rw [dmEffPriv_of_mprv hclear, hm]

/-- `csrrw mstatus, MPRV | SPP` and an SRET, in M-mode. -/
def sretUnderMprv : Nat → In
  | 0 => csrrw CSR_MSTATUS 0x20100#32
  | 1 => { idleCmd with sret := true }
  | _ => idleCmd

theorem not_dropsMprv : ¬ ∀ (ext : Nat → Ext) (inp : Nat → In), DropsMprv reset ext inp := by
  intro h
  have hr := (h (fun _ => ⟨false, false, false, false, 0⟩) sretUnderMprv).ret 1 (by decide) (by decide)
  exact absurd hr (by decide)

end QinglongCore.Csr
