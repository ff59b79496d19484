import QinglongCore.Csr.Lemmas.Edges
import QinglongCore.Mmu.Lemmas.Walks
import QinglongCore.Rtl.Soc

/-!
# Supported modes

The privilege mode is popped from MPP, and MPP is written by software. The MMU grants the user bit to a mode it
does not know.
-/

namespace QinglongCore

/-- A mode of the core; the encoding `2'b10` is reserved. -/
def Supported (p : BitVec 2) : Prop := p = PRV_U ∨ p = PRV_S ∨ p = PRV_M

theorem supported_iff (p : BitVec 2) : Supported p ↔ p ≠ 0b10#2 := by
  unfold Supported
  revert p
  decide

theorem Supported.not_m {p : BitVec 2} (h : Supported p) (hm : p ≠ PRV_M) : p = PRV_U ∨ p = PRV_S := by
  rcases h with h | h | h
  · exact Or.inl h
  · exact Or.inr h
  · exact absurd h hm

namespace Csr

variable {s : State} {e : Ext} {i : In}

/-! ## The field MPP -/

theorem mppField_congr {w w' : Word} (h₀ : w.getLsbD MSTATUS_MPP_LO = w'.getLsbD MSTATUS_MPP_LO)
    (h₁ : w.getLsbD MSTATUS_MPP_HI = w'.getLsbD MSTATUS_MPP_HI) :
    w.extractLsb' MSTATUS_MPP_LO 2 = w'.extractLsb' MSTATUS_MPP_LO 2 := field_congr h₀ h₁

theorem mppField_setBit {w : Word} {n : Nat} {b : Bool} (hn : n < 32) (h₀ : MSTATUS_MPP_LO ≠ n)
    (h₁ : MSTATUS_MPP_HI ≠ n) :
    (setBit w n b).extractLsb' MSTATUS_MPP_LO 2 = w.extractLsb' MSTATUS_MPP_LO 2 := by
  apply mppField_congr
  · rw [getLsbD_setBit hn, if_neg h₀]
  · rw [getLsbD_setBit hn, if_neg h₁]

theorem mppField_setMpp (w : Word) (p : BitVec 2) : (setMpp w p).extractLsb' MSTATUS_MPP_LO 2 = p := by
  have h₀ : (setMpp w p).getLsbD MSTATUS_MPP_LO = p.getLsbD 0 := by
    unfold setMpp
    rw [getLsbD_setBit (by decide), if_neg (by decide), getLsbD_setBit (by decide), if_pos rfl]
  have h₁ : (setMpp w p).getLsbD MSTATUS_MPP_HI = p.getLsbD 1 := by
    unfold setMpp
    rw [getLsbD_setBit (by decide), if_pos rfl]
  ext n hn
  rw [BitVec.getElem_extractLsb', ← BitVec.getLsbD_eq_getElem]
  cases n with
  | zero => exact h₀
  | succ n =>
      have hz : n = 0 := by omega
      subst hz
      exact h₁

theorem mppField_masked (old v : Word) {mask : Word}
    (h : mask.getLsbD MSTATUS_MPP_HI = mask.getLsbD MSTATUS_MPP_LO) :
    (masked old v mask).extractLsb' MSTATUS_MPP_LO 2 =
      if mask.getLsbD MSTATUS_MPP_LO then v.extractLsb' MSTATUS_MPP_LO 2
      else old.extractLsb' MSTATUS_MPP_LO 2 := by
  cases hm : mask.getLsbD MSTATUS_MPP_LO
  · apply mppField_congr
    · rw [getLsbD_masked, hm]; rfl
    · rw [getLsbD_masked, h, hm]; rfl
  · apply mppField_congr
    · rw [getLsbD_masked, hm]; rfl
    · rw [getLsbD_masked, h, hm]; rfl

@[simp] theorem mpp_tick : mpp (tick s e i) = mpp s := rfl

theorem mpp_trapS : mpp (trapS s i) = mpp s := by
  unfold mpp trapS
  rw [mppField_setBit (by decide) (by decide) (by decide), mppField_setBit (by decide) (by decide) (by decide),
    mppField_setBit (by decide) (by decide) (by decide)]

theorem mpp_trapM : mpp (trapM s i) = s.privMode := mppField_setMpp _ _

theorem mpp_mretStep : mpp (mretStep s) = PRV_U := by
  unfold mpp mretStep
  dsimp only
  split
  · rw [mppField_setBit (by decide) (by decide) (by decide), mppField_setMpp]
  · exact mppField_setMpp _ _

theorem mpp_sretStep : mpp (sretStep s) = mpp s := by
  have hw : ∀ b, (setBit (setBit (setBit s.mstatus MSTATUS_SIE_BIT b) MSTATUS_SPIE_BIT true) MSTATUS_SPP_BIT
      false).extractLsb' MSTATUS_MPP_LO 2 = s.mstatus.extractLsb' MSTATUS_MPP_LO 2 := by
    intro b
    rw [mppField_setBit (by decide) (by decide) (by decide), mppField_setBit (by decide) (by decide) (by decide),
      mppField_setBit (by decide) (by decide) (by decide)]
  unfold mpp sretStep
  dsimp only
  split
  · exact hw _
  · rw [mppField_setBit (by decide) (by decide) (by decide), hw]

/-- Only a write of `mstatus` gives MPP a value of its own. -/
theorem mpp_writeMux (s : State) (a : BitVec 12) (v : Word) :
    mpp (writeMux s a v) = if a = CSR_MSTATUS then v.extractLsb' MSTATUS_MPP_LO 2 else mpp s := by
  unfold mpp
  rw [writeMux_mstatus]
  split
  · exact mppField_masked _ _ (by decide)
  · split
    · exact mppField_masked _ _ (by decide)
    · rfl

/-! ## One cycle -/

/-- A write of `mstatus` that puts the reserved encoding into MPP. -/
def reservesMpp (s : State) (e : Ext) (i : In) : Bool :=
  writes s e i && i.csrAddr == CSR_MSTATUS && (newVal s e i).extractLsb' MSTATUS_MPP_LO 2 == 0b10#2

structure SupportedModes (s : State) : Prop where
  priv : Supported s.privMode
  mpp : Supported (mpp s)

theorem supportedModes_reset : SupportedModes reset := ⟨Or.inr (Or.inr rfl), Or.inl rfl⟩

theorem SupportedModes.step (h : SupportedModes s) (hr : reservesMpp s e i = false) :
    SupportedModes (Csr.step s e i) := by
  rcases step_cases s e i with ⟨-, -, hs⟩ | ⟨-, -, hs⟩ | ⟨-, hs⟩ | ⟨-, hs⟩ | ⟨hw, hs⟩ | ⟨-, -, -, -, hs⟩
  · rw [hs]
    exact ⟨Or.inr (Or.inl rfl), by rw [mpp_trapS]; exact h.mpp⟩
  · rw [hs]
    exact ⟨Or.inr (Or.inr rfl), by rw [mpp_trapM]; exact h.priv⟩
  · rw [hs]
    exact ⟨h.mpp, by rw [mpp_mretStep]; exact Or.inl rfl⟩
  · rw [hs]
    refine ⟨?_, by rw [mpp_sretStep]; exact h.mpp⟩
    rw [sretStep_privMode]
    split
    · exact Or.inr (Or.inl rfl)
    · exact Or.inl rfl
  · rw [hs]
    refine ⟨by rw [writeMux_privMode]; exact h.priv, ?_⟩
    rw [mpp_writeMux]
    split
    · next ha =>
        rw [supported_iff]
        simpa [reservesMpp, hw, ha] using hr
    · exact h.mpp
  · rw [hs]
    exact ⟨h.priv, h.mpp⟩

theorem mpp_of_reservesMpp (h : reservesMpp s e i = true) : mpp (step s e i) = 0b10#2 := by
  simp only [reservesMpp, Bool.and_eq_true, beq_iff_eq] at h
  obtain ⟨⟨hw, ha⟩, hv⟩ := h
  obtain ⟨ht, hm, hs, -⟩ := writes_elim hw
  have hstep : step s e i = writeMux (tick s e i) i.csrAddr (newVal s e i) := by
    have hd : doWrite s e i = true := by simpa [writes, ht, hm, hs] using hw
    simp [step, ht, hm, hs, hd]
  rw [hstep, mpp_writeMux, if_pos ha, hv]

/-! ## The modes at which the MMU checks -/

/-- An answer of `perm_ok` at the effective privilege `p` is used: by the lookup of one of the two sides, or by
the walk in progress. -/
def Consulted (m : Mmu.State) (c : Mmu.Ctx) (p : BitVec 2) : Prop :=
  c.xlateIf = true ∧ p = c.priv ∨ c.xlateDm = true ∧ p = c.dmEffPriv ∨ m.ptw.state ≠ .idle ∧ p = m.ptw.effPriv

/-- The MMU under the outputs of the CSR file. -/
def mmuUnder (csr : Nat → State) (inp : Nat → Mmu.In) (t : Nat) : Mmu.In :=
  { inp t with ctx := Soc.ctx (csr t) }

theorem SupportedModes.dmEffPriv (h : SupportedModes s) : Supported (Soc.ctx s).dmEffPriv := by
  unfold Mmu.Ctx.dmEffPriv
  split
  · exact h.mpp
  · exact h.priv

theorem xlateIf_elim {c : Mmu.Ctx} (h : c.xlateIf = true) : c.priv ≠ PRV_M := by
  simp only [Mmu.Ctx.xlateIf, Bool.and_eq_true, bne_iff_ne] at h
  exact h.2

theorem xlateDm_elim {c : Mmu.Ctx} (h : c.xlateDm = true) : c.dmEffPriv ≠ PRV_M := by
  simp only [Mmu.Ctx.xlateDm, Bool.and_eq_true, bne_iff_ne] at h
  exact h.2

/-- A walk is launched at the mode of the side that misses, and keeps it. -/
theorem walk_mode {csr : Nat → State} {inp : Nat → Mmu.In} (h : ∀ t, SupportedModes (csr t)) (t : Nat)
    (hw : (Mmu.run (mmuUnder csr inp) t).ptw.state ≠ .idle) :
    (Mmu.run (mmuUnder csr inp) t).ptw.effPriv = PRV_U ∨ (Mmu.run (mmuUnder csr inp) t).ptw.effPriv = PRV_S := by
  induction t with
  | zero => exact absurd rfl hw
  | succ t ih =>
      have hstep : (Mmu.run (mmuUnder csr inp) (t + 1)).ptw =
        Mmu.ptwNext (Mmu.run (mmuUnder csr inp) t) (mmuUnder csr inp t) := rfl
      rw [hstep] at hw ⊢
      by_cases hs : (Mmu.run (mmuUnder csr inp) t).ptw.state = .idle
      · rcases Mmu.ptwNext_idle (i := mmuUnder csr inp t) hs with ⟨hn, he⟩ | ⟨-, hn, he⟩ | ⟨-, -, he⟩
        · rw [he]
          exact (h t).priv.not_m (xlateIf_elim (Mmu.needsWalk_elim hn).2.1)
        · rw [he]
          exact (h t).dmEffPriv.not_m (xlateDm_elim (Mmu.needsWalk_elim hn).2.1)
        · rw [he] at hw
          exact absurd hs hw
      · rw [(Mmu.ptwNext_keep hs).2.2.1]
        exact ih hs

/-! ## Runs -/

/-- The modes stay supported, and the MMU checks at user and supervisor mode only, exactly when no write of
`mstatus` puts the reserved encoding into MPP. -/
theorem supportedModes_iff (ext : Nat → Ext) (inp : Nat → In) :
    ((∀ t, SupportedModes (run reset ext inp t)) ∧
      ∀ (mmu : Nat → Mmu.In) (t : Nat) (p : BitVec 2),
        Consulted (Mmu.run (mmuUnder (run reset ext inp) mmu) t) (Soc.ctx (run reset ext inp t)) p →
          p = PRV_U ∨ p = PRV_S) ↔
      ∀ t, reservesMpp (run reset ext inp t) (ext t) (inp t) = false := by
  constructor
  · intro h t
    by_contra hr
    have hmpp := (h.1 (t + 1)).mpp
    rw [run_succ, mpp_of_reservesMpp (by simpa using hr), supported_iff] at hmpp
    exact hmpp rfl
  · intro h
    have hrun : ∀ t, SupportedModes (run reset ext inp t) := by
      intro t
      induction t with
      | zero => exact supportedModes_reset
      | succ t ih => exact ih.step (h t)
    refine ⟨hrun, ?_⟩
    intro mmu t p hc
    rcases hc with ⟨hx, rfl⟩ | ⟨hx, rfl⟩ | ⟨hw, rfl⟩
    · exact (hrun t).priv.not_m (xlateIf_elim hx)
    · exact (hrun t).dmEffPriv.not_m (xlateDm_elim hx)
    · exact walk_mode hrun t hw

/-- `csrrw mstatus, 0x1000` and an MRET. -/
def enterReserved : Nat → In
  | 0 => csrrw CSR_MSTATUS 0x1000#32
  | 1 => { idleCmd with mret := true }
  | _ => idleCmd

theorem not_supportedModes : ¬ ∀ (ext : Nat → Ext) (inp : Nat → In),
    (∀ t, SupportedModes (run reset ext inp t)) ∧
      ∀ (mmu : Nat → Mmu.In) (t : Nat) (p : BitVec 2),
        Consulted (Mmu.run (mmuUnder (run reset ext inp) mmu) t) (Soc.ctx (run reset ext inp t)) p →
          p = PRV_U ∨ p = PRV_S := by
  intro h
  have hp := ((h (fun _ => ⟨false, false, false, false, 0⟩) enterReserved).1 2).priv
  rw [supported_iff] at hp
  exact hp (by decide)

end Csr

end QinglongCore
