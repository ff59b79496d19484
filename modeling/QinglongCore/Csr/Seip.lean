import QinglongCore.Csr.Lemmas.Edges

/-!
# The two halves of SEIP

`mip` reads the stored SEIP bit ORed with the external line, and CSRRS and CSRRC write back what they read.
-/

namespace QinglongCore.Csr

def In.isSetClear (i : In) : Bool := !(i.csrOp == F3_CSRRW || i.csrOp == F3_CSRRWI)

/-- A set or clear of `mip` whose source operand leaves out SEIP. -/
def In.NamesNoSeip (i : In) : Prop :=
  i.csrAddr = CSR_MIP → i.isSetClear = true → i.csrWdata.getLsbD MIP_SEI_BIT = false

/-- The cycle performs a set or clear of `mip`. -/
def rmwMip (s : State) (e : Ext) (i : In) : Bool :=
  !i.trapTake && !i.mret && !i.sret && doWrite s e i && i.csrAddr == CSR_MIP && i.isSetClear

def swSeip (s : State) : Bool := s.mipSw.getLsbD MIP_SEI_BIT

def withSei (e : Ext) (b : Bool) : Ext := { e with sei := b }

variable {s : State} {e : Ext} {i : In} {b : Bool}

/-! ## Wires the line does not reach -/

theorem mipLive_withSei (h : swSeip s = true ∨ e.sei = b) : mipLive s (withSei e b) = mipLive s e := by
  have hor : (s.mipSw.getLsbD MIP_SEI_BIT || b) = (s.mipSw.getLsbD MIP_SEI_BIT || e.sei) := by
    rcases h with h | h
    · rw [show s.mipSw.getLsbD MIP_SEI_BIT = true from h]; rfl
    · rw [h]
  unfold mipLive withSei
  rw [hor]

theorem readMux_withSei {a : BitVec 12} (hm : a ≠ CSR_MIP) (hs : a ≠ CSR_SIP) :
    readMux s (withSei e b) a = readMux s e a := by
  unfold readMux withSei
  simp only [hm, hs, ↓reduceIte]

theorem addrValid_withSei : addrValid s (withSei e b) i = addrValid s e i := by
  unfold addrValid
  by_cases hm : i.csrAddr = CSR_MIP
  · rw [hm]; rfl
  · by_cases hs : i.csrAddr = CSR_SIP
    · rw [hs]; rfl
    · rw [readMux_withSei hm hs]

theorem doWrite_withSei : doWrite s (withSei e b) i = doWrite s e i := by
  unfold doWrite csrIllegal
  rw [addrValid_withSei]

theorem tick_withSei : tick s (withSei e b) i = tick s e i := by
  unfold tick
  rw [doWrite_withSei]

theorem rmwMip_withSei : rmwMip s (withSei e b) i = rmwMip s e i := by
  unfold rmwMip
  rw [doWrite_withSei]

theorem newVal_of_readValue {e' : Ext} (h : readValue s e' i = readValue s e i) :
    newVal s e' i = newVal s e i := by
  unfold newVal
  rw [h]

theorem newVal_of_not_setClear (e' : Ext) (h : i.isSetClear = false) : newVal s e' i = newVal s e i := by
  have hw : i.csrOp = F3_CSRRW ∨ i.csrOp = F3_CSRRWI := by
    simpa [In.isSetClear, ← or_iff_not_imp_left] using h
  simp [newVal, hw]

/-- A write of `sip` stores SSIP only, which the line does not reach. -/
theorem writeMux_sip_withSei (h : i.csrAddr = CSR_SIP) :
    newVal s (withSei e b) i &&& MIP_S_WRITABLE = newVal s e i &&& MIP_S_WRITABLE := by
  have hlive : mipLive s (withSei e b) &&& MIP_S_WRITABLE = mipLive s e &&& MIP_S_WRITABLE := by
    ext n hn
    by_cases h1 : n = 1
    · subst h1
      simp [mipLive, withSei, setBit, MIP_MSI_BIT, MIP_MTI_BIT, MIP_MEI_BIT, MIP_SEI_BIT, MIP_S_WRITABLE]
    · have hz : MIP_S_WRITABLE[n] = false := by
        revert h1
        revert n
        decide
      simp [hz]
  have hread : ∀ e', readValue s e' i = mipLive s e' &&& s.mideleg := by
    intro e'
    unfold readValue
    rw [h]
    rfl
  have hswap : ∀ x y : Word, x &&& y &&& MIP_S_WRITABLE = x &&& MIP_S_WRITABLE &&& y := by
    intro x y
    ac_rfl
  have hrd : readValue s (withSei e b) i &&& MIP_S_WRITABLE = readValue s e i &&& MIP_S_WRITABLE := by
    rw [hread, hread, hswap, hlive, hswap]
  unfold newVal
  split_ifs
  · rfl
  · rw [BitVec.and_or_distrib_right, hrd, ← BitVec.and_or_distrib_right]
  · rw [hswap, hrd, hswap]
  · exact hrd

/-! ## One cycle -/

theorem rmwMip_elim (h : rmwMip s e i = true) : i.csrAddr = CSR_MIP ∧ i.isSetClear = true ∧
    doWrite s e i = true ∧ step s e i = writeMux (tick s e i) CSR_MIP (newVal s e i) := by
  simp only [rmwMip, Bool.and_eq_true, Bool.not_eq_true', beq_iff_eq] at h
  obtain ⟨⟨⟨⟨⟨ht, hm⟩, hs⟩, hw⟩, ha⟩, hsc⟩ := h
  refine ⟨ha, hsc, hw, ?_⟩
  simp [step, ht, hm, hs, hw, ha]

/-- A cycle that does not write back the line ends in the same state for both values of the line. -/
theorem step_withSei (h : rmwMip s e i = true → swSeip s = true ∨ e.sei = b) :
    step s (withSei e b) i = step s e i := by
  unfold step
  rw [tick_withSei, doWrite_withSei]
  cases ht : i.trapTake
  · cases hm : i.mret
    · cases hs : i.sret
      · cases hw : doWrite s e i
        · simp only [Bool.false_eq_true, ↓reduceIte]
        · by_cases hmip : i.csrAddr = CSR_MIP
          · have hnew : newVal s (withSei e b) i = newVal s e i := by
              cases hsc : i.isSetClear
              · exact newVal_of_not_setClear _ hsc
              · apply newVal_of_readValue
                have hrmw : rmwMip s e i = true := by simp [rmwMip, ht, hm, hs, hw, hmip, hsc]
                have hl := mipLive_withSei (h hrmw)
                have hread : ∀ e', readValue s e' i = mipLive s e' := by
                  intro e'
                  unfold readValue
                  rw [hmip]
                  rfl
                rw [hread, hread, hl]
            simp only [hnew]
          · by_cases hsip : i.csrAddr = CSR_SIP
            · have hnew := @writeMux_sip_withSei s e i b hsip
              have hmux : ∀ t v, writeMux t CSR_SIP v = { t with
                  mipSw := (t.mipSw &&& ~~~MIP_S_WRITABLE) ||| (v &&& MIP_S_WRITABLE &&& t.mideleg) } :=
                fun _ _ => rfl
              simp only [Bool.false_eq_true, ↓reduceIte, hsip, hmux, hnew]
            · have hread : readValue s (withSei e b) i = readValue s e i := by
                unfold readValue
                rw [readMux_withSei hmip hsip]
              simp only [newVal_of_readValue hread]
      · simp only [Bool.false_eq_true, ↓reduceIte]
    · simp only [Bool.false_eq_true, ↓reduceIte]
  · simp only [↓reduceIte]

/-- A set or clear of `mip` that leaves out SEIP stores what it has read there. -/
theorem swSeip_step (h : rmwMip s e i = true) (hsrc : i.NamesNoSeip) :
    swSeip (step s e i) = (swSeip s || e.sei) := by
  obtain ⟨ha, hsc, hw, hstep⟩ := rmwMip_elim h
  have hbit := hsrc ha hsc
  have hread : readValue s e i = mipLive s e := by
    unfold readValue
    rw [ha]
    rfl
  have hlive : (mipLive s e).getLsbD MIP_SEI_BIT = (swSeip s || e.sei) := by
    simp [mipLive, setBit, swSeip, MIP_MSI_BIT, MIP_MTI_BIT, MIP_MEI_BIT, MIP_SEI_BIT]
  have hnew : (newVal s e i).getLsbD MIP_SEI_BIT = (swSeip s || e.sei) := by
    have hsc' : ¬ (i.csrOp = F3_CSRRW ∨ i.csrOp = F3_CSRRWI) := by
      simpa [In.isSetClear, not_or] using hsc
    unfold newVal
    rw [if_neg hsc', hread]
    split_ifs
    · rw [BitVec.getLsbD_or, hlive, hbit, Bool.or_false]
    · rw [BitVec.getLsbD_and, BitVec.getLsbD_not, hlive, hbit]
      simp [MIP_SEI_BIT]
    · exact hlive
  have htick : (tick s e i).mipSw = s.mipSw := rfl
  have hmask : MIP_M_WRITABLE.getLsbD MIP_SEI_BIT = true := by decide
  have hmux : ∀ t v, (writeMux t CSR_MIP v).mipSw = masked t.mipSw v MIP_M_WRITABLE := fun _ _ => rfl
  unfold swSeip at hnew ⊢
  rw [hstep, hmux, masked, BitVec.getLsbD_or, BitVec.getLsbD_and, BitVec.getLsbD_and, BitVec.getLsbD_not, hmask,
    hnew]
  simp [MIP_SEI_BIT]

/-! ## Runs -/

variable {s₀ : State} {ext : Nat → Ext} {w : Nat → Bool} {inp : Nat → In}

/-- Equal stored bits in every cycle come with equal states, and with lines that agree where they are stored. -/
theorem agree_of_mipSw (hsrc : ∀ t, (inp t).NamesNoSeip)
    (h : ∀ t, (run s₀ (fun t => withSei (ext t) (w t)) inp t).mipSw = (run s₀ ext inp t).mipSw) (t : Nat) :
    run s₀ (fun t => withSei (ext t) (w t)) inp t = run s₀ ext inp t ∧
      (rmwMip (run s₀ ext inp t) (ext t) (inp t) = true →
        swSeip (run s₀ ext inp t) = true ∨ (ext t).sei = w t) := by
  have hline : ∀ t, run s₀ (fun t => withSei (ext t) (w t)) inp t = run s₀ ext inp t →
      rmwMip (run s₀ ext inp t) (ext t) (inp t) = true →
        swSeip (run s₀ ext inp t) = true ∨ (ext t).sei = w t := by
    intro t hst hrmw
    have h₁ := swSeip_step hrmw (hsrc t)
    have h₂ := swSeip_step (rmwMip_withSei.trans hrmw : rmwMip _ (withSei (ext t) (w t)) _ = true) (hsrc t)
    have heq : swSeip (step (run s₀ ext inp t) (withSei (ext t) (w t)) (inp t)) =
        swSeip (step (run s₀ ext inp t) (ext t) (inp t)) := by
      have hn := h (t + 1)
      unfold run at hn hst ⊢
      rw [Sync.run_succ, Sync.run_succ, hst] at hn
      unfold swSeip
      rw [hn]
    rw [h₁, h₂] at heq
    cases hs : swSeip (run s₀ ext inp t)
    · exact Or.inr (by simpa [hs, withSei] using heq.symm)
    · exact Or.inl rfl
  have hst : run s₀ (fun t => withSei (ext t) (w t)) inp t = run s₀ ext inp t := by
    induction t with
    | zero => rfl
    | succ t ih =>
        have hs := step_withSei (hline t ih)
        unfold run at ih hs ⊢
        rw [Sync.run_succ, Sync.run_succ, ih]
        exact hs
  exact ⟨hst, hline t hst⟩

theorem run_withSei (h : ∀ t, rmwMip (run s₀ ext inp t) (ext t) (inp t) = true →
    swSeip (run s₀ ext inp t) = true ∨ (ext t).sei = w t) (t : Nat) :
    run s₀ (fun t => withSei (ext t) (w t)) inp t = run s₀ ext inp t := by
  induction t with
  | zero => rfl
  | succ t ih =>
      have hs := step_withSei (h t)
      unfold run at ih hs ⊢
      rw [Sync.run_succ, Sync.run_succ, ih]
      exact hs

/-- The stored bits of two runs that differ in the line agree exactly when each set or clear of `mip` finds SEIP
stored or meets the same line in both; in one run it keeps the stored SEIP exactly when it finds SEIP stored
or meets a low line. -/
theorem seip_separate_iff (s₀ : State) (ext : Nat → Ext) (w : Nat → Bool) (inp : Nat → In)
    (hsrc : ∀ t, (inp t).NamesNoSeip) :
    ((∀ t, (run s₀ (fun t => withSei (ext t) (w t)) inp t).mipSw = (run s₀ ext inp t).mipSw) ↔
      ∀ t, rmwMip (run s₀ ext inp t) (ext t) (inp t) = true →
        swSeip (run s₀ ext inp t) = true ∨ (ext t).sei = w t) ∧
    ∀ t, rmwMip (run s₀ ext inp t) (ext t) (inp t) = true →
      (swSeip (run s₀ ext inp (t + 1)) = swSeip (run s₀ ext inp t) ↔
        swSeip (run s₀ ext inp t) = true ∨ (ext t).sei = false) := by
  refine ⟨⟨fun h t => (agree_of_mipSw hsrc h t).2, fun h t => by rw [run_withSei h t]⟩, ?_⟩
  intro t hrmw
  have h₁ : swSeip (run s₀ ext inp (t + 1)) = (swSeip (run s₀ ext inp t) || (ext t).sei) :=
    swSeip_step hrmw (hsrc t)
  rw [h₁]
  cases swSeip (run s₀ ext inp t) <;> simp

/-! ## A timer forwarded while the line is high -/

/-- `csrrs mip, STIP` in cycle 0. -/
def setStip (t : Nat) : In :=
  if t = 0 then { idleCmd with csrEn := true, csrOp := F3_CSRRS, csrAddr := CSR_MIP, csrRs1OrImm := 5, csrWdata := 0x20 }
  else idleCmd

def lineFrom (n t : Nat) : Ext := ⟨false, false, false, decide (n ≤ t), 0⟩

theorem setStip_namesNoSeip (t : Nat) : (setStip t).NamesNoSeip := by
  intro _ _
  unfold setStip
  split <;> rfl

/-- The line rises after the write. -/
theorem seip_separate_late :
    (run reset (fun t => withSei (lineFrom 1 t) false) setStip 4).mipSw = (run reset (lineFrom 1) setStip 4).mipSw ∧
      (run reset (lineFrom 1) setStip 4).mipSw = 0x20#32 := by
  have h := (seip_separate_iff reset (lineFrom 1) (fun _ => false) setStip setStip_namesNoSeip).1
  refine ⟨h.mpr ?_ 4, by decide⟩
  intro t hrmw
  cases t with
  | zero => exact Or.inr rfl
  | succ t => simp [rmwMip, doWrite, setStip, idleCmd] at hrmw

/-- The line is high in the cycle of the write, and SEIP is stored with STIP. -/
theorem not_seip_separate : ¬ ∀ (s₀ : State) (ext : Nat → Ext) (w : Nat → Bool) (inp : Nat → In),
    (∀ t, (inp t).NamesNoSeip) → ∀ t, (run s₀ (fun t => withSei (ext t) (w t)) inp t).mipSw = (run s₀ ext inp t).mipSw := by
  intro h
  have h₁ := h reset (lineFrom 0) (fun _ => false) setStip setStip_namesNoSeip 1
  exact absurd h₁ (by decide)

end QinglongCore.Csr
