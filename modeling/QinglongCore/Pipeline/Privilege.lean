import QinglongCore.Pipeline.Lemmas.Regime
import QinglongCore.Csr.Lemmas.AddressMap

/-!
# The privilege rises with a trap only

What an instruction may do is decided in ID. CSR accesses and returns are serialised, so the mode in which they were
decoded is the mode in which they take effect in WB.
-/

namespace QinglongCore

namespace Decode

variable {w : Word} {m : Mode}

/-! ## What a legal instruction may do -/

theorem not_isSfence_of_isPriv {f : BitVec 12} (h : isPriv w f = true) (hf : f.extractLsb' 5 7 ≠ 0b0001001#7) :
    isSfence w = false := by
  simp only [isPriv, Bool.and_eq_true, beq_iff_eq] at h
  rw [← funct7_of_csrField h.2] at hf
  simp [isSfence, hf]

theorem illegalPriv_of_isPriv {f : BitVec 12} (h : isPriv w f = true) (hf : f.extractLsb' 5 7 ≠ 0b0001001#7)
    (hl : illegal w m = false) : (isSret w && m.priv == PRV_U) = false ∧
      (isSret w && m.priv == PRV_S && m.tsr) = false ∧ (isMret w && m.priv != PRV_M) = false := by
  have hs := not_isSfence_of_isPriv h hf
  simp only [isPriv, Bool.and_eq_true] at h
  simp only [illegal, illegalPriv, h.1.1, h.1.2, hs, Bool.true_and, Bool.false_eq_true, ↓reduceIte,
    Bool.or_eq_false_iff] at hl
  exact ⟨hl.1.2.1.1.2, hl.1.2.1.2, hl.1.2.2⟩

theorem priv_of_isMret (h : isMret w = true) (hl : illegal w m = false) : m.priv = PRV_M := by
  have hp := (illegalPriv_of_isPriv h (by decide) hl).2.2
  simpa [h] using hp

theorem priv_of_isSret (h : isSret w = true) (hl : illegal w m = false) :
    m.priv ≠ PRV_U ∧ ¬ (m.priv = PRV_S ∧ m.tsr = true) := by
  obtain ⟨hu, hs, -⟩ := illegalPriv_of_isPriv h (by decide) hl
  rw [h, Bool.true_and] at hu hs
  refine ⟨by simpa using hu, ?_⟩
  rintro ⟨hp, ht⟩
  simp [hp, ht] at hs

theorem priv_of_isCsr (h : isCsr w = true) (hl : illegal w m = false) :
    ((csrField w).extractLsb' 8 2).ule m.priv = true := by
  simp only [illegal, illegalCsr, h, Bool.true_and, Bool.or_eq_false_iff] at hl
  have hlt := hl.2.1.1.2
  simpa [BitVec.ule, BitVec.ult] using hlt

end Decode

namespace CorePipeline

variable {s : State} {i : In}

/-! ## The word behind a command -/

theorem MemWb.FromMem.xret {w : MemWb} (h : w.FromMem) :
    (w.isMret = true → Decode.isMret w.instr = true) ∧ (w.isSret = true → Decode.isSret w.instr = true) := by
  obtain ⟨m, b, ⟨ex, rs1, rs2, dv, p, hit, ph, ls, ⟨id, md, d₁, d₂, rfl, -⟩, hv, rfl, hls⟩, -, rfl⟩ := h
  unfold MemWb.ofMem
  dsimp only
  split_ifs
  all_goals simp only [MemWb.payload, Bool.false_eq_true, false_implies, and_self, Bool.and_eq_true, ExMem.ofEx,
    IdEx.ofId, Ctrl.ofId]
  exact ⟨fun h => h.1.1, fun h => h.1.1⟩

theorem ExMem.FromEx.trap_of_ofMem {m : ExMem} (h : m.FromEx) {b : MemBus} (ht : (MemWb.ofMem m b).trap = false) :
    m.trap = false := by
  cases hm : m.trap
  · rfl
  · rw [h.ofMem_trap b hm] at ht
    exact absurd ht (by decide)

/-- An instruction that leaves EX without an exception is legal. -/
theorem illegal_of_exTrap (hv : s.ex.valid = true) (ht : exTrap s = false) : s.ex.ctrl.illegal = false := by
  by_contra hl
  simp only [Bool.not_eq_false] at hl
  simp only [exTrap, exTrapInfo, IdEx.trapInfo, hv, hl, Bool.not_true, Bool.false_eq_true, ↓reduceIte] at ht
  split_ifs at ht <;> simp at ht

/-! ## The mode of decode is the mode in force -/

/-- What has been decided about a serialised instruction is what the decoder would decide now. -/
structure LegalNow (s : State) : Prop where
  ex : s.ex.valid = true → s.ex.ctrl.isSerial = true → s.ex.ctrl.illegal = Decode.illegal s.ex.instr (mode s)
  mem : s.mem.valid = true → s.mem.isSerial = true → s.mem.trap = false → Decode.illegal s.mem.instr (mode s) = false
  wb : s.wb.valid = true → s.wb.isSerial = true → s.wb.trap = false → Decode.illegal s.wb.instr (mode s) = false

theorem legalNow_reset (pc : Word) (regs : RegFile) : LegalNow (reset pc regs) := by
  constructor <;> simp [reset]

theorem mode_of_idle (hv : s.wb.valid = false) (i : In) : mode (step s i) = mode s := by
  have hc : (step s i).csr = Csr.tick s.csr i.ext (csrIn s) := csrStep_of_idle hv i.ext
  unfold mode
  rw [hc]
  rfl

theorem LegalNow.step (h : LegalNow s) (hsp : Spaced s) (ha : SerialAlone s) (i : In) : LegalNow (step s i) where
  ex hv hd := by
    rw [step_ex] at hv hd ⊢
    rcases exNext_valid hv with ⟨-, hx, he⟩ | ⟨hid, hs, -, -, -, he⟩
    · rw [he] at hd ⊢
      rw [mode_of_idle (ha.ex hx hd).2]
      exact h.ex hx hd
    · -- it enters an empty pipe, in the mode that it was decoded in
      rw [he] at hd ⊢
      rw [mode_of_idle (pipe_empty_of_serial hid hs hd).2.2]
      rfl
  mem hv hd ht := by
    rw [step_mem] at hv hd ht ⊢
    obtain ⟨-, ⟨-, hm, he⟩ | ⟨-, hx, he⟩⟩ := memNext_valid hv
    · rw [he, memHold_isSerial] at hd
      rw [he, memHold_trap] at ht
      rw [he, memHold_instr, mode_of_idle (ha.mem hm hd).2]
      exact h.mem hm hd ht
    · rw [he, memAdvance_isSerial] at hd
      rw [he, memAdvance_trap] at ht
      rw [he, memAdvance_instr, mode_of_idle (ha.ex hx hd).2, ← h.ex hx hd]
      exact illegal_of_exTrap hx ht
  wb hv hd ht := by
    rw [step_wb] at hv hd ht ⊢
    obtain ⟨-, hm, -, he⟩ := wbNext_valid hv
    rw [he, ofMem_isSerial] at hd
    rw [he] at ht
    rw [he, ofMem_instr, mode_of_idle (ha.mem hm hd).2]
    exact h.mem hm hd ((hsp.mem_origin hm).trap_of_ofMem ht)

variable {pc : Word} {regs : RegFile} {inp : Nat → In}

theorem legalNow_run (t : Nat) : LegalNow (run pc regs inp t) := by
  induction t with
  | zero => exact legalNow_reset pc regs
  | succ t ih => exact ih.step (spaced_run t) (serialAlone_run t) (inp t)

/-! ## Commands of the CSR file -/

theorem LegalNow.mret (h : LegalNow s) (hsp : Spaced s) (hm : mretWb s = true) : priv s = PRV_M := by
  simp only [mretWb, Bool.and_eq_true, Bool.not_eq_true'] at hm
  obtain ⟨⟨hv, hm⟩, ht⟩ := hm
  have ho := hsp.wb_origin hv
  exact Decode.priv_of_isMret (ho.xret.1 hm) (h.wb hv (ho.xret_serial (Or.inl hm)) ht)

theorem LegalNow.sret (h : LegalNow s) (hsp : Spaced s) (hr : sretWb s = true) :
    priv s ≠ PRV_U ∧ ¬ (priv s = PRV_S ∧ Csr.mstatusTsr s.csr = true) := by
  simp only [sretWb, Bool.and_eq_true, Bool.not_eq_true'] at hr
  obtain ⟨⟨hv, hr⟩, ht⟩ := hr
  have ho := hsp.wb_origin hv
  exact Decode.priv_of_isSret (ho.xret.2 hr) (h.wb hv (ho.xret_serial (Or.inr hr)) ht)

theorem LegalNow.csr (h : LegalNow s) (hsp : Spaced s) (hc : csrEnWb s = true) :
    (Csr.csrMinPriv (csrIn s)).ule (priv s) = true := by
  simp only [csrEnWb, Bool.and_eq_true, Bool.not_eq_true'] at hc
  obtain ⟨⟨hv, hc⟩, ht⟩ := hc
  have ho := hsp.wb_origin hv
  obtain ⟨hcsr, haddr⟩ := ho.csr hc
  have hser : s.wb.isSerial = true := by
    rw [ho.isSerial_eq]
    simp [Decode.isSerial, hcsr]
  have hp := Decode.priv_of_isCsr hcsr (h.wb hv hser ht)
  rw [← haddr] at hp
  exact hp

/-- A register takes the value of a CSR from an access only. -/
theorem csrEnWb_of_read (hw : rfWen s = true) (hc : s.wb.isCsr = true) : csrEnWb s = true := by
  simp only [rfWen, Bool.and_eq_true] at hw
  simp [csrEnWb, hw.1.1.1, hw.1.2, hc]

/-! ## The privilege -/

/-- The rules of privilege for the cycle from `s` to `s'`. -/
structure PrivilegeRules (s s' : State) : Prop where
  rise : (priv s).ult (priv s') = true → trapTakeWb s = true
  mret : mretWb s = true → priv s = PRV_M
  sret : sretWb s = true → priv s ≠ PRV_U ∧ ¬ (priv s = PRV_S ∧ Csr.mstatusTsr s.csr = true)
  trap : trapTakeWb s = true → priv s = PRV_M → priv s' = PRV_M
  csr : csrEnWb s = true → (Csr.csrMinPriv (csrIn s)).ule (priv s) = true
  read : rfWen s = true → s.wb.isCsr = true → (Csr.csrMinPriv (csrIn s)).ule (priv s) = true

theorem not_ult_prv_m : ∀ p : BitVec 2, PRV_M.ult p = false := by decide

theorem not_ult_of_ne_u : ∀ p : BitVec 2, p ≠ PRV_U → p.ult PRV_S = false ∧ p.ult PRV_U = false := by decide

/-- An MRET starts at the top and an SRET not at the bottom; writes keep the mode. -/
theorem LegalNow.rise (h : LegalNow s) (hsp : Spaced s) (i : In)
    (hr : (priv s).ult (priv (CorePipeline.step s i)) = true) : trapTakeWb s = true := by
  have hstep : priv (CorePipeline.step s i) = (Csr.step s.csr i.ext (csrIn s)).privMode := rfl
  rw [hstep] at hr
  rcases Csr.step_cases s.csr i.ext (csrIn s) with
    ⟨ht, -, -⟩ | ⟨ht, -, -⟩ | ⟨hm, -⟩ | ⟨hs, he⟩ | ⟨-, he⟩ | ⟨-, -, -, -, he⟩
  · exact ht
  · exact ht
  · simp only [Csr.In.mretTakes, Bool.and_eq_true] at hm
    rw [h.mret hsp hm.2, not_ult_prv_m] at hr
    exact absurd hr (by decide)
  · simp only [Csr.In.sretTakes, Bool.and_eq_true] at hs
    have hu := not_ult_of_ne_u _ (h.sret hsp hs.2).1
    rw [he, Csr.sretStep_privMode] at hr
    split at hr
    · rw [hu.1] at hr
      exact absurd hr (by decide)
    · rw [hu.2] at hr
      exact absurd hr (by decide)
  · rw [he, Csr.writeMux_privMode, Csr.tick_privMode] at hr
    exact absurd hr (by simp [priv, BitVec.ult])
  · rw [he, Csr.tick_privMode] at hr
    exact absurd hr (by simp [priv, BitVec.ult])

theorem priv_of_trap (ht : trapTakeWb s = true) (hp : priv s = PRV_M) (i : In) : priv (step s i) = PRV_M := by
  have htake : (csrIn s).trapTake = true := ht
  have hd : Csr.trapToS s.csr (csrIn s) = false := by
    cases hd : Csr.trapToS s.csr (csrIn s)
    · rfl
    · exact absurd hp (Csr.trapToS_elim hd).2.1
  have hstep : priv (step s i) = (Csr.step s.csr i.ext (csrIn s)).privMode := rfl
  rw [hstep, Csr.step, if_pos htake, hd]
  rfl

/-- In every cycle of every run the privilege rises with a trap only, and returns, traps and CSR accesses respect
the current mode. -/
theorem privilegeRules_run (pc : Word) (regs : RegFile) (inp : Nat → In) (t : Nat) :
    PrivilegeRules (run pc regs inp t) (run pc regs inp (t + 1)) where
  rise hr := (legalNow_run t).rise (spaced_run t) (inp t) hr
  mret hm := (legalNow_run t).mret (spaced_run t) hm
  sret hr := (legalNow_run t).sret (spaced_run t) hr
  trap ht hp := priv_of_trap ht hp (inp t)
  csr hc := (legalNow_run t).csr (spaced_run t) hc
  read hw hc := (legalNow_run t).csr (spaced_run t) (csrEnWb_of_read hw hc)

end CorePipeline

end QinglongCore
