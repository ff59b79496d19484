import QinglongCore.Csr.Lemmas.Edges
import QinglongCore.Csr.Lemmas.AddressMap

/-!
# CSR instructions in S-mode

`sstatus`, `sie` and `sip` write through to registers of M-mode, each with a mask for the bits that are kept and
one for the bits that are inserted. In `sip` the two masks are not complementary.
-/

namespace QinglongCore.Csr

variable {s s' : State} {e : Ext} {i : In}

/-- The registers that can be written in S-mode. -/
def sModeCsrs : List (BitVec 12) :=
  [CSR_SSTATUS, CSR_SIE, CSR_SIP, CSR_STVEC, CSR_SCOUNTEREN, CSR_SSCRATCH, CSR_SEPC, CSR_SCAUSE, CSR_STVAL, CSR_SATP]

/-- The command of a CSR instruction. -/
def In.isCsrInsn (i : In) : Bool := i.csrEn && !i.trapTake && !i.mret && !i.sret

/-- A write of `sip` that finds SSIP set by software and not delegated. -/
def dropsSsip (s : State) (i : In) : Bool :=
  i.csrAddr == CSR_SIP && doesWrite i && !s.mideleg.getLsbD MIP_SSI_BIT && s.mipSw.getLsbD MIP_SSI_BIT

/-- What S-mode must leave as it is. -/
structure MFrame (s s' : State) : Prop where
  mstatus : ∀ n, SSTATUS_MASK.getLsbD n = false → s'.mstatus.getLsbD n = s.mstatus.getLsbD n
  mie : ∀ n, s.mideleg.getLsbD n = false → s'.mie.getLsbD n = s.mie.getLsbD n
  mip : ∀ n, s.mideleg.getLsbD n = false → s'.mipSw.getLsbD n = s.mipSw.getLsbD n
  medeleg : s'.medeleg = s.medeleg
  mideleg : s'.mideleg = s.mideleg
  mtvec : s'.mtvec = s.mtvec
  mepc : s'.mepc = s.mepc
  mcause : s'.mcause = s.mcause
  mtval : s'.mtval = s.mtval
  mscratch : s'.mscratch = s.mscratch
  pmpcfg : s'.pmpcfg = s.pmpcfg
  pmpaddr : s'.pmpaddr = s.pmpaddr

/-! ## Which writes are accepted -/

/-- Of the registers below M-mode those that can be written are the ones of S-mode. -/
theorem sModeCsrs_eq : namedCsrs.filter (fun b => b.extractLsb' 8 2 != PRV_M && b.extractLsb' 10 2 != 0b11#2) =
    sModeCsrs := rfl

theorem sModeCsrs_of_valid {a : BitVec 12} (hv : (readMux s e a).isSome = true) (hp : a.extractLsb' 8 2 ≠ PRV_M)
    (hr : a.extractLsb' 10 2 ≠ 0b11#2) : a ∈ sModeCsrs := by
  rw [readMux_isSome, Bool.or_eq_true, Bool.or_eq_true] at hv
  rcases hv with (hn | hc) | ha
  · rw [← sModeCsrs_eq, List.mem_filter]
    refine ⟨List.contains_iff_mem.mp hn, ?_⟩
    rw [Bool.and_eq_true, bne_iff_ne, bne_iff_ne]
    exact ⟨hp, hr⟩
  · exact absurd (pmpcfgIdx_privilege hc) hp
  · exact absurd (pmpaddrIdx_privilege ha) hp

theorem csrIllegal_of_not_sMode (hp : s.privMode = PRV_S) (hw : doesWrite i = true) (ha : i.csrAddr ∉ sModeCsrs) :
    csrIllegal s e i = true := by
  by_contra hl
  simp only [csrIllegal, hw, Bool.true_and, Bool.not_eq_true, Bool.or_eq_false_iff, Bool.not_eq_false'] at hl
  obtain ⟨⟨⟨hv, hpo⟩, hro⟩, -⟩ := hl
  refine ha (sModeCsrs_of_valid hv ?_ ?_)
  · intro h3
    rw [privOk, csrMinPriv, h3, hp] at hpo
    exact absurd hpo (by decide)
  · intro h3
    rw [isReadOnlySpace, h3] at hro
    exact absurd hro (by decide)

/-- In S-mode `sip` can be written. -/
theorem csrIllegal_sip (hp : s.privMode = PRV_S) (ha : i.csrAddr = CSR_SIP) : csrIllegal s e i = false := by
  have hv : addrValid s e i = true := by
    unfold addrValid
    rw [ha]
    rfl
  have hpo : privOk s i = true := by
    unfold privOk csrMinPriv
    rw [ha, hp]
    rfl
  simp [csrIllegal, hv, hpo, isReadOnlySpace, tvmBlocksSatp, ha, CSR_SIP, CSR_SATP]

/-! ## What the accepted writes keep -/

theorem MFrame.trans_tick {x : State} (h : MFrame (tick s e i) x) : MFrame s x :=
  ⟨h.mstatus, h.mie, h.mip, h.medeleg, h.mideleg, h.mtvec, h.mepc, h.mcause, h.mtval, h.mscratch, h.pmpcfg, h.pmpaddr⟩

/-- A write that stays away from the registers of M-mode. -/
theorem MFrame.of_other (h₁ : s'.mstatus = s.mstatus) (h₂ : s'.mie = s.mie) (h₃ : s'.mipSw = s.mipSw)
    (h : s'.medeleg = s.medeleg ∧ s'.mideleg = s.mideleg ∧ s'.mtvec = s.mtvec ∧ s'.mepc = s.mepc ∧
      s'.mcause = s.mcause ∧ s'.mtval = s.mtval ∧ s'.mscratch = s.mscratch ∧ s'.pmpcfg = s.pmpcfg ∧
      s'.pmpaddr = s.pmpaddr) : MFrame s s' := by
  obtain ⟨h₄, h₅, h₆, h₇, h₈, h₉, h₁₀, h₁₁, h₁₂⟩ := h
  exact ⟨fun _ _ => by rw [h₁], fun _ _ => by rw [h₂], fun _ _ => by rw [h₃], h₄, h₅, h₆, h₇, h₈, h₉, h₁₀, h₁₁, h₁₂⟩

theorem MFrame.write_sstatus (s : State) (v : Word) : MFrame s (writeMux s CSR_SSTATUS v) where
  mstatus n hn := by
    have hm : (writeMux s CSR_SSTATUS v).mstatus = masked s.mstatus v SSTATUS_MASK := rfl
    rw [hm, getLsbD_masked, if_neg (by rw [hn]; decide)]
  mie _ _ := rfl
  mip _ _ := rfl
  medeleg := rfl
  mideleg := rfl
  mtvec := rfl
  mepc := rfl
  mcause := rfl
  mtval := rfl
  mscratch := rfl
  pmpcfg := rfl
  pmpaddr := rfl

/-- The masks of `sie` keep what is not delegated. -/
theorem MFrame.write_sie (s : State) (v : Word) : MFrame s (writeMux s CSR_SIE v) where
  mstatus _ _ := rfl
  mie n hn := by
    have hm : (writeMux s CSR_SIE v).mie = (s.mie &&& ~~~s.mideleg) ||| (v &&& s.mideleg &&& MIE_WRITABLE) := rfl
    rw [hm, BitVec.getLsbD_or, BitVec.getLsbD_and, BitVec.getLsbD_and, BitVec.getLsbD_and, BitVec.getLsbD_not, hn]
    by_cases hlt : n < 32
    · simp [hlt]
    · simp [BitVec.getLsbD_of_ge s.mie n (by omega)]
  mip _ _ := rfl
  medeleg := rfl
  mideleg := rfl
  mtvec := rfl
  mepc := rfl
  mcause := rfl
  mtval := rfl
  mscratch := rfl
  pmpcfg := rfl
  pmpaddr := rfl

theorem MIP_S_WRITABLE_bit (n : Nat) : MIP_S_WRITABLE.getLsbD n = decide (n = MIP_SSI_BIT) := by
  by_cases hlt : n < 32
  · revert n
    decide
  · rw [BitVec.getLsbD_of_ge _ _ (by omega), decide_eq_false (by unfold MIP_SSI_BIT; omega)]

/-- A write of `sip` gives SSIP the written bit where it is delegated, and zero where it is not. -/
theorem writeMux_sip_bit (s : State) (v : Word) (n : Nat) :
    (writeMux s CSR_SIP v).mipSw.getLsbD n =
      if n = MIP_SSI_BIT then v.getLsbD n && s.mideleg.getLsbD n else s.mipSw.getLsbD n := by
  have hm : (writeMux s CSR_SIP v).mipSw =
      (s.mipSw &&& ~~~MIP_S_WRITABLE) ||| (v &&& MIP_S_WRITABLE &&& s.mideleg) := rfl
  rw [hm, BitVec.getLsbD_or, BitVec.getLsbD_and, BitVec.getLsbD_and, BitVec.getLsbD_and, BitVec.getLsbD_not,
    MIP_S_WRITABLE_bit]
  by_cases hn : n = MIP_SSI_BIT
  · simp [hn]
  · by_cases hlt : n < 32
    · simp [hn, hlt]
    · simp [hn, BitVec.getLsbD_of_ge s.mipSw n (by omega)]

theorem MFrame.write_sip_iff (s : State) (v : Word) :
    MFrame s (writeMux s CSR_SIP v) ↔
      (s.mideleg.getLsbD MIP_SSI_BIT = false → s.mipSw.getLsbD MIP_SSI_BIT = false) := by
  constructor
  · intro h hd
    have hbit := h.mip MIP_SSI_BIT hd
    rw [writeMux_sip_bit, if_pos rfl, hd, Bool.and_false] at hbit
    exact hbit.symm
  · intro h
    refine ⟨fun _ _ => rfl, fun _ _ => rfl, ?_, rfl, rfl, rfl, rfl, rfl, rfl, rfl, rfl, rfl⟩
    intro n hd
    rw [writeMux_sip_bit]
    split
    · next hn =>
        subst hn
        rw [h hd, hd, Bool.and_false]
    · rfl

/-! ## CSR instructions in a run -/

theorem step_of_csrInsn (h : i.isCsrInsn = true) :
    step s e i = if doesWrite i && !csrIllegal s e i then writeMux (tick s e i) i.csrAddr (newVal s e i)
      else tick s e i := by
  simp only [In.isCsrInsn, Bool.and_eq_true, Bool.not_eq_true'] at h
  obtain ⟨⟨⟨hen, ht⟩, hm⟩, hs⟩ := h
  simp only [step, ht, hm, hs, doWrite, hen, Bool.true_and, Bool.false_eq_true, ↓reduceIte]

theorem MFrame.csrInsn_iff (hp : s.privMode = PRV_S) (hc : i.isCsrInsn = true) :
    MFrame s (step s e i) ↔ dropsSsip s i = false := by
  have htick : MFrame s (tick s e i) := .of_other rfl rfl rfl ⟨rfl, rfl, rfl, rfl, rfl, rfl, rfl, rfl, rfl⟩
  rw [step_of_csrInsn hc]
  by_cases hsip : i.csrAddr = CSR_SIP
  · -- the one register whose masks overlap badly
    cases hw : doesWrite i
    · simp [dropsSsip, hw, htick]
    · rw [csrIllegal_sip hp hsip, Bool.not_false, Bool.and_true, if_pos rfl, hsip]
      have hiff := MFrame.write_sip_iff (tick s e i) (newVal s e i)
      constructor
      · intro h
        have hkeep := hiff.mp
          ⟨h.mstatus, h.mie, h.mip, h.medeleg, h.mideleg, h.mtvec, h.mepc, h.mcause, h.mtval, h.mscratch, h.pmpcfg,
            h.pmpaddr⟩
        cases hd : s.mideleg.getLsbD MIP_SSI_BIT
        · simp [dropsSsip, show s.mipSw.getLsbD MIP_SSI_BIT = false from hkeep hd]
        · simp [dropsSsip, hd]
      · intro h
        refine (hiff.mpr ?_).trans_tick
        intro hd
        simpa [dropsSsip, hsip, hw, show s.mideleg.getLsbD MIP_SSI_BIT = false from hd] using h
  · have hdrop : dropsSsip s i = false := by simp [dropsSsip, hsip]
    refine ⟨fun _ => hdrop, fun _ => ?_⟩
    split
    · next hw =>
        simp only [Bool.and_eq_true, Bool.not_eq_true'] at hw
        have ha : i.csrAddr ∈ sModeCsrs := by
          by_contra hn
          rw [csrIllegal_of_not_sMode hp hw.1 hn] at hw
          exact absurd hw.2 (by decide)
        refine MFrame.trans_tick (e := e) (i := i) ?_
        generalize newVal s e i = v
        simp only [sModeCsrs, List.mem_cons, List.not_mem_nil, or_false] at ha
        rcases ha with ha | ha | ha | ha | ha | ha | ha | ha | ha | ha
        · rw [ha]; exact .write_sstatus _ _
        · rw [ha]; exact .write_sie _ _
        · exact absurd ha hsip
        all_goals
          rw [ha]
          exact .of_other rfl rfl rfl ⟨rfl, rfl, rfl, rfl, rfl, rfl, rfl, rfl, rfl⟩
    · exact htick

/-- A CSR instruction in S-mode keeps the state of M-mode exactly when it is not a write of `sip` that finds SSIP
set by software and not delegated; a write of a register that is not one of S-mode is rejected. -/
theorem smode_frame_iff (ext : Nat → Ext) (inp : Nat → In) (t : Nat) (hp : (run reset ext inp t).privMode = PRV_S)
    (hc : (inp t).isCsrInsn = true) :
    (MFrame (run reset ext inp t) (run reset ext inp (t + 1)) ↔ dropsSsip (run reset ext inp t) (inp t) = false) ∧
      (doesWrite (inp t) = true → (inp t).csrAddr ∉ sModeCsrs →
        csrIllegal (run reset ext inp t) (ext t) (inp t) = true ∧
          run reset ext inp (t + 1) = tick (run reset ext inp t) (ext t) (inp t)) := by
  rw [run_succ]
  refine ⟨MFrame.csrInsn_iff hp hc, ?_⟩
  intro hw ha
  have hl := csrIllegal_of_not_sMode (e := ext t) hp hw ha
  exact ⟨hl, by rw [step_of_csrInsn hc, hl, Bool.not_true, Bool.and_false, if_neg (by decide)]⟩

/-- Software sets SSIP, leaves for S-mode and writes `a` there. -/
def leaveWithSsip (a : BitVec 12) (v : Word) : Nat → In
  | 0 => csrrw CSR_MIP 2#32
  | 1 => csrrw CSR_MSTATUS 0x800#32
  | 2 => { idleCmd with mret := true }
  | 3 => csrrw a v
  | _ => idleCmd

def noLines (_ : Nat) : Ext := ⟨false, false, false, false, 0⟩

theorem smode_frame_sstatus :
    MFrame (run reset noLines (leaveWithSsip CSR_SSTATUS 0xFFFFFFFF#32) 3)
      (run reset noLines (leaveWithSsip CSR_SSTATUS 0xFFFFFFFF#32) 4) :=
  (smode_frame_iff noLines (leaveWithSsip CSR_SSTATUS 0xFFFFFFFF#32) 3 (by decide) (by decide)).1.mpr (by decide)

theorem not_smode_frame : ¬ ∀ (ext : Nat → Ext) (inp : Nat → In) (t : Nat),
    (run reset ext inp t).privMode = PRV_S → (inp t).isCsrInsn = true →
      MFrame (run reset ext inp t) (run reset ext inp (t + 1)) ∧
        (doesWrite (inp t) = true → (inp t).csrAddr ∉ sModeCsrs →
          csrIllegal (run reset ext inp t) (ext t) (inp t) = true) := by
  intro h
  have hbit := (h noLines (leaveWithSsip CSR_SIP 0#32) 3 (by decide) (by decide)).1.mip 1 (by decide)
  exact absurd hbit (by decide)

end QinglongCore.Csr
