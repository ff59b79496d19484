import QinglongCore.Base.Pick
import QinglongCore.Csr.Lemmas.Edges

/-!
# Interrupt selection and routing

The interrupt that the CSR file offers to the core and the mode that a trap with its cause goes to are computed apart.
They are compared here with one reading of the privileged specification, in which an interrupt is a bit of `mip`.
-/

namespace QinglongCore.Csr

/-! ## The specification -/

/-- An interrupt of mode `x` is not held back in the mode `p`: `x` is the higher mode, or the same with its enable set. -/
def Unmasked (x p : BitVec 2) (ie : Bool) : Prop := p < x ∨ (p = x ∧ ie = true)

/-- Interrupt `b` is pending and enabled, and the mode that it goes to may take it. -/
structure Candidate (s : State) (e : Ext) (b : Nat) : Prop where
  pending : (mipLive s e).getLsbD b = true
  enabled : s.mie.getLsbD b = true
  unmasked :
    if s.mideleg.getLsbD b then Unmasked PRV_S s.privMode (s.mstatus.getLsbD MSTATUS_SIE_BIT)
    else Unmasked PRV_M s.privMode (s.mstatus.getLsbD MSTATUS_MIE_BIT)

/-- The order within one mode. -/
def order : List Nat := [MIP_MEI_BIT, MIP_MSI_BIT, MIP_MTI_BIT, MIP_SEI_BIT, MIP_SSI_BIT, MIP_STI_BIT]

/-- What is not delegated goes before what is. -/
def Precedes (s : State) (b b' : Nat) : Prop :=
  (s.mideleg.getLsbD b = false ∧ s.mideleg.getLsbD b' = true) ∨
    (s.mideleg.getLsbD b = s.mideleg.getLsbD b' ∧ order.idxOf b < order.idxOf b')

/-- The cause of interrupt `b`. -/
def causeOf (b : Nat) : Word := 0x80000000#32 ||| BitVec.ofNat 32 b

variable {s : State} {e : Ext} {i : In} {b : Nat} {w : Word}

/-! ## Bits that are implemented -/

/-- The enables and the delegations stay within the bits that can be written. -/
structure Implemented (s : State) : Prop where
  mie : ∀ n, s.mie.getLsbD n = true → MIE_WRITABLE.getLsbD n = true
  mideleg : ∀ n, s.mideleg.getLsbD n = true → MIDELEG_WRITABLE.getLsbD n = true

theorem writeMux_mie (s : State) (a : BitVec 12) (v : Word) :
    (writeMux s a v).mie =
      if a = CSR_MIE then masked s.mie v MIE_WRITABLE
      else if a = CSR_SIE then (s.mie &&& ~~~s.mideleg) ||| (v &&& s.mideleg &&& MIE_WRITABLE)
      else s.mie := by
  by_cases hm : a = CSR_MIE
  · subst hm; rfl
  by_cases hs : a = CSR_SIE
  · subst hs; rfl
  unfold writeMux
  rw [if_neg hm, if_neg hm, if_neg hs, if_neg hs]
  iterate 21 refine mux_kept State.mie rfl ?_
  split <;> rfl

theorem writeMux_mideleg (s : State) (a : BitVec 12) (v : Word) :
    (writeMux s a v).mideleg = if a = CSR_MIDELEG then v &&& MIDELEG_WRITABLE else s.mideleg := by
  by_cases hm : a = CSR_MIDELEG
  · subst hm; rfl
  unfold writeMux
  rw [if_neg hm, if_neg hm]
  iterate 22 refine mux_kept State.mideleg rfl ?_
  split <;> rfl

theorem Implemented.writeMux (h : Implemented s) (a : BitVec 12) (v : Word) : Implemented (writeMux s a v) where
  mie n hn := by
    rw [writeMux_mie] at hn
    have hs := h.mie n
    split at hn
    · rw [getLsbD_masked] at hn
      grind
    · split at hn
      · simp only [BitVec.getLsbD_or, BitVec.getLsbD_and] at hn
        grind
      · exact hs hn
  mideleg n hn := by
    rw [writeMux_mideleg] at hn
    split at hn
    · rw [BitVec.getLsbD_and, Bool.and_eq_true] at hn
      exact hn.2
    · exact h.mideleg n hn

theorem Implemented.step (h : Implemented s) (e : Ext) (i : In) : Implemented (step s e i) := by
  rcases step_cases s e i with ⟨-, -, hs⟩ | ⟨-, -, hs⟩ | ⟨-, hs⟩ | ⟨-, hs⟩ | ⟨-, hs⟩ | ⟨-, -, -, -, hs⟩
  case inr.inr.inr.inr.inl =>
    have ht : Implemented (tick s e i) := ⟨h.mie, h.mideleg⟩
    rw [hs]
    exact ht.writeMux i.csrAddr (newVal s e i)
  all_goals
    rw [hs]
    exact ⟨h.mie, h.mideleg⟩

theorem implemented_run (ext : Nat → Ext) (inp : Nat → In) (t : Nat) : Implemented (run reset ext inp t) := by
  have h₀ : Implemented reset := ⟨fun n hn => absurd hn (by simp [reset]), fun n hn => absurd hn (by simp [reset])⟩
  induction t with
  | zero => exact h₀
  | succ t ih =>
    rw [run_succ]
    exact ih.step (ext t) (inp t)

/-- An implemented interrupt has its place in the order. -/
theorem mem_order (hn : MIE_WRITABLE.getLsbD b = true) : b ∈ order := by
  have hall : ∀ n : Fin 32, MIE_WRITABLE.getLsbD n = true → n.val ∈ order := by decide
  exact hall ⟨b, BitVec.lt_of_getLsbD hn⟩ hn

/-! ## The first bit of a vector in the order -/

/-- The chain of the selection, over a vector of candidates. -/
def firstOf (w : Word) : Nat :=
  if w.getLsbD MIP_MEI_BIT then MIP_MEI_BIT
  else if w.getLsbD MIP_MSI_BIT then MIP_MSI_BIT
  else if w.getLsbD MIP_MTI_BIT then MIP_MTI_BIT
  else if w.getLsbD MIP_SEI_BIT then MIP_SEI_BIT
  else if w.getLsbD MIP_SSI_BIT then MIP_SSI_BIT
  else MIP_STI_BIT

theorem firstOf_eq (w : Word) : firstOf w = (order.find? w.getLsbD).getD MIP_STI_BIT := by
  simp only [firstOf, order, List.find?_cons, List.find?_nil]
  cases w.getLsbD MIP_MEI_BIT <;> cases w.getLsbD MIP_MSI_BIT <;> cases w.getLsbD MIP_MTI_BIT <;>
    cases w.getLsbD MIP_SEI_BIT <;> cases w.getLsbD MIP_SSI_BIT <;> cases w.getLsbD MIP_STI_BIT <;> rfl

/-- The last branch of the chain is right when the vector holds nothing but interrupts of the order. -/
theorem firstOf_spec (hw : ∀ n, w.getLsbD n = true → n ∈ order) (hb : w.getLsbD b = true) :
    w.getLsbD (firstOf w) = true ∧ order.idxOf (firstOf w) ≤ order.idxOf b := by
  rw [firstOf_eq]
  cases hf : order.find? w.getLsbD with
  | none => exact absurd hb (List.find?_eq_none.mp hf b (hw b hb))
  | some n => exact ⟨List.find?_some hf, Pick.find?_first hf (hw b hb) hb⟩

/-! ## The two paths -/

theorem mipM_bit (n : Nat) :
    (mipMEnabled s e).getLsbD n = true ↔
      (mipLive s e).getLsbD n = true ∧ s.mie.getLsbD n = true ∧ s.mideleg.getLsbD n = false := by
  simp only [mipMEnabled, BitVec.getLsbD_and, BitVec.getLsbD_not, Bool.and_eq_true, decide_eq_true_eq,
    Bool.not_eq_true']
  refine ⟨fun h => ⟨h.1.1, h.1.2, h.2.2⟩, fun h => ⟨⟨h.1, h.2.1⟩, BitVec.lt_of_getLsbD h.2.1, h.2.2⟩⟩

theorem mipS_bit (n : Nat) :
    (mipSEnabled s e).getLsbD n = true ↔
      (mipLive s e).getLsbD n = true ∧ s.mie.getLsbD n = true ∧ s.mideleg.getLsbD n = true := by
  simp only [mipSEnabled, BitVec.getLsbD_and, Bool.and_eq_true, and_assoc]

theorem mIrqEnabled_iff : mIrqEnabled s = true ↔ Unmasked PRV_M s.privMode (s.mstatus.getLsbD MSTATUS_MIE_BIT) := by
  unfold mIrqEnabled Unmasked
  generalize s.privMode = p, s.mstatus.getLsbD MSTATUS_MIE_BIT = ie
  revert p ie
  decide

theorem sIrqEnabled_iff : sIrqEnabled s = true ↔ Unmasked PRV_S s.privMode (s.mstatus.getLsbD MSTATUS_SIE_BIT) := by
  unfold sIrqEnabled Unmasked
  generalize s.privMode = p, s.mstatus.getLsbD MSTATUS_SIE_BIT = ie
  revert p ie
  decide

theorem ne_zero_iff (w : Word) : (w != 0#32) = true ↔ ∃ n, w.getLsbD n = true := by
  rw [bne_iff_ne, ne_eq, ← not_forall_not, not_iff_not]
  constructor
  · rintro rfl n
    simp
  · intro h
    apply BitVec.eq_of_getLsbD_eq
    intro n _
    simpa using h n

/-- The candidates are those of the M-path and those of the S-path. -/
theorem candidate_iff :
    Candidate s e b ↔
      (mIrqEnabled s = true ∧ (mipMEnabled s e).getLsbD b = true) ∨
        (sIrqEnabled s = true ∧ (mipSEnabled s e).getLsbD b = true) := by
  rw [mipM_bit, mipS_bit, mIrqEnabled_iff, sIrqEnabled_iff]
  cases hd : s.mideleg.getLsbD b with
  | false =>
    refine ⟨fun h => .inl ⟨by simpa [hd] using h.unmasked, h.pending, h.enabled, rfl⟩, ?_⟩
    rintro (⟨hu, hp, hen, -⟩ | ⟨-, -, -, hn⟩)
    · exact ⟨hp, hen, by simpa [hd] using hu⟩
    · exact absurd hn (by decide)
  | true =>
    refine ⟨fun h => .inr ⟨by simpa [hd] using h.unmasked, h.pending, h.enabled, rfl⟩, ?_⟩
    rintro (⟨-, -, -, hn⟩ | ⟨hu, hp, hen, -⟩)
    · exact absurd hn (by decide)
    · exact ⟨hp, hen, by simpa [hd] using hu⟩

theorem mIrqLive_iff : mIrqLive s e = true ↔ mIrqEnabled s = true ∧ ∃ n, (mipMEnabled s e).getLsbD n = true := by
  rw [mIrqLive, Bool.and_eq_true, ne_zero_iff]

theorem sIrqLive_iff : sIrqLive s e = true ↔ sIrqEnabled s = true ∧ ∃ n, (mipSEnabled s e).getLsbD n = true := by
  rw [sIrqLive, Bool.and_eq_true, ne_zero_iff]

theorem irqPending_iff : irqPending s e = true ↔ ∃ b, Candidate s e b := by
  simp only [irqPending, Bool.or_eq_true, mIrqLive_iff, sIrqLive_iff, candidate_iff, exists_or, exists_and_left]

theorem irqCause_m (h : mIrqLive s e = true) : irqCause s e = causeOf (firstOf (mipMEnabled s e)) := by
  rw [irqCause, if_pos h, firstOf]
  cases (mipMEnabled s e).getLsbD MIP_MEI_BIT <;> cases (mipMEnabled s e).getLsbD MIP_MSI_BIT <;>
    cases (mipMEnabled s e).getLsbD MIP_MTI_BIT <;> cases (mipMEnabled s e).getLsbD MIP_SEI_BIT <;>
    cases (mipMEnabled s e).getLsbD MIP_SSI_BIT <;> rfl

/-- The M-mode interrupts are missing from the chain of the S-path: they are not delegated. -/
theorem irqCause_s (hi : Implemented s) (h : mIrqLive s e = false) :
    irqCause s e = causeOf (firstOf (mipSEnabled s e)) := by
  have hoff : ∀ n, MIDELEG_WRITABLE.getLsbD n = false → (mipSEnabled s e).getLsbD n = false := by
    intro n hn
    by_contra hc
    have hd := hi.mideleg n ((mipS_bit n).mp (by simpa using hc)).2.2
    rw [hn] at hd
    exact absurd hd (by decide)
  rw [irqCause, if_neg (by rw [h]; decide), firstOf, hoff MIP_MEI_BIT (by decide), hoff MIP_MSI_BIT (by decide),
    hoff MIP_MTI_BIT (by decide)]
  cases (mipSEnabled s e).getLsbD MIP_SEI_BIT <;> cases (mipSEnabled s e).getLsbD MIP_SSI_BIT <;> rfl

/-- The interrupt offered is a candidate that precedes every other. -/
theorem irqCause_best (hi : Implemented s) (h : irqPending s e = true) :
    ∃ b, Candidate s e b ∧ irqCause s e = causeOf b ∧ ∀ b', Candidate s e b' → b' ≠ b → Precedes s b b' := by
  have hmem : ∀ n, s.mie.getLsbD n = true → n ∈ order := fun n hn => mem_order (hi.mie n hn)
  have hlt : ∀ {n m : Nat}, n ∈ order → m ≠ n → order.idxOf n ≤ order.idxOf m → order.idxOf n < order.idxOf m := by
    intro n m hn hne hle
    exact Nat.lt_of_le_of_ne hle fun heq => hne ((List.idxOf_inj hn).mp heq).symm
  cases hm : mIrqLive s e with
  | true =>
    obtain ⟨hen, n, hn⟩ := mIrqLive_iff.mp hm
    have hw : ∀ n, (mipMEnabled s e).getLsbD n = true → n ∈ order := fun n hn => hmem n ((mipM_bit n).mp hn).2.1
    have hfirst := (firstOf_spec hw hn).1
    have hd := ((mipM_bit _).mp hfirst).2.2
    refine ⟨_, candidate_iff.mpr (.inl ⟨hen, hfirst⟩), irqCause_m hm, ?_⟩
    intro b' hb' hne
    rcases candidate_iff.mp hb' with ⟨-, hb⟩ | ⟨-, hb⟩
    · exact .inr ⟨by rw [hd, ((mipM_bit _).mp hb).2.2], hlt (hw _ hfirst) hne (firstOf_spec hw hb).2⟩
    · exact .inl ⟨hd, ((mipS_bit _).mp hb).2.2⟩
  | false =>
    rw [irqPending, hm, Bool.false_or] at h
    obtain ⟨hen, n, hn⟩ := sIrqLive_iff.mp h
    have hw : ∀ n, (mipSEnabled s e).getLsbD n = true → n ∈ order := fun n hn => hmem n ((mipS_bit n).mp hn).2.1
    have hfirst := (firstOf_spec hw hn).1
    have hd := ((mipS_bit _).mp hfirst).2.2
    refine ⟨_, candidate_iff.mpr (.inr ⟨hen, hfirst⟩), irqCause_s hi hm, ?_⟩
    intro b' hb' hne
    rcases candidate_iff.mp hb' with hb | ⟨-, hb⟩
    · exact absurd (mIrqLive_iff.mpr ⟨hb.1, b', hb.2⟩) (by rw [hm]; decide)
    · exact .inr ⟨by rw [hd, ((mipS_bit _).mp hb).2.2], hlt (hw _ hfirst) hne (firstOf_spec hw hb).2⟩

/-! ## Routing -/

/-- A delegated candidate is never offered in M-mode. -/
theorem Candidate.not_m (h : Candidate s e b) (hd : s.mideleg.getLsbD b = true) : s.privMode ≠ PRV_M := by
  have hu := h.unmasked
  rw [if_pos hd] at hu
  intro hp
  rw [hp] at hu
  rcases hu with hlt | ⟨heq, -⟩
  · exact absurd hlt (by decide)
  · exact absurd heq (by decide)

theorem delegated_causeOf (hb : b ∈ order) : delegated s (causeOf b) = s.mideleg.getLsbD b := by
  simp only [order, List.mem_cons, List.not_mem_nil, or_false] at hb
  rcases hb with rfl | rfl | rfl | rfl | rfl | rfl <;> rfl

theorem trapToS_cause (h : Candidate s e b) (hb : b ∈ order) (ht : i.trapTake = true) (hc : i.trapCause = causeOf b) :
    trapToS s i = s.mideleg.getLsbD b := by
  rw [trapToS, ht, hc, delegated_causeOf hb]
  cases hd : s.mideleg.getLsbD b with
  | false => exact Bool.and_false _
  | true => simp [h.not_m hd]

theorem step_privMode_trap (ht : i.trapTake = true) :
    (step s e i).privMode = if trapToS s i then PRV_S else PRV_M := by
  rw [step, if_pos ht]
  split <;> rfl

/-- In every reachable state and for all external lines: an interrupt is offered exactly when the specification lets
some interrupt be taken; the cause offered is that of the candidate that precedes all others; and a trap with that cause
goes to S-mode exactly when it was delegated, and to M-mode from M-mode. -/
theorem interrupts_routed (ext : Nat → Ext) (inp : Nat → In) (t : Nat) (e : Ext) :
    (irqPending (run reset ext inp t) e = true ↔ ∃ b, Candidate (run reset ext inp t) e b) ∧
      (irqPending (run reset ext inp t) e = true → ∃ b, Candidate (run reset ext inp t) e b ∧
        irqCause (run reset ext inp t) e = causeOf b ∧
        (∀ b', Candidate (run reset ext inp t) e b' → b' ≠ b → Precedes (run reset ext inp t) b b') ∧
        ∀ i e', i.trapTake = true → i.trapCause = irqCause (run reset ext inp t) e →
          (trapToS (run reset ext inp t) i = true ↔ (run reset ext inp t).mideleg.getLsbD b = true) ∧
          (step (run reset ext inp t) e' i).privMode =
            (if (run reset ext inp t).mideleg.getLsbD b then PRV_S else PRV_M) ∧
          ((run reset ext inp t).privMode = PRV_M → trapToS (run reset ext inp t) i = false)) := by
  have hi := implemented_run ext inp t
  generalize run reset ext inp t = s at hi
  refine ⟨irqPending_iff, fun h => ?_⟩
  obtain ⟨b, hb, hc, hbest⟩ := irqCause_best hi h
  refine ⟨b, hb, hc, hbest, ?_⟩
  intro i e' ht hci
  have hs := trapToS_cause hb (mem_order (hi.mie b hb.enabled)) ht (hci.trans hc)
  refine ⟨by rw [hs], by rw [step_privMode_trap ht, hs], fun hp => ?_⟩
  simp [trapToS, hp]

end QinglongCore.Csr
