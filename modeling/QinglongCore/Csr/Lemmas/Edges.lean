import QinglongCore.Base.Sync
import QinglongCore.Rtl.Csr

/-!
# What one clock edge can do to the CSR file

The cases of `step`, and the fields that each of them keeps.
-/

namespace QinglongCore

/-! ## Bits of a word -/

theorem getLsbD_setBit {w : Word} {n m : Nat} {b : Bool} (hn : n < 32) :
    (setBit w n b).getLsbD m = if m = n then b else w.getLsbD m := by
  simp only [setBit, BitVec.getLsbD_or, BitVec.getLsbD_and, BitVec.getLsbD_not, BitVec.getLsbD_shiftLeft,
    BitVec.getLsbD_setWidth, BitVec.getLsbD_ofBool, BitVec.getLsbD_one]
  by_cases hm : m = n
  · subst hm
    simp [hn]
  · by_cases hlt : m < n
    · have hb : m < 32 := by omega
      simp [hm, hlt, hb]
    · have hd : m - n ≠ 0 := by omega
      by_cases hb : m < 32
      · simp [hm, hlt, hb, hd]
      · have hw : w.getLsbD m = false := BitVec.getLsbD_of_ge _ _ (by omega)
        simp [hm, hb, hw]

/-- Two words that agree on the two bits from `lo` on have the same field there. -/
theorem field_congr {w w' : Word} {lo : Nat} (h₀ : w.getLsbD lo = w'.getLsbD lo)
    (h₁ : w.getLsbD (lo + 1) = w'.getLsbD (lo + 1)) : w.extractLsb' lo 2 = w'.extractLsb' lo 2 := by
  ext n hn
  rw [BitVec.getElem_extractLsb', BitVec.getElem_extractLsb']
  cases n with
  | zero => exact h₀
  | succ n =>
      have hz : n = 0 := by omega
      subst hz
      exact h₁

namespace Csr

variable {s : State} {e : Ext} {i : In} {a : BitVec 12} {v : Word}

/-- The CSR file in cycle `t` when it starts in `s₀`. -/
def run (s₀ : State) (ext : Nat → Ext) (inp : Nat → In) : Nat → State :=
  Sync.run (fun s x => step s x.1 x.2) s₀ fun t => (ext t, inp t)

theorem run_succ (s₀ : State) (ext : Nat → Ext) (inp : Nat → In) (t : Nat) :
    run s₀ ext inp (t + 1) = step (run s₀ ext inp t) (ext t) (inp t) := rfl

theorem getLsbD_masked {old new mask : Word} (n : Nat) :
    (masked old new mask).getLsbD n = if mask.getLsbD n then new.getLsbD n else old.getLsbD n := by
  unfold masked
  rw [BitVec.getLsbD_or, BitVec.getLsbD_and, BitVec.getLsbD_and, BitVec.getLsbD_not]
  by_cases hn : n < 32
  · cases hm : mask.getLsbD n <;> simp [hn]
  · rw [BitVec.getLsbD_of_ge mask n (by omega), BitVec.getLsbD_of_ge old n (by omega)]
    simp

/-! ## The command that takes effect -/

def idleCmd : In := ⟨false, 0, 0, 0, 0, false, 0, 0, 0, false, false, false⟩

/-- `csrrw x0, a, v`. -/
def csrrw (a : BitVec 12) (v : Word) : In :=
  { idleCmd with csrEn := true, csrOp := F3_CSRRW, csrAddr := a, csrWdata := v }

def In.mretTakes (i : In) : Bool := !i.trapTake && i.mret
def In.sretTakes (i : In) : Bool := !i.trapTake && !i.mret && i.sret

/-- A CSR instruction writes. -/
def writes (s : State) (e : Ext) (i : In) : Bool := !i.trapTake && !i.mret && !i.sret && doWrite s e i

/-- A clock edge is a trap entry into one of two modes, one of two returns, a write, or it only counts. -/
theorem step_cases (s : State) (e : Ext) (i : In) :
    (i.trapTake = true ∧ trapToS s i = true ∧ step s e i = trapS (tick s e i) i) ∨
    (i.trapTake = true ∧ trapToS s i = false ∧ step s e i = trapM (tick s e i) i) ∨
    (i.mretTakes = true ∧ step s e i = mretStep (tick s e i)) ∨
    (i.sretTakes = true ∧ step s e i = sretStep (tick s e i)) ∨
    (writes s e i = true ∧ step s e i = writeMux (tick s e i) i.csrAddr (newVal s e i)) ∨
    (i.trapTake = false ∧ i.mret = false ∧ i.sret = false ∧ doWrite s e i = false ∧ step s e i = tick s e i) := by
  unfold In.mretTakes In.sretTakes writes step
  cases ht : i.trapTake
  · cases hm : i.mret
    · cases hs : i.sret
      · cases hw : doWrite s e i <;> simp
      · simp
    · simp
  · cases hd : trapToS s i <;> simp

theorem writes_elim (h : writes s e i = true) :
    i.trapTake = false ∧ i.mret = false ∧ i.sret = false ∧ i.csrEn = true ∧ doesWrite i = true ∧
      csrIllegal s e i = false := by
  simp only [writes, doWrite, Bool.and_eq_true, Bool.not_eq_true'] at h
  obtain ⟨⟨⟨ht, hm⟩, hs⟩, ⟨hen, hd⟩, hl⟩ := h
  exact ⟨ht, hm, hs, hen, hd, hl⟩

/-- A write is made at the privilege that the address asks for. -/
theorem privOk_of_writes (h : writes s e i = true) : privOk s i = true := by
  obtain ⟨-, -, -, -, -, hl⟩ := writes_elim h
  simp only [csrIllegal, Bool.or_eq_false_iff, Bool.not_eq_false'] at hl
  exact hl.1.1.2

theorem trapToS_elim (h : trapToS s i = true) :
    i.trapTake = true ∧ s.privMode ≠ PRV_M ∧ delegated s i.trapCause = true := by
  simp only [trapToS, Bool.and_eq_true, bne_iff_ne] at h
  exact ⟨h.1.1, h.1.2, h.2⟩

/-- An SRET drops to the mode that SPP names. -/
theorem sretStep_privMode (s : State) :
    (sretStep s).privMode = if s.mstatus.getLsbD MSTATUS_SPP_BIT then PRV_S else PRV_U := by
  unfold sretStep
  cases s.mstatus.getLsbD MSTATUS_SPP_BIT <;> rfl

/-! ## Counting keeps every other register -/

@[simp] theorem tick_mstatus : (tick s e i).mstatus = s.mstatus := rfl
@[simp] theorem tick_mie : (tick s e i).mie = s.mie := rfl
@[simp] theorem tick_mideleg : (tick s e i).mideleg = s.mideleg := rfl
@[simp] theorem tick_mipSw : (tick s e i).mipSw = s.mipSw := rfl
@[simp] theorem tick_privMode : (tick s e i).privMode = s.privMode := rfl
@[simp] theorem tick_pmpcfg : (tick s e i).pmpcfg = s.pmpcfg := rfl
@[simp] theorem tick_pmpaddr : (tick s e i).pmpaddr = s.pmpaddr := rfl

/-- Traps and returns leave the interrupt enables alone. -/
theorem mie_of_no_write (h : i.csrEn = false) : (step s e i).mie = s.mie := by
  rcases step_cases s e i with ⟨-, -, hs⟩ | ⟨-, -, hs⟩ | ⟨-, hs⟩ | ⟨-, hs⟩ | ⟨hw, -⟩ | ⟨-, -, -, -, hs⟩
  case inr.inr.inr.inr.inl =>
    rw [(writes_elim hw).2.2.2.1] at h
    simp at h
  all_goals
    rw [hs]
    rfl

theorem irqPending_of_mie (h : s.mie = 0) (e : Ext) : irqPending s e = false := by
  simp [irqPending, mIrqLive, sIrqLive, mipMEnabled, mipSEnabled, h]

/-! ## Fields a write keeps -/

/-- A field that no branch changes is not changed by a multiplexer. -/
theorem mux_kept {α : Type} (f : State → α) {c : Prop} [Decidable c] {x y : State} {v : α} (hx : f x = v)
    (hy : f y = v) : f (if c then x else y) = v := by
  split
  · exact hx
  · exact hy

theorem writeMux_privMode (s : State) (a : BitVec 12) (v : Word) : (writeMux s a v).privMode = s.privMode := by
  unfold writeMux
  iterate 23 refine mux_kept State.privMode rfl ?_
  split <;> rfl

theorem writeMux_satp (h : a ≠ CSR_SATP) (v : Word) : (writeMux s a v).satp = s.satp := by
  unfold writeMux
  rw [if_neg h]
  iterate 22 refine mux_kept State.satp rfl ?_
  split <;> rfl

/-- Only the two views of `mstatus` write it. -/
theorem writeMux_mstatus (s : State) (a : BitVec 12) (v : Word) :
    (writeMux s a v).mstatus =
      if a = CSR_MSTATUS then masked s.mstatus v MSTATUS_WRITABLE
      else if a = CSR_SSTATUS then masked s.mstatus v SSTATUS_MASK
      else s.mstatus := by
  by_cases hm : a = CSR_MSTATUS
  · subst hm; rfl
  by_cases hs : a = CSR_SSTATUS
  · subst hs; rfl
  unfold writeMux
  rw [if_neg hm, if_neg hm, if_neg hs, if_neg hs]
  iterate 21 refine mux_kept State.mstatus rfl ?_
  split <;> rfl

end Csr

end QinglongCore
