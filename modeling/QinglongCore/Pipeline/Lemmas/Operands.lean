import QinglongCore.Pipeline.Lemmas.Divider
import QinglongCore.Pipeline.Lemmas.Forwarding

/-!
# Operand values on their way

The register values behind the operation in the divider and behind the instructions in MEM and WB, in terms of the
registers that the older instructions leave.
-/

namespace QinglongCore.CorePipeline

/-- The pair of operand values behind the operation in the divider, the divider result that EX will take,
and the instructions in MEM and WB. -/
structure Uses where
  unit : Word × Word
  latched : Word × Word
  mem : Word × Word
  wb : Word × Word

/-- The values move with the registers that were computed from them. -/
def Uses.step (u : Uses) (s : State) : Uses where
  unit := if s.divUnit.state == .idle && divStartPulse s then (exRs1Fwd s, exRs2Fwd s) else u.unit
  latched := if s.divUnit.done then u.unit else u.latched
  mem := if stallMem s then u.mem else if s.ex.ctrl.isDiv then u.latched else (exRs1Fwd s, exRs2Fwd s)
  wb := u.mem

section Run

variable (pc : Word) (regs : RegFile) (inp : Nat → In)

def uses : Nat → Uses
  | 0 => ⟨(0, 0), (0, 0), (0, 0), (0, 0)⟩
  | t + 1 => (uses t).step (run pc regs inp t)

/-- The value of a register by the commit port: that of the last retired write, `x0` being zero. -/
def archReg : Nat → BitVec 5 → Word
  | 0, a => if a = 0#5 then 0#32 else regs a
  | t + 1, a =>
      let s := run pc regs inp t
      if rfWen s && s.wb.rd == a then wbCommitRdData s (inp t).ext else archReg t a

end Run

variable {s : State} {i : In} {e : Ext} {u : Uses} {a : BitVec 5}

/-! ## The invariant -/

/-- The operand values on their way, in terms of the registers that the older instructions leave. -/
structure Held (s : State) (u : Uses) : Prop where
  captured : s.ex.valid = true → s.div.started = false ∨ s.wb.valid = true →
    s.ex.rs1Data = s.regs.read s.ex.rs1 ∧ s.ex.rs2Data = s.regs.read s.ex.rs2
  unit : s.divUnit.done = true ∨ s.divUnit.state ≠ .idle →
    u.unit = ((settled s).read s.ex.rs1, (settled s).read s.ex.rs2)
  latched : s.div.doneLatched = true → u.latched = ((settled s).read s.ex.rs1, (settled s).read s.ex.rs2)
  mem : s.mem.valid = true →
    u.mem = ((afterWb s).read (rs1Field s.mem.instr), (afterWb s).read (rs2Field s.mem.instr))
  wb : s.wb.valid = true → u.wb = (s.regs.read (rs1Field s.wb.instr), s.regs.read (rs2Field s.wb.instr))

theorem held_reset (pc : Word) (regs : RegFile) (u : Uses) : Held (reset pc regs) u := by
  constructor <;> simp [reset, DivUnit.reset]

theorem IdEx.Decoded.rs_fields {ex : IdEx} (h : ex.Decoded) :
    ex.rs1 = rs1Field ex.instr ∧ ex.rs2 = rs2Field ex.instr := by
  obtain ⟨id, m, d₁, d₂, rfl, -⟩ := h; exact ⟨rfl, rfl⟩

/-- An operand that ID captured is forwarded to its settled value. -/
theorem Held.forwarded (h : Held s u) (hsp : Spaced s) (hx : s.ex.valid = true) (hst : s.div.started = false) :
    (exRs1Fwd s, exRs2Fwd s) = ((settled s).read s.ex.rs1, (settled s).read s.ex.rs2) := by
  obtain ⟨h₁, h₂⟩ := h.captured hx (Or.inl hst)
  rw [exRs1Fwd, exRs2Fwd, h₁, h₂, forward_eq hsp hx, forward_eq hsp hx]

/-- The pair that an instruction takes from EX into MEM. -/
theorem Held.leaving (h : Held s u) (hsp : Spaced s) (hown : DivOwned s) (hx : s.ex.valid = true)
    (hse : stallEx s = false) :
    (if s.ex.ctrl.isDiv then u.latched else (exRs1Fwd s, exRs2Fwd s)) =
      ((settled s).read s.ex.rs1, (settled s).read s.ex.rs2) := by
  cases hd : s.ex.ctrl.isDiv
  · exact h.forwarded hsp hx (hown.idle (by simp [hd])).1
  · have hl : s.div.doneLatched = true := by
      rw [hsp.stallEx_of_ex hx] at hse
      simpa [exDivStall, hx, hd] using hse
    exact h.latched hl

/-- The divider works only while EX stalls for it. -/
theorem DivOwned.stallEx_of_active (h : DivOwned s) (ha : s.divUnit.done = true ∨ s.divUnit.state ≠ .idle) :
    s.ex.valid = true ∧ stallEx s = true := by
  obtain ⟨hx, hd⟩ := h.owner (Or.inr (Or.inr ha))
  refine ⟨hx, stallEx_of_exDivStall ?_⟩
  cases hl : s.div.doneLatched
  · simp [exDivStall, hx, hd, hl]
  · obtain ⟨hu, hdn⟩ := h.latched hl
    simp [hu, hdn] at ha

theorem divStartPulse_stallEx (h : divStartPulse s = true) : stallEx s = true := by
  obtain ⟨hx, hd, -, hl, -⟩ := divStartPulse_elim h
  exact stallEx_of_exDivStall (by simp [exDivStall, hx, hd, hl])

theorem exNext_of_stall (h : stallEx s = true) : (step s i).ex = s.ex := by
  rw [step_ex]
  simp [exNext, h]

theorem held_step (hsp : Spaced s) (hal : SerialAlone s) (hown : DivOwned s) (h : Held s u) (i : In) :
    Held (step s i) (u.step s) where
  captured hv hcap := by
    rcases exNext_valid hv with ⟨hst, hx, -⟩ | ⟨-, -, -, -, -, he⟩
    · -- the word stays; either its start was held back by a redirect, or it is in its second cycle
      have hd : s.ex.ctrl.isDiv = true ∧ s.div.doneLatched = false := by
        rw [hsp.stallEx_of_ex hx] at hst
        exact (exDivStall_elim hst).2
      have hcap' : s.div.started = false ∨ s.wb.valid = true := by
        rcases hcap with hs | hw
        · cases hr : wbRedirect s
          · have hs' : (divNext s).started = false := hs
            rw [(divNext_of_stall hst hd.2).1, hr] at hs'
            simp only [Bool.not_false, Bool.true_and, Bool.or_eq_false_iff] at hs'
            exact Or.inl hs'.2
          · exact Or.inr (wb_valid_of_wbRedirect hr)
        · exact Or.inl (hsp.ex_mem_fresh hx (wbNext_valid hw).2.1).1
      have hregs : (step s i).regs = s.regs := by
        have hw : rfWen s = false := by
          cases hr : wbRedirect s
          · have hwb : s.wb.valid = false := by
              rcases hcap with hs | hw
              · -- without a redirect the word would have been started
                have hs' : (divNext s).started = false := hs
                rw [(divNext_of_stall hst hd.2).1, hr] at hs'
                simp only [Bool.not_false, Bool.true_and, Bool.or_eq_false_iff] at hs'
                simp [divStartPulse, hx, hd, hs'.2, hsp.stallMem_of_ex hx, hr] at hs'
              · exact hsp.not_three hx (wbNext_valid hw).2.1
            simp [rfWen, hwb]
          · exact hal.rfWen_of_redirect hsp hr hx
        show s.regs.write (rfWen s) _ _ = s.regs
        rw [hw, RegFile.write_false]
      rw [exNext_of_stall hst, hregs]
      exact h.captured hx hcap'
    · have he' : (step s i).ex = exAdvance s i.ext := he
      rw [he']
      exact ⟨idRead_eq i, idRead_eq i⟩
  unit ha := by
    show (if s.divUnit.state == .idle && divStartPulse s then (exRs1Fwd s, exRs2Fwd s) else u.unit) = _
    by_cases hs : s.divUnit.state = .idle ∧ divStartPulse s = true
    · have hst := divStartPulse_stallEx hs.2
      obtain ⟨hx, -, hns, -, -⟩ := divStartPulse_elim hs.2
      rw [if_pos (by simp [hs]), settled_step hal hsp hx hst, exNext_of_stall hst]
      exact h.forwarded hsp hx hns
    · have hactive : s.divUnit.done = true ∨ s.divUnit.state ≠ .idle := by
        by_contra hn
        simp only [not_or, Bool.not_eq_true, ne_eq, not_not] at hn
        have hp : divStartPulse s = false := by simpa [hn.2] using hs
        obtain ⟨hu, hdn⟩ := divUnit_step_idle (i := i) hn.2 hp
        simp [hu, hdn] at ha
      obtain ⟨hx, hst⟩ := hown.stallEx_of_active hactive
      rw [if_neg (by simpa using hs), settled_step hal hsp hx hst, exNext_of_stall hst]
      exact h.unit hactive
  latched hl := by
    show (if s.divUnit.done then u.unit else u.latched) = _
    have hl' : (divNext s).doneLatched = true := hl
    cases hdn : s.divUnit.done
    · -- a latched result leaves with its word
      cases hld : s.div.doneLatched
      · simp [divNext, hdn, hld] at hl'
      · obtain ⟨hx, hd⟩ := hown.owner (Or.inr (Or.inl hld))
        rw [(hown.step_of_leave (i := i) hsp hx hd hld).2.1] at hl
        simp at hl
    · obtain ⟨hx, hst⟩ := hown.stallEx_of_active (Or.inl hdn)
      rw [if_pos rfl, settled_step hal hsp hx hst, exNext_of_stall hst]
      exact h.unit (Or.inl hdn)
  mem hv := by
    show (if stallMem s then u.mem else if s.ex.ctrl.isDiv then u.latched else (exRs1Fwd s, exRs2Fwd s)) =
      ((afterWb (step s i)).read (rs1Field (memNext s i).instr),
        (afterWb (step s i)).read (rs2Field (memNext s i).instr))
    obtain ⟨-, ⟨hst, hm, he⟩ | ⟨hse, hx, he⟩⟩ := memNext_valid hv
    · rw [if_pos hst, he, memHold_instr, afterWb_hold hal hsp hm hst]
      exact h.mem hm
    · obtain ⟨h₁, h₂⟩ := (hsp.ex_decoded hx).rs_fields
      rw [if_neg (by simp [stallMem_false_of_stallEx hse]), h.leaving hsp hown hx hse, he, memAdvance_instr,
        afterWb_step hal hsp hx, h₁, h₂]
  wb hv := by
    rw [step_wb]
    obtain ⟨-, hm, -, he⟩ := wbNext_valid hv
    rw [he, ofMem_instr, step_regs hal hsp (Or.inr hm)]
    exact h.mem hm

variable {pc : Word} {regs : RegFile} {inp : Nat → In} {t : Nat}

theorem divOwned_run (h : ∀ v, v < t → startedAfresh (run pc regs inp v) = false) :
    DivOwned (run pc regs inp t) := by
  induction t with
  | zero => exact divOwned_reset pc regs
  | succ t ih =>
      exact divOwned_step (spaced_run t) (ih fun v hv => h v (by omega)) (h t (by omega)) (inp t)

theorem held_run (h : ∀ v, v < t → startedAfresh (run pc regs inp v) = false) :
    Held (run pc regs inp t) (uses pc regs inp t) := by
  induction t with
  | zero => exact held_reset pc regs _
  | succ t ih =>
      have h' : ∀ v, v < t → startedAfresh (run pc regs inp v) = false := fun v hv => h v (by omega)
      exact held_step (spaced_run t) (serialAlone_run t) (divOwned_run h') (ih h') (inp t)

/-- The commit port and the register file agree. -/
theorem archReg_eq (t : Nat) (a : BitVec 5) : archReg pc regs inp t a = (run pc regs inp t).regs.read a := by
  induction t with
  | zero => rfl
  | succ t ih =>
      show _ = (RegFile.write _ _ _ _).read a
      rw [RegFile.read_write, archReg, ih]
      have hz : rfWen (run pc regs inp t) = true → (run pc regs inp t).wb.rd ≠ 0#5 := by
        simp only [rfWen, Bool.and_eq_true, bne_iff_ne]; exact And.right
      cases hw : rfWen (run pc regs inp t)
      · simp
      · simp [hz hw]

end QinglongCore.CorePipeline
