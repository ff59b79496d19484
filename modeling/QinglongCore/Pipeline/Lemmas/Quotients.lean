import QinglongCore.Isa.Machine
import QinglongCore.Pipeline.Lemmas.Operands

/-!
# Results of the divider

The result that a DIV/REM word takes out of EX is the answer to the operands it was started with.
-/

namespace QinglongCore.CorePipeline

variable {s : State} {i : In} {u : Uses}

structure Divides (s : State) (u : Uses) : Prop where
  unit : s.divUnit.state ≠ .idle → DivUnit.Working (Isa.divIn s.ex.instr u.unit.1 u.unit.2) s.divUnit
  done : s.divUnit.done = true → s.divUnit.result = DivUnit.answer (Isa.divIn s.ex.instr u.unit.1 u.unit.2)
  latched : s.div.doneLatched = true →
    s.div.result = DivUnit.answer (Isa.divIn s.ex.instr u.latched.1 u.latched.2)

theorem divides_reset (pc : Word) (regs : RegFile) (u : Uses) : Divides (reset pc regs) u := by
  constructor <;> simp [reset, DivUnit.reset]

/-- The divider is started with the operands in EX. -/
theorem divIn_of_pulse (hsp : Spaced s) (hp : divStartPulse s = true) :
    divIn s = Isa.divIn s.ex.instr (exRs1Fwd s) (exRs2Fwd s) := by
  obtain ⟨id, m, d₁, d₂, he, -⟩ := hsp.ex_decoded (divStartPulse_elim hp).1
  simp [divIn, IdEx.divIn, Isa.divIn, hp, he, IdEx.ofId]

theorem divides_step (hsp : Spaced s) (hown : DivOwned s) (h : Divides s u) (i : In) :
    Divides (step s i) (u.step s) := by
  have hbusy : s.divUnit.state ≠ .idle → (step s i).ex = s.ex ∧ (u.step s).unit = u.unit := by
    intro hs
    have hu : (s.divUnit.state == .idle) = false := by simpa using hs
    refine ⟨exNext_of_stall (hown.stallEx_of_active (.inr hs)).2, ?_⟩
    show (if _ then _ else u.unit) = u.unit
    simp [hu]
  constructor
  · intro hs
    by_cases hidle : s.divUnit.state = .idle
    · cases hp : divStartPulse s
      · exact absurd (divUnit_step_idle (i := i) hidle hp).1 hs
      · have hunit : (u.step s).unit = (exRs1Fwd s, exRs2Fwd s) := by
          show (if _ then _ else u.unit) = _
          simp [hidle, hp]
        rw [exNext_of_stall (divStartPulse_stallEx hp), hunit, ← divIn_of_pulse hsp hp]
        exact DivUnit.working_of_start hidle hp
    · obtain ⟨hex, hunit⟩ := hbusy hidle
      rw [hex, hunit]
      rcases DivUnit.working_step (j := divIn s) (h.unit hidle) with ⟨hd, -⟩ | ⟨-, hw⟩
      · exact absurd (DivUnit.step_done_idle _ _ hd) hs
      · exact hw
  · intro hd
    by_cases hidle : s.divUnit.state = .idle
    · have hd' : (step s i).divUnit.done = false := by
        cases hp : divStartPulse s
        · exact (divUnit_step_idle hidle hp).2
        · exact (DivUnit.step_started hidle hp).2
      rw [hd'] at hd
      simp at hd
    · obtain ⟨hex, hunit⟩ := hbusy hidle
      rw [hex, hunit]
      rcases DivUnit.working_step (j := divIn s) (h.unit hidle) with ⟨-, hr⟩ | ⟨hn, -⟩
      · exact hr
      · have hn' : (step s i).divUnit.done = false := hn
        rw [hn'] at hd
        simp at hd
  · intro hl
    cases hd : s.divUnit.done
    · -- a latched result leaves with its word
      have hl' : (divNext s).doneLatched = true := hl
      cases hld : s.div.doneLatched
      · simp [divNext, hd, hld] at hl'
      · obtain ⟨hx, hdiv⟩ := hown.owner (.inr (.inl hld))
        rw [(hown.step_of_leave (i := i) hsp hx hdiv hld).2.1] at hl
        simp at hl
    · have hlat : (u.step s).latched = u.unit := by
        show (if s.divUnit.done then u.unit else u.latched) = u.unit
        rw [hd]
        rfl
      have hres : (step s i).div.result = s.divUnit.result := by
        show (if s.divUnit.done then s.divUnit.result else s.div.result) = s.divUnit.result
        rw [hd]
        rfl
      rw [exNext_of_stall (hown.stallEx_of_active (.inl hd)).2, hlat, hres, h.done hd]

end QinglongCore.CorePipeline
