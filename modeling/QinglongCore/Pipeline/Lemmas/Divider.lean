import QinglongCore.Pipeline.Lemmas.Serial
import QinglongCore.Pipeline.Lemmas.DivLiveness

/-!
# The divider belongs to the DIV/REM word in EX

`startedAfresh` names the redirects that spoil this: the divider takes its one-cycle exit in that very
cycle, is started again for the word that stays in EX, and ends a second time after the word has left.
-/

namespace QinglongCore.CorePipeline

variable {s : State} {i : In}

/-- WB redirects while the divider leaves `S_INIT` by its exit for a zero divisor or an overflow. -/
def startedAfresh (s : State) : Bool :=
  wbRedirect s && (s.divUnit.state == .init && (s.divUnit.divByZero || s.divUnit.overflow))

/-- Whatever the divider does, it does for the DIV/REM word in EX. -/
structure DivOwned (s : State) : Prop where
  owner : s.div.started = true ∨ s.div.doneLatched = true ∨ s.divUnit.done = true ∨ s.divUnit.state ≠ .idle →
    s.ex.valid = true ∧ s.ex.ctrl.isDiv = true
  done_idle : s.divUnit.done = true → s.divUnit.state = .idle
  latched : s.div.doneLatched = true → s.divUnit.state = .idle ∧ s.divUnit.done = false
  unstarted : s.div.started = false → s.div.doneLatched = false ∧ s.divUnit.done = false
  fresh : s.ex.valid = true → s.mem.valid = true → s.divUnit.state = .idle ∧ s.divUnit.done = false
  early : s.ex.valid = true → s.wb.valid = true →
    (s.divUnit.state = .idle ∨ s.divUnit.state = .init) ∧ s.divUnit.done = false ∧ s.div.doneLatched = false

theorem divOwned_reset (pc : Word) (regs : RegFile) : DivOwned (reset pc regs) := by
  constructor <;> simp [reset, DivUnit.reset]

/-- An idle divider without an owner stays so. -/
theorem DivOwned.idle (h : DivOwned s) (hn : ¬ (s.ex.valid = true ∧ s.ex.ctrl.isDiv = true)) :
    s.div.started = false ∧ s.div.doneLatched = false ∧ s.divUnit.done = false ∧ s.divUnit.state = .idle := by
  have := mt h.owner hn
  simpa [not_or] using this

theorem divStartPulse_elim (h : divStartPulse s = true) :
    s.ex.valid = true ∧ s.ex.ctrl.isDiv = true ∧ s.div.started = false ∧ s.div.doneLatched = false ∧
      wbRedirect s = false := by
  simp only [divStartPulse, Bool.and_eq_true, Bool.not_eq_true'] at h
  exact ⟨h.1.1.1.1.1, h.1.1.1.1.2, h.1.1.1.2, h.1.1.2, h.2⟩

/-- A word with its result latched leaves EX. -/
theorem Spaced.stallEx_of_latched (hsp : Spaced s) (hv : s.ex.valid = true) (hl : s.div.doneLatched = true) :
    stallEx s = false := by
  rw [hsp.stallEx_of_ex hv]; simp [exDivStall, hl]

theorem divUnit_step_idle (hs : s.divUnit.state = .idle) (hp : divStartPulse s = false) :
    (step s i).divUnit.state = .idle ∧ (step s i).divUnit.done = false :=
  DivUnit.step_of_idle hs hp

/-- The divider word that leaves EX hands over an idle divider. -/
theorem DivOwned.step_of_leave (h : DivOwned s) (hsp : Spaced s) (hv : s.ex.valid = true)
    (hd : s.ex.ctrl.isDiv = true) (hl : s.div.doneLatched = true) :
    (step s i).div.started = false ∧ (step s i).div.doneLatched = false ∧
      (step s i).divUnit.state = .idle ∧ (step s i).divUnit.done = false := by
  have hse := hsp.stallEx_of_latched hv hl
  have hp : divStartPulse s = false := by simp [divStartPulse, hl]
  obtain ⟨hu, hdn⟩ := divUnit_step_idle (i := i) (h.latched hl).1 hp
  refine ⟨?_, ?_, hu, hdn⟩
  · rw [step_div]
    simp [divNext, hse, hv, hd, hl]
  · rw [step_div]
    simp [divNext, hse, hv, hd, hl]

theorem DivOwned.step_of_idle (h : DivOwned s) (hn : ¬ (s.ex.valid = true ∧ s.ex.ctrl.isDiv = true)) :
    (step s i).div.started = false ∧ (step s i).div.doneLatched = false ∧
      (step s i).divUnit.state = .idle ∧ (step s i).divUnit.done = false := by
  obtain ⟨hst, hl, hdn, hu⟩ := h.idle hn
  have hp : divStartPulse s = false := by
    cases hp : divStartPulse s
    · rfl
    · exact absurd ⟨(divStartPulse_elim hp).1, (divStartPulse_elim hp).2.1⟩ hn
  obtain ⟨hu', hdn'⟩ := divUnit_step_idle (i := i) hu hp
  refine ⟨?_, ?_, hu', hdn'⟩
  · rw [step_div]
    simp [divNext, hst, hp, hl]
  · rw [step_div]
    simp [divNext, hl, hdn]

/-- A DIV/REM word that stays in EX keeps the divider, with or without a start pulse. -/
theorem divNext_of_stall (hst : stallEx s = true) (hl : s.div.doneLatched = false) :
    (divNext s).started = (!wbRedirect s && (divStartPulse s || s.div.started)) ∧
      (divNext s).doneLatched = (!wbRedirect s && s.divUnit.done) := by
  simp only [divNext, hst, hl]
  cases wbRedirect s <;> cases divStartPulse s <;> cases s.divUnit.done <;> simp

theorem divOwned_step (hsp : Spaced s) (h : DivOwned s) (hc : startedAfresh s = false) (i : In) :
    DivOwned (step s i) := by
  by_cases hown : s.ex.valid = true ∧ s.ex.ctrl.isDiv = true
  swap
  · obtain ⟨hst, hl, hu, hdn⟩ := h.step_of_idle (i := i) hown
    exact ⟨fun hx => by simp [hst, hl, hu, hdn] at hx, fun _ => hu, fun _ => ⟨hu, hdn⟩,
      fun _ => ⟨hl, hdn⟩, fun _ _ => ⟨hu, hdn⟩, fun _ _ => ⟨Or.inl hu, hdn, hl⟩⟩
  obtain ⟨hv, hd⟩ := hown
  cases hl : s.div.doneLatched
  swap
  · obtain ⟨hst', hl', hu, hdn⟩ := h.step_of_leave (i := i) hsp hv hd hl
    exact ⟨fun hx => by simp [hst', hl', hu, hdn] at hx, fun _ => hu, fun _ => ⟨hu, hdn⟩,
      fun _ => ⟨hl', hdn⟩, fun _ _ => ⟨hu, hdn⟩, fun _ _ => ⟨Or.inl hu, hdn, hl'⟩⟩
  -- the word stays in EX
  have hst : stallEx s = true := by simp [stallEx, exDivStall, hv, hd, hl]
  have hex : (step s i).ex = s.ex := by
    rw [step_ex]
    simp [exNext, hst]
  have hmem : (step s i).mem.valid = false := by
    rw [step_mem]
    simp [memNext, hst, hsp.stallMem_of_ex hv, ExMem.bubble]
  obtain ⟨hs', hl'⟩ := divNext_of_stall hst hl
  have hs₁ : (step s i).div.started = _ := hs'
  have hl₁ : (step s i).div.doneLatched = _ := hl'
  refine ⟨fun _ => by rw [hex]; exact ⟨hv, hd⟩, DivUnit.step_done_idle _ _, fun hx => ?_, fun hx => ?_,
    fun _ hm => ?_, fun _ hw => ?_⟩
  · -- the result is latched in the cycle of `done`, when the word has been started and is not started again
    rw [hl₁] at hx
    simp only [Bool.and_eq_true, Bool.not_eq_true'] at hx
    have hstarted : s.div.started = true := by
      cases hs : s.div.started
      · rw [(h.unstarted hs).2] at hx; simp at hx
      · rfl
    exact divUnit_step_idle (h.done_idle hx.2) (by simp [divStartPulse, hstarted])
  · rw [hs₁] at hx
    cases hw : wbRedirect s
    · -- without a redirect an unstarted word is started now
      simp only [hw, Bool.not_false, Bool.true_and, Bool.or_eq_false_iff] at hx
      simp [divStartPulse, hv, hd, hl, hx.2, hsp.stallMem_of_ex hv, hw] at hx
    · obtain ⟨hu, hdn, -⟩ := h.early hv (wb_valid_of_wbRedirect hw)
      refine ⟨by rw [hl₁, hw]; rfl, ?_⟩
      rcases hu with hu | hu
      · exact (divUnit_step_idle hu (by simp [divStartPulse, hw])).2
      · show (DivUnit.step s.divUnit (divIn s)).done = false
        have hexit : s.divUnit.divByZero = false ∧ s.divUnit.overflow = false := by
          simpa [startedAfresh, hw, hu] using hc
        simp [DivUnit.step, hu, hexit.1, hexit.2]
  · rw [hmem] at hm; simp at hm
  · -- WB takes an instruction from MEM, so the word is in its first cycle in EX
    obtain ⟨-, hm, -, -⟩ := wbNext_valid hw
    obtain ⟨hu, hdn⟩ := h.fresh hv hm
    refine ⟨?_, ?_, ?_⟩
    · cases hp : divStartPulse s
      · exact Or.inl (divUnit_step_idle hu hp).1
      · exact Or.inr (DivUnit.step_started hu hp).1
    · cases hp : divStartPulse s
      · exact (divUnit_step_idle hu hp).2
      · exact (DivUnit.step_started hu hp).2
    · rw [hl₁, hdn]; simp

end QinglongCore.CorePipeline
