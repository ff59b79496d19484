import QinglongCore.Pipeline.Births
import QinglongCore.Rtl.Lemmas.DivUnit

/-!
# A DIV/REM word held in EX retires

The divider answers within a bounded number of cycles once it is busy, whatever its operand ports show.
-/

namespace QinglongCore.CorePipeline

variable {pc : Word} {regs : RegFile} {inp : Nat → In} {s : State} {i : In} {r t : Nat}

/-! ## The divider at the head of the pipe -/

/-- A DIV/REM word that entered the pipe by cycle `r` is alone with the divider. -/
structure DivAlone (r : Nat) (s : State) (b : Births) : Prop where
  valid : s.ex.valid = true
  isDiv : s.ex.ctrl.isDiv = true
  mem : s.mem.valid = false
  wb : s.wb.valid = false
  born : b.ex ≤ r
  working : s.div.started = true → s.div.doneLatched = true ∨ s.divUnit.done = true ∨ s.divUnit.state ≠ .idle

/-- Bound on the cycles until the result is latched. -/
def divRank (s : State) : Nat :=
  if s.div.doneLatched then 0
  else if s.divUnit.done then 1
  else if s.div.started then DivUnit.remaining s.divUnit + 2
  else 69

theorem DivAlone.wbRedirect {b : Births} (h : DivAlone r s b) : wbRedirect s = false := by
  simp [CorePipeline.wbRedirect, h.wb]

theorem DivAlone.exNext {b : Births} (h : DivAlone r s b) (hl : s.div.doneLatched = false) :
    exNext s i = s.ex := by
  simp [CorePipeline.exNext, stallEx, exDivStall, h.valid, h.isDiv, hl]

/-- Until the result is latched the word stays, and the divider comes closer to its end. -/
theorem DivAlone.step {b : Births} (h : DivAlone r s b) (hl : s.div.doneLatched = false) (now : Nat) :
    DivAlone r (step s i) (b.step s i now) ∧ divRank (CorePipeline.step s i) < divRank s := by
  have hst : stallEx s = true := by simp [stallEx, exDivStall, h.valid, h.isDiv, hl]
  have hsm := stallMem_false_of_invalid h.mem
  have hdiv : divNext s =
      { started := divStartPulse s || s.div.started, doneLatched := s.divUnit.done
        result := if s.divUnit.done then s.divUnit.result else s.div.result } := by
    simp only [divNext, h.wbRedirect, hst, hl]
    cases divStartPulse s <;> simp
  have hpulse : divStartPulse s = !s.div.started := by
    simp [divStartPulse, h.valid, h.isDiv, hl, hsm, h.wbRedirect]
  have hstarted : (CorePipeline.step s i).div.started = true := by
    rw [step_div]
    rw [hdiv]; simp [hpulse]
  have hlatch : (CorePipeline.step s i).div.doneLatched = s.divUnit.done := by
    rw [step_div]
    rw [hdiv]
  -- what the divider does in this cycle: it starts, or it goes on
  have hunit : s.divUnit.done = false → (CorePipeline.step s i).divUnit.done = true ∨
      (CorePipeline.step s i).divUnit.state ≠ .idle ∧
        (s.div.started = true →
          DivUnit.remaining (CorePipeline.step s i).divUnit < DivUnit.remaining s.divUnit) := by
    intro hd
    cases hs : s.div.started
    · rcases DivUnit.step_of_start (s := s.divUnit) (i := divIn s) (by simp [divIn, IdEx.divIn, hpulse, hs]) with
        hdn | hbusy
      · exact Or.inl hdn
      · exact Or.inr ⟨hbusy, by simp⟩
    · have hbusy : s.divUnit.state ≠ .idle := by
        rcases h.working hs with hw | hw | hw
        · simp [hl] at hw
        · simp [hd] at hw
        · exact hw
      exact (DivUnit.step_of_busy hbusy (divIn s)).imp_right fun hr => ⟨hr.1, fun _ => hr.2⟩
  refine ⟨⟨?_, ?_, ?_, wbNext_empty (Or.inl h.mem), ?_, fun _ => ?_⟩, ?_⟩
  · rw [step_ex]
    rw [h.exNext hl]; exact h.valid
  · rw [step_ex]
    rw [h.exNext hl]; exact h.isDiv
  · rw [step_mem]
    simp [memNext, h.wbRedirect, hsm, hst, ExMem.bubble]
  · rw [Births.step_ex]
    rw [if_pos hst]; exact h.born
  · cases hd : s.divUnit.done
    · exact Or.inr ((hunit hd).imp_right And.left)
    · exact Or.inl (by rw [hlatch, hd])
  · simp only [divRank, hlatch, hl, Bool.false_eq_true, ↓reduceIte, hstarted]
    cases hd : s.divUnit.done
    · have hle := DivUnit.remaining_le (CorePipeline.step s i).divUnit
      rcases hunit hd with hdn | ⟨-, hlt⟩
      · simp only [hdn]
        cases s.div.started <;> simp
      · cases hdn : (CorePipeline.step s i).divUnit.done <;> cases hs : s.div.started <;>
          simp only [Bool.false_eq_true, ↓reduceIte] <;> first | omega | exact Nat.add_lt_add_right (hlt hs) 2
    · simp

/-- A DIV/REM word that the divider holds in EX through a redirect retires later. -/
theorem div_retires_after_redirect (hw : wbRedirect (run pc regs inp t) = true)
    (hdiv : exDivStall (run pc regs inp t) = true) (hborn : (births pc regs inp t).ex ≤ r) :
    ∃ u, t < u ∧ (run pc regs inp u).wb.valid = true ∧ (births pc regs inp u).wb ≤ r := by
  obtain ⟨hv, hd, -⟩ := exDivStall_elim hdiv
  have hst := stallEx_of_exDivStall hdiv
  have h₀ : DivAlone r (run pc regs inp (t + 1)) (births pc regs inp (t + 1)) := by
    refine ⟨?_, ?_, ?_, ?_, ?_, ?_⟩
    · show (exNext _ _).valid = true
      simp [exNext, hst, hv]
    · show (exNext _ _).ctrl.isDiv = true
      simp [exNext, hst, hd]
    · show (memNext _ _).valid = false
      simp [memNext, hw, ExMem.bubble]
    · show (wbNext _).valid = false
      simp [wbNext, hw, MemWb.bubble]
    · show (if _ then _ else _) ≤ r
      rw [if_pos hst]; exact hborn
    · intro hs
      have hs' : (divNext (run pc regs inp t)).started = true := hs
      simp [divNext, hw] at hs'
  obtain ⟨u, hu, h, hl⟩ := Sync.run_reaches
    (P := fun t s => DivAlone r s (births pc regs inp t))
    (Q := fun s => s.div.doneLatched = true) divRank
    (fun t h hl => h.step (by simpa using hl) t) h₀
  have hse : stallEx (run pc regs inp u) = false := by
    simp [stallEx, stallMem_false_of_invalid h.mem, exDivStall, hl]
  have hm : (run pc regs inp (u + 1)).mem = memAdvance (run pc regs inp u) :=
    memNext_of_ex h.wbRedirect h.valid hse
  have hwb : (run pc regs inp (u + 1)).wb.valid = false := wbNext_empty (Or.inl h.mem)
  have hsm : stallMem (run pc regs inp (u + 1)) = false := by
    refine (spaced_run (u + 1)).stallMem_of_div (by rw [hm]; rfl) ?_
    rw [hm, memAdvance_instr, ← ((spaced_run u).ex_decoded h.valid).isDiv]
    exact h.isDiv
  refine ⟨u + 2, by omega, ?_, ?_⟩
  · have he : (run pc regs inp (u + 2)).wb = _ :=
      wbNext_of_mem (by simp [wbRedirect, hwb]) (by rw [hm]; rfl) hsm
    rw [he]; exact ofMem_valid _ _
  · show (if stallMem (run pc regs inp u) then _ else (births pc regs inp u).ex) ≤ r
    rw [if_neg (by simp [stallMem_false_of_invalid h.mem])]
    exact h.born

end QinglongCore.CorePipeline
