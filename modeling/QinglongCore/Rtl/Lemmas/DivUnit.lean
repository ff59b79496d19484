import Mathlib.Tactic.Common
import QinglongCore.Rtl.DivUnit

/-!
# The divider at work

A busy divider reads none of its ports and comes to its end within a bounded number of cycles, so its answer is a
function of the operands it was started with.
-/

namespace QinglongCore.DivUnit

/-- Bound on the cycles until a busy divider pulses `done`. -/
def remaining (s : State) : Nat :=
  match s.state with
  | .idle => 0
  | .fixup => 1
  | .compute => (31#6 - s.iter).toNat + 2
  | .init => 66

theorem remaining_le (s : State) : remaining s ≤ 66 := by
  unfold remaining
  split
  · omega
  · omega
  · have := (31#6 - s.iter).isLt; omega
  · omega

/-- A busy divider comes closer to its end in every cycle, and pulses `done` there. -/
theorem step_of_busy {s : State} (h : s.state ≠ .idle) (i : In) :
    (step s i).done = true ∨ (step s i).state ≠ .idle ∧ remaining (step s i) < remaining s := by
  cases hst : s.state with
  | idle => exact absurd hst h
  | init =>
      by_cases hz : s.divByZero = true
      · exact Or.inl (by simp [step, hst, hz])
      by_cases ho : s.overflow = true
      · exact Or.inl (by simp [step, hst, hz, ho])
      · have := (31#6 - s.iter).isLt
        refine Or.inr ⟨by simp [step, hst, hz, ho], ?_⟩
        simp only [step, remaining, hst, hz, ho, Bool.false_eq_true, ↓reduceIte]
        omega
  | compute =>
      by_cases hi : s.iter = 31#6
      · exact Or.inr ⟨by simp [step, hst, computeStep, hi], by simp [step, hst, computeStep, hi, remaining]⟩
      · have hlt : (31#6 - (s.iter + 1)).toNat < (31#6 - s.iter).toNat := by bv_omega
        refine Or.inr ⟨by simp [step, hst, computeStep, hi], ?_⟩
        simp only [step, computeStep, remaining, hst, hi, ↓reduceIte]
        omega
  | fixup => exact Or.inl (by simp [step, hst])

theorem step_of_start {s : State} {i : In} (hs : i.start = true) :
    (step s i).done = true ∨ (step s i).state ≠ .idle := by
  by_cases hid : s.state = .idle
  · right; simp [step, hid, hs, start]
  · exact (step_of_busy hid i).imp_right And.left

theorem step_done_idle (s : State) (i : In) (h : (step s i).done = true) : (step s i).state = .idle := by
  unfold step at h ⊢
  split at h
  · split at h <;> simp [start] at h
  · split_ifs at h ⊢ <;> simp_all
  · simp [computeStep] at h
  · rfl

theorem step_of_idle {s : State} {i : In} (hs : s.state = .idle) (hi : i.start = false) :
    (step s i).state = .idle ∧ (step s i).done = false := by
  simp [step, hs, hi]

theorem step_started {s : State} {i : In} (hs : s.state = .idle) (hi : i.start = true) :
    (step s i).state = .init ∧ (step s i).done = false := by
  simp [step, hs, hi, start]

/-! ## The answer -/

/-- The ports of a divider that is left alone. -/
def In.quiet : In := ⟨false, false, false, 0, 0⟩

/-- The divider `k` cycles after it has been started with the operands of `i`. -/
def after (i : In) : Nat → State
  | 0 => start reset i
  | k + 1 => step (after i k) .quiet

/-- What the divider answers to the operands of `i`; it has come to its end by then. -/
def answer (i : In) : Word := (after i 66).result

variable {s s' : State} {i j : In} {k : Nat}

theorem step_ports (h : s.state ≠ .idle) : step s i = step s j := by
  cases hs : s.state
  case idle => exact absurd hs h
  all_goals simp [step, hs]

theorem idle_stays (h : s.state = .idle) : (step s .quiet).state = .idle ∧ (step s .quiet).result = s.result := by
  simp [step, h, In.quiet]

theorem after_idle (h : (after i k).state = .idle) (d : Nat) :
    (after i (k + d)).state = .idle ∧ (after i (k + d)).result = (after i k).result := by
  induction d with
  | zero => exact ⟨h, rfl⟩
  | succ d ih =>
      obtain ⟨hs, hr⟩ := idle_stays ih.1
      exact ⟨hs, hr.trans ih.2⟩

theorem after_remaining (h : (after i k).state ≠ .idle) : remaining (after i k) + k ≤ 66 := by
  induction k with
  | zero => simpa using remaining_le (after i 0)
  | succ k ih =>
      have hb : (after i k).state ≠ .idle := fun hi => h (idle_stays hi).1
      rcases step_of_busy hb .quiet with hd | ⟨-, hlt⟩
      · exact absurd (step_done_idle _ _ hd) h
      · have hlt' : remaining (after i (k + 1)) < remaining (after i k) := hlt
        have := ih hb
        omega

theorem remaining_pos (h : s.state ≠ .idle) : 0 < remaining s := by
  unfold remaining
  cases hs : s.state
  case idle => exact absurd hs h
  all_goals simp

theorem answer_of_done (h : (after i k).state ≠ .idle) (hd : (after i (k + 1)).done = true) :
    (after i (k + 1)).result = answer i := by
  have hle := after_remaining h
  have hpos := remaining_pos h
  have hidle : (after i (k + 1)).state = .idle := step_done_idle _ _ hd
  have hr := (after_idle hidle (66 - (k + 1))).2
  rw [show k + 1 + (66 - (k + 1)) = 66 by omega] at hr
  exact hr.symm

/-- The same but for the result of an earlier division. -/
def Alike (s s' : State) : Prop := { s with result := s'.result } = s'

theorem Alike.done (h : Alike s s') : s.done = s'.done := by rw [← h]

theorem Alike.state (h : Alike s s') : s.state = s'.state := by rw [← h]

theorem alike_step (h : Alike s s') (hb : s'.state ≠ .idle) :
    Alike (step s i) (step s' i) ∧ ((step s' i).done = true → (step s i).result = (step s' i).result) := by
  have hb' : s.state ≠ .idle := h.state ▸ hb
  unfold Alike at h ⊢
  rw [← h]
  cases hs : s.state
  case idle => exact absurd hs hb'
  case init =>
    cases hz : s.divByZero
    · cases ho : s.overflow <;> simp [step, hs, hz, ho]
    · simp [step, hs, hz]
  all_goals simp [step, hs, computeStep, State.rShift, State.rSub, State.rGe]

/-- A division of the operands of `i` is under way. -/
def Working (i : In) (s : State) : Prop := ∃ k, (after i k).state ≠ .idle ∧ Alike s (after i k)

theorem Working.busy (h : Working i s) : s.state ≠ .idle := by
  obtain ⟨k, hb, ha⟩ := h
  exact ha.state ▸ hb

theorem working_of_start (hs : s.state = .idle) (hi : i.start = true) : Working i (step s i) := by
  refine ⟨0, by simp [after, start], ?_⟩
  simp [Alike, after, step, hs, hi, start]

theorem working_step (h : Working i s) :
    ((step s j).done = true ∧ (step s j).result = answer i) ∨ ((step s j).done = false ∧ Working i (step s j)) := by
  obtain ⟨k, hb, ha⟩ := h
  have hs : s.state ≠ .idle := ha.state ▸ hb
  obtain ⟨halike, hres⟩ := alike_step (i := In.quiet) ha hb
  rw [step_ports hs (j := .quiet)]
  have hdone : (step s .quiet).done = (after i (k + 1)).done := halike.done
  cases hd : (after i (k + 1)).done
  · right
    refine ⟨hdone.trans hd, k + 1, ?_, halike⟩
    rcases step_of_busy hb .quiet with hd' | ⟨hbusy, -⟩
    · have hd₁ : (after i (k + 1)).done = true := hd'
      rw [hd] at hd₁
      simp at hd₁
    · exact hbusy
  · exact .inl ⟨hdone.trans hd, (hres hd).trans (answer_of_done hb hd)⟩

end QinglongCore.DivUnit
