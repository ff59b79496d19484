import QinglongCore.Base.Sync
import QinglongCore.Isa.Division
import QinglongCore.Isa.Machine

/-!
# The divider divides

The loop of `div_unit.sv` is the shift-subtract division of `BitVec.divSubtractShift` on the absolute values, one
bit a cycle. The signs are put back after it, and the two operand pairs that have no quotient are answered before it.
-/

namespace QinglongCore.DivUnit

open BitVec (DivModState DivModArgs divSubtractShift lawful_divSubtractShift)

/-! ## Statement -/

/-- The result that the M extension defines for the operands. -/
def In.value (i : In) : Word := Isa.division i.isSigned i.wantRem i.dividend i.divisor

/-- The cycles from the start to the pulse of `done`. -/
def latency (i : In) : Nat := if i.divByZero || i.overflow then 2 else 35

/-- The divider that was in state `s`, `k` cycles later. -/
def runFrom (s : State) (inp : Nat → In) : Nat → State := Sync.run step s inp

/-- The division started in cycle 0 pulses `done` in cycle `n` and not before, with the result of its operands. A
pulse after that belongs to a later start. -/
structure Pulses (s : State) (inp : Nat → In) (n : Nat) : Prop where
  busy : ∀ k, 0 < k → k < n → (runFrom s inp k).state ≠ .idle ∧ (runFrom s inp k).done = false
  done : (runFrom s inp n).done = true
  result : (runFrom s inp n).result = (inp 0).value
  idle : (runFrom s inp n).state = .idle
  once : ∀ m, n < m → (runFrom s inp m).done = true →
    ∃ k, n ≤ k ∧ k + 1 < m ∧ (runFrom s inp k).state = .idle ∧ (inp k).start = true

variable {s : State} {i j : In} {k : Nat}

/-! ## Absolute values -/

theorem dividendNeg_eq (i : In) : i.dividendNeg = Isa.negative i.isSigned i.dividend := rfl

theorem divisorNeg_eq (i : In) : i.divisorNeg = Isa.negative i.isSigned i.divisor := rfl

theorem dividendAbs_eq (i : In) : i.dividendAbs = Isa.absolute i.isSigned i.dividend := by
  unfold In.dividendAbs Isa.absolute
  rw [dividendNeg_eq, BitVec.neg_eq_not_add]
  rfl

theorem divisorAbs_eq (i : In) : i.divisorAbs = Isa.absolute i.isSigned i.divisor := by
  unfold In.divisorAbs Isa.absolute
  rw [divisorNeg_eq, BitVec.neg_eq_not_add]
  rfl

/-! ## One iteration -/

/-- The iterations have read the upper `k` bits of the dividend. -/
abbrev Lawful (i : In) (k : Nat) (s : State) : Prop :=
  DivModState.Lawful ⟨i.dividendAbs, i.divisorAbs⟩ ⟨32 - k, k, s.quotient, s.remainder⟩

theorem concat_eq (x : Word) (b : Bool) : x.extractLsb' 0 31 ++ BitVec.ofBool b = x.shiftConcat b := by
  show (x.extractLsb' 0 31).concat b = x.shiftConcat b
  ext n hn
  rw [BitVec.getElem_concat, BitVec.getElem_shiftConcat]
  cases n with
  | zero => rfl
  | succ n => simp [BitVec.getLsbD_eq_getElem (x := x) (i := n) (by omega)]

theorem shiftConcat_false (x : Word) : x.shiftConcat false = x <<< 1 := by
  ext n hn
  rw [BitVec.getElem_shiftConcat, BitVec.getElem_shiftLeft]
  cases n <;> simp

theorem topBit_eq (x : Word) : x.extractLsb' 31 1 = BitVec.ofBool (x.getLsbD 31) := by
  ext n hn
  obtain rfl : n = 0 := by omega
  simp

theorem rShift_eq (s : State) : s.rShift = s.remainder.concat (s.dividendAbs.getLsbD 31) := by
  unfold State.rShift
  rw [topBit_eq]
  rfl

theorem rShift_setWidth (s : State) : s.rShift.setWidth 32 = s.remainder.shiftConcat (s.dividendAbs.getLsbD 31) := by
  rw [rShift_eq]
  rfl

theorem rShift_toNat (s : State) : s.rShift.toNat = s.remainder.toNat * 2 + (s.dividendAbs.getLsbD 31).toNat := by
  rw [rShift_eq, BitVec.toNat_concat]

/-- Over a remainder of the divisor the 33-bit difference has no borrow exactly when the divisor fits. -/
theorem rGe_eq (h : s.remainder.toNat < s.divisorAbs.toNat) :
    s.rGe = decide (s.divisorAbs.toNat ≤ s.rShift.toNat) := by
  have hd := s.divisorAbs.isLt
  have hr := rShift_toNat s
  have hbit := Bool.toNat_lt (s.dividendAbs.getLsbD 31)
  have hsub : s.rSub.toNat = (2 ^ 33 - s.divisorAbs.toNat + s.rShift.toNat) % 2 ^ 33 := by
    rw [State.rSub, BitVec.toNat_sub, BitVec.toNat_setWidth, Nat.mod_eq_of_lt (Nat.lt_trans hd (by decide))]
  rw [State.rGe, BitVec.msb_eq_decide, hsub, ← decide_not, decide_eq_decide]
  omega

theorem rSub_setWidth (s : State) : s.rSub.setWidth 32 = s.rShift.setWidth 32 - s.divisorAbs := by
  have hd := s.divisorAbs.isLt
  apply BitVec.eq_of_toNat_eq
  simp only [State.rSub, BitVec.toNat_setWidth, BitVec.toNat_sub]
  omega

/-- The bit that is shifted in when `k` bits of the dividend have been read. -/
theorem getLsbD_shifted (x : Word) (hk : k < 32) : (x <<< k).getLsbD 31 = x.getLsbD (31 - k) := by
  have hle : ¬ 31 < k := by omega
  rw [BitVec.getLsbD_shiftLeft]
  simp [hle]

/-- An iteration is a step of the shift-subtract division. -/
theorem lawful_computeStep (h : Lawful i k s) (hd : s.divisorAbs = i.divisorAbs)
    (hn : s.dividendAbs = i.dividendAbs <<< k) (hk : k < 32) : Lawful i (k + 1) (computeStep s) := by
  have hnext := lawful_divSubtractShift _ ⟨h, show 0 < 32 - k by omega⟩
  have hlt : s.remainder.toNat < s.divisorAbs.toNat := hd ▸ h.hrLtDivisor
  have hbit : i.dividendAbs.getLsbD (32 - k - 1) = s.dividendAbs.getLsbD 31 := by
    rw [hn, getLsbD_shifted _ hk, show 32 - k - 1 = 31 - k by omega]
  have hshift : s.rShift.setWidth 32 = s.remainder.shiftConcat (i.dividendAbs.getLsbD (32 - k - 1)) := by
    rw [rShift_setWidth, hbit]
  have hwide : (s.rShift.setWidth 32).toNat = s.rShift.toNat := by
    rw [rShift_setWidth, rShift_toNat, BitVec.toNat_shiftConcat_eq_of_lt hk h.hrWidth]
  have hge : s.rShift.setWidth 32 < i.divisorAbs ↔ s.rGe = false := by
    rw [rGe_eq hlt, decide_eq_false_iff_not, BitVec.lt_def, hwide, hd]
    omega
  have hstep : divSubtractShift ⟨i.dividendAbs, i.divisorAbs⟩ ⟨32 - k, k, s.quotient, s.remainder⟩ =
      ⟨32 - (k + 1), k + 1, (computeStep s).quotient, (computeStep s).remainder⟩ := by
    simp only [divSubtractShift, ← hshift, computeStep, concat_eq, rSub_setWidth, hd]
    cases hg : s.rGe
    · rw [if_pos (hge.mpr hg)]
      rfl
    · rw [if_neg (by rw [hge, hg]; simp)]
      rfl
  rwa [hstep] at hnext

/-! ## The states of one division -/

/-- What the start has latched for the end. -/
structure Latched (i : In) (s : State) : Prop where
  rem : s.rem = i.wantRem
  negQ : s.negQ = (i.dividendNeg ^^ i.divisorNeg)
  negR : s.negR = i.dividendNeg
  divisorAbs : s.divisorAbs = i.divisorAbs

/-- S_COMPUTE after `k` iterations. -/
structure Computes (i : In) (k : Nat) (s : State) : Prop extends Latched i s where
  state : s.state = .compute
  done : s.done = false
  iter : s.iter = BitVec.ofNat 6 k
  dividendAbs : s.dividendAbs = i.dividendAbs <<< k
  lawful : Lawful i k s

structure Fixes (i : In) (s : State) : Prop extends Latched i s where
  state : s.state = .fixup
  done : s.done = false
  lawful : Lawful i 32 s

/-- The divider has answered. -/
structure Answers (i : In) (s : State) : Prop where
  done : s.done = true
  result : s.result = i.value
  idle : s.state = .idle

/-! ### S_INIT -/

theorem step_start (hs : s.state = .idle) (hi : i.start = true) : step s i = start s i := by
  simp [step, hs, hi]

theorem unsigned_abs (i : In) : (if i.dividendNeg then ~~~i.dividendAbs + 1 else i.dividendAbs) = i.dividend := by
  unfold In.dividendAbs
  split
  · exact (BitVec.neg_eq_not_add _).symm.trans ((congrArg _ (BitVec.neg_eq_not_add _).symm).trans (BitVec.neg_neg))
  · rfl

theorem answers_by_zero (h : i.divByZero = true) : Answers i (step (start s i) j) := by
  have hz : i.divisor = 0#32 := by simpa [In.divByZero] using h
  have hst : step (start s i) j = { start s i with
      result := if i.wantRem then (if i.dividendNeg then ~~~i.dividendAbs + 1 else i.dividendAbs) else 0xFFFFFFFF#32
      done := true
      state := .idle } := by
    simp [step, start, h]
  refine ⟨by rw [hst], ?_, by rw [hst]⟩
  rw [hst, unsigned_abs]
  simp [In.value, Isa.division, Isa.quotient, Isa.remainder, hz]

theorem answers_overflow (h : i.overflow = true) : Answers i (step (start s i) j) := by
  have ho := h
  simp only [In.overflow, Bool.and_eq_true, beq_iff_eq] at ho
  obtain ⟨⟨hsigned, hx⟩, hy⟩ := ho
  have hz : i.divByZero = false := by simp [In.divByZero, hy]
  have hst : step (start s i) j = { start s i with
      result := if i.wantRem then 0#32 else 0x80000000#32
      done := true
      state := .idle } := by
    simp [step, start, h, hz]
  refine ⟨by rw [hst], ?_, by rw [hst]⟩
  rw [hst]
  simp [In.value, Isa.division, Isa.quotient, Isa.remainder, hsigned, hx, hy]

theorem pos_iff (x : Word) : 0#32 < x ↔ x ≠ 0#32 := by
  rw [BitVec.lt_def, Ne, ← BitVec.toNat_inj]
  exact Nat.pos_iff_ne_zero

theorem divisorAbs_pos (h : i.divByZero = false) : 0#32 < i.divisorAbs := by
  rw [pos_iff, divisorAbs_eq, Ne, Isa.absolute_eq_zero]
  simpa [In.divByZero] using h

theorem computes_init (hz : i.divByZero = false) (ho : i.overflow = false) :
    Computes i 0 (step (start s i) j) := by
  have hst : step (start s i) j = { start s i with done := false, state := .compute } := by
    simp [step, start, hz, ho]
  rw [hst]
  exact {
    rem := rfl
    negQ := rfl
    negR := rfl
    divisorAbs := rfl
    state := rfl
    done := rfl
    iter := rfl
    dividendAbs := (BitVec.shiftLeft_zero _).symm
    lawful := DivModState.lawful_init _ (divisorAbs_pos hz) }

/-! ### S_COMPUTE and S_FIXUP -/

theorem Latched.computeStep (h : Latched i s) : Latched i (computeStep s) := ⟨h.rem, h.negQ, h.negR, h.divisorAbs⟩

theorem Computes.step_eq (h : Computes i k s) : step s j = DivUnit.computeStep s := by simp [step, h.state]

theorem Computes.next (h : Computes i k s) (hk : k < 31) : Computes i (k + 1) (step s j) := by
  have hne : s.iter ≠ 31#6 := by
    rw [h.iter]
    bv_omega
  rw [h.step_eq]
  exact {
    h.toLatched.computeStep with
    state := by simp [DivUnit.computeStep, hne]
    done := rfl
    iter := by
      show s.iter + 1 = _
      rw [h.iter, BitVec.ofNat_add]
      rfl
    dividendAbs := by
      show s.dividendAbs.extractLsb' 0 31 ++ BitVec.ofBool false = _
      rw [concat_eq, h.dividendAbs, shiftConcat_false, BitVec.shiftLeft_add]
    lawful := lawful_computeStep h.lawful h.divisorAbs h.dividendAbs (by omega) }

theorem Computes.last (h : Computes i 31 s) : Fixes i (step s j) := by
  have hlast : s.iter = 31#6 := h.iter
  rw [h.step_eq]
  exact {
    h.toLatched.computeStep with
    state := by simp [DivUnit.computeStep, hlast]
    done := rfl
    lawful := lawful_computeStep h.lawful h.divisorAbs h.dividendAbs (by omega) }

theorem Fixes.answers (h : Fixes i s) : Answers i (step s j) := by
  have hst : step s j = { s with
      result := if s.rem then (if s.negR then ~~~s.remainder + 1 else s.remainder)
        else (if s.negQ then ~~~s.quotient + 1 else s.quotient)
      done := true
      state := .idle } := by
    simp [step, h.state]
  have hq : s.quotient = i.dividendAbs / i.divisorAbs := (DivModState.udiv_eq_of_lawful h.lawful rfl).symm
  have hr : s.remainder = i.dividendAbs % i.divisorAbs := (DivModState.umod_eq_of_lawful h.lawful rfl).symm
  have hne : i.divisor ≠ 0#32 := by
    have hpos : 0#32 < i.divisorAbs := h.lawful.hdPos
    rwa [pos_iff, divisorAbs_eq, Ne, Isa.absolute_eq_zero] at hpos
  refine ⟨by rw [hst], ?_, by rw [hst]⟩
  rw [hst]
  show (if s.rem then (if s.negR then ~~~s.remainder + 1#32 else s.remainder)
    else (if s.negQ then ~~~s.quotient + 1#32 else s.quotient)) = _
  rw [h.rem, h.negQ, h.negR, hq, hr, dividendAbs_eq, divisorAbs_eq, dividendNeg_eq, divisorNeg_eq,
    ← BitVec.neg_eq_not_add, ← BitVec.neg_eq_not_add, In.value, Isa.division, Isa.remainder_eq _ hne,
    Isa.quotient_eq _ hne]

/-! ## Runs -/

section

variable {inp : Nat → In}

theorem runFrom_succ (s : State) (inp : Nat → In) (k : Nat) :
    runFrom s inp (k + 1) = step (runFrom s inp k) (inp k) := rfl

theorem runFrom_one (hs : s.state = .idle) (h : (inp 0).start = true) : runFrom s inp 1 = start s (inp 0) :=
  step_start hs h

theorem runFrom_two (hs : s.state = .idle) (h : (inp 0).start = true) :
    runFrom s inp 2 = step (start s (inp 0)) (inp 1) := by
  rw [runFrom_succ, runFrom_one hs h]

theorem computes_run (hs : s.state = .idle) (h : (inp 0).start = true) (hz : (inp 0).divByZero = false)
    (ho : (inp 0).overflow = false) (hk : k ≤ 31) : Computes (inp 0) k (runFrom s inp (k + 2)) := by
  induction k with
  | zero =>
    rw [runFrom_two hs h]
    exact computes_init hz ho
  | succ k ih => exact (ih (by omega)).next (by omega)

theorem done_of_idle (hs : s.state = .idle) : (step s i).done = false := by
  cases hi : i.start <;> simp [step, hs, hi, start]

/-- Without a start the divider stays idle. -/
theorem idle_run {n u : Nat} (hn : n ≤ u) (hs : (runFrom s inp n).state = .idle)
    (hno : ∀ k, n ≤ k → k < u → (runFrom s inp k).state = .idle → (inp k).start = false) :
    (runFrom s inp u).state = .idle := by
  induction u, hn using Nat.le_induction with
  | base => exact hs
  | succ u hn ih =>
    have hu : (runFrom s inp u).state = .idle := ih fun k hk hlt => hno k hk (by omega)
    exact (step_of_idle hu (hno u hn (by omega) hu)).1

/-- From an idle divider on, a pulse needs a start. -/
theorem start_of_done {n m : Nat} (hs : (runFrom s inp n).state = .idle) (hm : n < m)
    (hd : (runFrom s inp m).done = true) :
    ∃ k, n ≤ k ∧ k + 1 < m ∧ (runFrom s inp k).state = .idle ∧ (inp k).start = true := by
  obtain ⟨u, rfl⟩ : ∃ u, m = u + 1 := ⟨m - 1, by omega⟩
  by_contra hno
  have hu : (runFrom s inp u).state = .idle := by
    refine idle_run (by omega) hs fun k hk hlt hidle => ?_
    cases hst : (inp k).start
    · rfl
    · exact absurd ⟨k, hk, by omega, hidle, hst⟩ hno
  rw [runFrom_succ, done_of_idle hu] at hd
  simp at hd

theorem pulses_of_answers {n : Nat} (ha : Answers (inp 0) (runFrom s inp n))
    (hb : ∀ k, 0 < k → k < n → (runFrom s inp k).state ≠ .idle ∧ (runFrom s inp k).done = false) :
    Pulses s inp n :=
  ⟨hb, ha.done, ha.result, ha.idle, fun _ hm hd => start_of_done ha.idle hm hd⟩

theorem pulses_latency (hs : s.state = .idle) (h : (inp 0).start = true) : Pulses s inp (latency (inp 0)) := by
  have hinit : (runFrom s inp 1).state ≠ .idle ∧ (runFrom s inp 1).done = false := by
    rw [runFrom_one hs h]
    simp [start]
  by_cases hshort : ((inp 0).divByZero || (inp 0).overflow) = true
  · have hl : latency (inp 0) = 2 := by simp [latency, hshort]
    rw [hl]
    refine pulses_of_answers ?_ fun k hk hlt => ?_
    · rw [runFrom_two hs h]
      rcases Bool.or_eq_true .. ▸ hshort with hz | ho
      · exact answers_by_zero hz
      · exact answers_overflow ho
    · obtain rfl : k = 1 := by omega
      exact hinit
  · have hl : latency (inp 0) = 35 := by simp [latency, hshort]
    simp only [Bool.not_eq_true, Bool.or_eq_false_iff] at hshort
    obtain ⟨hz, ho⟩ := hshort
    have hfix : Fixes (inp 0) (runFrom s inp 34) := (computes_run hs h hz ho (Nat.le_refl 31)).last
    rw [hl]
    refine pulses_of_answers hfix.answers fun k hk hlt => ?_
    have hcases : k = 1 ∨ k = 34 ∨ (k = k - 2 + 2 ∧ k - 2 ≤ 31) := by omega
    rcases hcases with rfl | rfl | ⟨hk₂, hle⟩
    · exact hinit
    · exact ⟨by simp [hfix.state], hfix.done⟩
    · have hc := computes_run hs h hz ho hle
      rw [← hk₂] at hc
      exact ⟨by simp [hc.state], hc.done⟩

/-- A start in S_IDLE is answered by one pulse after at most 35 cycles, with the result that the M extension defines. -/
theorem start_pulses (s : State) (inp : Nat → In) (hs : s.state = .idle) (h : (inp 0).start = true) :
    latency (inp 0) ≤ 35 ∧ Pulses s inp (latency (inp 0)) := by
  refine ⟨?_, pulses_latency hs h⟩
  unfold latency
  split <;> decide

end

/-- A signed division of -7 by 2 out of reset. -/
theorem start_pulses_neg :
    latency ⟨true, true, false, -7, 2⟩ ≤ 35 ∧
      Pulses reset (fun _ => ⟨true, true, false, -7, 2⟩) (latency ⟨true, true, false, -7, 2⟩) :=
  start_pulses reset (fun _ => ⟨true, true, false, -7, 2⟩) rfl rfl

/-! ## The answer of a division -/

theorem after_eq (hi : i.start = true) (k : Nat) :
    after i k = runFrom reset (fun n => if n = 0 then i else .quiet) (k + 1) := by
  induction k with
  | zero => exact (step_start (s := reset) rfl hi).symm
  | succ k ih =>
    rw [runFrom_succ, ← ih]
    rfl

/-- The answer to the operands is their result. -/
theorem answer_eq (hi : i.start = true) : answer i = i.value := by
  obtain ⟨n, hn⟩ : ∃ n, latency i = n + 2 := by
    cases hshort : i.divByZero || i.overflow
    · exact ⟨33, by simp [latency, hshort]⟩
    · exact ⟨0, by simp [latency, hshort]⟩
  have hp : Pulses reset (fun n => if n = 0 then i else .quiet) (latency i) := pulses_latency rfl hi
  rw [hn] at hp
  have hbusy : (after i n).state ≠ .idle := by
    rw [after_eq hi]
    exact (hp.busy (n + 1) (by omega) (by omega)).1
  have hdone : (after i (n + 1)).done = true := by
    rw [after_eq hi]
    exact hp.done
  rw [← answer_of_done hbusy hdone, after_eq hi]
  exact hp.result

end QinglongCore.DivUnit

namespace QinglongCore.Isa

/-- DIV, DIVU, REM and REMU in the machine of the instruction set. -/
theorem arith_of_isDiv {w : Word} (h : Decode.isDiv w = true) (pc a b : Word) :
    arith w pc a b = division (!(funct3 w).getLsbD 0) ((funct3 w).getLsbD 1) a b := by
  rw [arith, if_pos h]
  exact DivUnit.answer_eq rfl

end QinglongCore.Isa
