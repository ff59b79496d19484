import Mathlib.Tactic.Common
import QinglongCore.Rtl.Cache

/-!
# Lines and hits
-/

namespace QinglongCore.Cache

variable {rd : ReadRegs} {a : Word} {w : Way}

theorem hitWay_some (h : hitWay rd a = some w) : rd.valid w = true ∧ rd.tag w = aTag a := by
  have hv : hitVec rd a w = true := by
    unfold hitWay at h
    split_ifs at h with h₃ h₂ h₁ h₀ <;> simp only [Option.some.injEq] at h <;> subst h <;> assumption
  simpa [hitVec] using hv

theorem hitWay_none (h : hitWay rd a = none) (w : Way) : ¬ (rd.valid w = true ∧ rd.tag w = aTag a) := by
  have hv : hitVec rd a w = false := by
    unfold hitWay at h
    split_ifs at h with h₃ h₂ h₁ h₀
    match w with
    | 0 => simpa using h₀
    | 1 => simpa using h₁
    | 2 => simpa using h₂
    | 3 => simpa using h₃
  intro hw
  simp [hitVec, hw.1, hw.2] at hv

/-! ## Addresses -/

section

variable (t : BitVec 20) (i : BitVec 6) (j : BitVec 4)

theorem aTag_lineWord : aTag (lineWord t i j) = t := by
  ext k hk
  simp only [aTag, lineWord, BitVec.getElem_extractLsb', BitVec.getLsbD_append]
  grind

theorem aIdx_lineWord : aIdx (lineWord t i j) = i := by
  ext k hk
  simp only [aIdx, lineWord, BitVec.getElem_extractLsb', BitVec.getLsbD_append]
  grind

theorem aWoff_lineWord : aWoff (lineWord t i j) = j := by
  ext k hk
  simp only [aWoff, lineWord, BitVec.getElem_extractLsb', BitVec.getLsbD_append]
  grind

end

/-- Different words of lines have different addresses. -/
theorem lineWord_inj {t t' : BitVec 20} {i i' : BitVec 6} {j j' : BitVec 4} (h : lineWord t i j = lineWord t' i' j') :
    t = t' ∧ i = i' ∧ j = j' := by
  refine ⟨?_, ?_, ?_⟩
  · rw [← aTag_lineWord t i j, h, aTag_lineWord]
  · rw [← aIdx_lineWord t i j, h, aIdx_lineWord]
  · rw [← aWoff_lineWord t i j, h, aWoff_lineWord]

/-- All words of a line are those of the memory. -/
def Holds (mem : Word → Word) (tag : BitVec 20) (idx : BitVec 6) (line : BitVec 4 → Word) : Prop :=
  ∀ j, line j = mem (lineWord tag idx j)

theorem ofNat_toNat (j : BitVec 4) : BitVec.ofNat 4 j.toNat = j := by simp

theorem eq_ofNat_of_toNat {j : BitVec 4} {n : Nat} (h : j.toNat = n) : j = BitVec.ofNat 4 n := by
  rw [← h, ofNat_toNat]

theorem toNat_lt (j : BitVec 4) : j.toNat < LINE_WORDS := j.isLt

/-! ## Beats -/

/-- The addresses of the beats from `n` up to `m`, the requests of a fill that are not answered. -/
def beats (a : Word) (n m : Nat) : List Word := (List.range' n (m - n)).map (beatAddr a)

theorem beats_self (n : Nat) : beats a n n = [] := by simp [beats]

theorem beats_succ {n m : Nat} (h : n ≤ m) : beats a n (m + 1) = beats a n m ++ [beatAddr a m] := by
  unfold beats
  rw [show m + 1 - n = m - n + 1 by omega, List.range'_concat, List.map_append]
  simp [show n + (m - n) = m by omega]

theorem beats_cons {n m : Nat} (h : n < m) : beats a n m = beatAddr a n :: beats a (n + 1) m := by
  unfold beats
  rw [show m - n = (m - (n + 1)) + 1 by omega, List.range'_succ]
  rfl

theorem lt_of_beats {n m : Nat} (h : beats a n m ≠ []) : n < m := by
  by_contra hn
  exact h (by simp [beats, show m - n = 0 by omega])

end QinglongCore.Cache
