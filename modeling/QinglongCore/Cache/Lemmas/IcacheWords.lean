import QinglongCore.Cache.Lemmas.IcacheSteps

/-!
# The words that the instruction cache shows

`P a x` says that the word `x` may be shown for address `a`. A cache that takes in only such words, without a
fault, comes to show only such words once its older lines are invalidated.
-/

namespace QinglongCore.Icache

open Cache

variable (P : Word → Word → Prop)

/-- What the fill in progress has taken in, or the one that has just ended. -/
structure Filled (c : State) : Prop where
  count : c.fsm = .fill → c.fillRspCnt < LINE_WORDS ∧ c.fillFault = false
  line : c.fsm = .fill → ∀ j : BitVec 4, j.toNat < c.fillRspCnt →
    P (lineWord (aTag c.savedAddr) (idx c) j) (c.arr.data c.victimWay (idx c) j)
  target : c.fsm = .fill → (aWoff c.savedAddr).toNat < c.fillRspCnt → P (wordAddr c.savedAddr) c.fillTarget
  done : c.fsm = .done → c.rspHit = false → c.fillFault = false ∧ P (wordAddr c.savedAddr) c.fillTarget

/-- The valid lines, but for the victim of the fill in progress. -/
def Lines (c : State) : Prop :=
  ∀ w n, (c.fsm = .fill → ¬ (w = c.victimWay ∧ n = idx c)) → c.arr.valid n w = true →
    ∀ j, P (lineWord (c.arr.tag w n) n j) (c.arr.data w n j)

/-- What the lookup in progress can hit, and the word that is answered. -/
structure Shows (c : State) : Prop where
  lookup : c.fsm = .lookup → ∀ w, c.rd.valid w = true → c.rd.tag w = aTag c.savedAddr →
    ∀ j, P (lineWord (aTag c.savedAddr) (idx c) j) (c.arr.data w (idx c) j)
  done : c.fsm = .done → P (wordAddr c.savedAddr) (coreRspData c)

variable {P} {c : State} {i : In}

section Fill

variable (h : Filled P c) (hs : c.fsm = .fill) (hok : i.memRspFault = false)
  (hb : i.memRspValid = true → P (beatAddr c.savedAddr c.fillRspCnt) i.memRspData)

include h hs hok

theorem Filled.faultD : fillFaultD c i = false := by simp [fillFaultD, (h.count hs).2, hok]

include hb

theorem Filled.line_next (j : BitVec 4) (hj : j.toNat < fillRspCntD c i) :
    P (lineWord (aTag c.savedAddr) (idx c) j) ((arrNext c i).data c.victimWay (idx c) j) := by
  cases hv : i.memRspValid
  · have hclean : cleanBeat c i = false := by simp [cleanBeat, hv]
    simp only [fillRspCntD, hv, Bool.and_false, Bool.false_eq_true, ↓reduceIte] at hj
    simp only [arrNext_data, hclean, Bool.false_eq_true, false_and, ↓reduceIte]
    exact h.line hs j hj
  · have hclean : cleanBeat c i = true := cleanBeat_of_no_fault hs hv (h.faultD hs hok)
    simp only [fillRspCntD, hs, hv, beq_self_eq_true, Bool.and_self, ↓reduceIte] at hj
    simp only [arrNext_data, hclean, true_and]
    by_cases hj' : j = BitVec.ofNat 4 c.fillRspCnt
    · rw [if_pos hj', hj']
      exact hb hv
    · rw [if_neg hj']
      refine h.line hs j ?_
      by_contra hge
      exact hj' (eq_ofNat_of_toNat (by omega))

theorem Filled.target_next (hj : (aWoff c.savedAddr).toNat < fillRspCntD c i) :
    P (wordAddr c.savedAddr) (step c i).fillTarget := by
  rw [step_fill hs]
  cases hv : i.memRspValid
  · have hclean : cleanBeat c i = false := by simp [cleanBeat, hv]
    simp only [fillRspCntD, hv, Bool.and_false, Bool.false_eq_true, ↓reduceIte] at hj
    simp only [hclean, Bool.false_and, Bool.false_eq_true, ↓reduceIte]
    exact h.target hs hj
  · have hclean : cleanBeat c i = true := cleanBeat_of_no_fault hs hv (h.faultD hs hok)
    simp only [fillRspCntD, hs, hv, beq_self_eq_true, Bool.and_self, ↓reduceIte] at hj
    simp only [hclean, Bool.true_and, beq_iff_eq]
    by_cases hw : BitVec.ofNat 4 c.fillRspCnt = aWoff c.savedAddr
    · rw [if_pos hw]
      have hbeat := hb hv
      unfold beatAddr at hbeat
      rw [hw] at hbeat
      exact hbeat
    · rw [if_neg hw]
      refine h.target hs ?_
      by_contra hge
      exact hw (eq_ofNat_of_toNat (by omega)).symm

end Fill

/-! ## One clock edge -/

variable (hok : i.memRspFault = false)
  (hb : c.fsm = .fill → i.memRspValid = true → P (beatAddr c.savedAddr c.fillRspCnt) i.memRspData)

include hok hb

theorem filled_step (h : Filled P c) : Filled P (step c i) := by
  cases hs : c.fsm with
  | idle =>
      cases hv : i.coreReqValid
      · rw [step_stay hs hv]
        constructor <;> simp [hs]
      · rw [step_accept hs hv]
        constructor <;> simp
  | lookup =>
      cases hw : hitWay c.rd c.savedAddr with
      | some w =>
          rw [step_hit hs hw]
          constructor <;> simp
      | none =>
          rw [step_miss hs hw]
          constructor <;> simp [LINE_WORDS]
  | fill =>
      have hf := h.faultD hs hok
      have hle : fillRspCntD c i ≤ LINE_WORDS := by
        have hlt := (h.count hs).1
        unfold fillRspCntD
        split <;> omega
      have hst := @step_fill c i hs
      cases he : fillEnds c i
      · have hlt : fillRspCntD c i < LINE_WORDS := by
          simp only [fillEnds, hs, beq_self_eq_true, Bool.true_and, beq_eq_false_iff_ne, ne_eq] at he
          omega
        have hfsm : (step c i).fsm = .fill := by rw [hst]; simp [he]
        refine ⟨fun _ => ?_, fun _ j hj => ?_, fun _ hj => ?_, fun hd => ?_⟩
        · rw [hst]; exact ⟨hlt, hf⟩
        · rw [hst] at hj ⊢
          exact h.line_next hs hok (hb hs) j hj
        · rw [hst] at hj
          have ht := h.target_next hs hok (hb hs) hj
          rw [hst] at ht ⊢
          exact ht
        · rw [hfsm] at hd; simp at hd
      · have hcnt : fillRspCntD c i = LINE_WORDS := by
          simpa [fillEnds, hs] using he
        have hfsm : (step c i).fsm = .done := by rw [hst]; simp [he]
        refine ⟨fun hd => ?_, fun hd => ?_, fun hd => ?_, fun _ _ => ?_⟩
        · rw [hfsm] at hd; simp at hd
        · rw [hfsm] at hd; simp at hd
        · rw [hfsm] at hd; simp at hd
        · have ht := h.target_next hs hok (hb hs) (by rw [hcnt]; exact toNat_lt _)
          rw [hst] at ht ⊢
          exact ⟨hf, ht⟩
  | done =>
      rw [step_done hs]
      constructor <;> simp

theorem lines_step (hf : Filled P c) (h : i.invalidate = false → Lines P c) : Lines P (step c i) := by
  intro w n hne hv j
  rw [step_arr] at hv ⊢
  rw [arrNext_valid] at hv
  by_cases hc : commits c i = true ∧ n = idx c ∧ w = c.victimWay
  · -- the line that the fill commits
    obtain ⟨hcm, rfl, rfl⟩ := hc
    have he : fillEnds c i = true := by
      simp only [commits, Bool.and_eq_true] at hcm
      exact hcm.1
    have hs : c.fsm = .fill := by
      simp only [fillEnds, Bool.and_eq_true, beq_iff_eq] at he
      exact he.1
    have hcnt : fillRspCntD c i = LINE_WORDS := by simpa [fillEnds, hs] using he
    rw [arrNext_tag, if_pos ⟨hcm, rfl, rfl⟩]
    exact hf.line_next hs hok (hb hs) j (by rw [hcnt]; exact toNat_lt j)
  · rw [if_neg hc, Bool.and_eq_true, Bool.not_eq_true'] at hv
    have hvict : c.fsm = .fill → ¬ (w = c.victimWay ∧ n = idx c) := by
      intro hs hwn
      cases he : fillEnds c i
      · have hst := @step_fill c i hs
        refine hne ?_ ?_
        · rw [hst]; simp [he]
        · rw [hst]; exact hwn
      · exact hc ⟨by simp [commits, he, hf.faultD hs hok], hwn.2, hwn.1⟩
    rw [arrNext_tag, if_neg fun h => hc ⟨h.1, h.2.2, h.2.1⟩, arrNext_data, if_neg]
    · exact h hv.1 w n hvict hv.2 j
    · rintro ⟨hcl, hw, hn, -⟩
      simp only [cleanBeat, Bool.and_eq_true, beq_iff_eq] at hcl
      exact hvict hcl.1.1 ⟨hw, hn⟩

theorem shows_step (hf : Filled P c) (hl : c.fsm = .idle → Lines P c) (h : Shows P c) : Shows P (step c i) := by
  cases hs : c.fsm with
  | idle =>
      have hne : c.fsm ≠ .fill := by rw [hs]; simp
      cases hv : i.coreReqValid
      · rw [step_stay hs hv]
        constructor <;> simp [hs]
      · rw [step_accept hs hv]
        refine ⟨fun _ w hval htag j => ?_, fun hd => by simp at hd⟩
        simp only [Arrays.read] at hval htag
        simp only [idx]
        rw [← htag, (arrNext_of_not_fill hne i).2.1]
        exact hl hs w _ (fun hfill => absurd hfill hne) hval j
  | lookup =>
      cases hw : hitWay c.rd c.savedAddr with
      | some w =>
          obtain ⟨hv, ht⟩ := hitWay_some hw
          rw [step_hit hs hw]
          refine ⟨fun hd => by simp at hd, fun _ => ?_⟩
          simp only [coreRspData, ↓reduceIte, Arrays.read]
          exact h.lookup hs w hv ht (aWoff c.savedAddr)
      | none =>
          rw [step_miss hs hw]
          constructor <;> simp
  | fill =>
      have hst := @step_fill c i hs
      cases he : fillEnds c i
      · have hfsm : (step c i).fsm = .fill := by rw [hst]; simp [he]
        constructor <;> simp [hfsm]
      · have hcnt : fillRspCntD c i = LINE_WORDS := by simpa [fillEnds, hs] using he
        have hfsm : (step c i).fsm = .done := by rw [hst]; simp [he]
        have ht := hf.target_next hs hok (hb hs) (by rw [hcnt]; exact toNat_lt _)
        refine ⟨fun hd => by rw [hfsm] at hd; simp at hd, fun _ => ?_⟩
        have hd : coreRspData (step c i) = (step c i).fillTarget := by rw [hst]; simp [coreRspData, he]
        have ha : (step c i).savedAddr = c.savedAddr := by rw [hst]
        rw [hd, ha]
        exact ht
  | done =>
      rw [step_done hs]
      constructor <;> simp

end QinglongCore.Icache
