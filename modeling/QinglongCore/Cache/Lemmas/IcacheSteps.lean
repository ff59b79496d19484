import QinglongCore.Cache.Lemmas.Arrays
import QinglongCore.Rtl.Icache

/-!
# What one clock edge does to the instruction cache
-/

namespace QinglongCore.Icache

open Cache

variable {c : State} {i : In} {w : Way}

theorem step_accept (hs : c.fsm = .idle) (hv : i.coreReqValid = true) : step c i =
    { c with
      fsm := .lookup, savedAddr := i.coreReqAddr, arr := arrNext c i
      rd := c.arr.read (aIdx i.coreReqAddr) (aWoff i.coreReqAddr) } := by
  simp [step, hs, acceptReq, hv, readNext]

theorem step_stay (hs : c.fsm = .idle) (hv : i.coreReqValid = false) :
    step c i = { c with arr := arrNext c i, rd := readNext c i } := by
  simp [step, hs, acceptReq, hv]

theorem step_hit (hs : c.fsm = .lookup) (hw : hitWay c.rd c.savedAddr = some w) : step c i =
    { c with
      fsm := .done, rspHit := true, rspWay := w, arr := arrNext c i
      rd := c.arr.read (idx c) (aWoff c.savedAddr) } := by
  simp [step, hs, hw, readNext, acceptReq]

theorem step_miss (hs : c.fsm = .lookup) (hw : hitWay c.rd c.savedAddr = none) : step c i =
    { c with
      fsm := .fill, victimWay := plruPick (c.arr.plru (idx c)), fillReqCnt := 0, fillRspCnt := 0
      fillFault := false, arr := arrNext c i, rd := readNext c i } := by
  simp [step, hs, hw]

theorem step_fill (hs : c.fsm = .fill) : step c i =
    { c with
      fsm := if fillEnds c i then .done else .fill
      rspHit := if fillEnds c i then false else c.rspHit
      rspWay := if fillEnds c i then c.victimWay else c.rspWay
      fillReqCnt := if memReqValid c && i.memReqReady then c.fillReqCnt + 1 else c.fillReqCnt
      fillRspCnt := fillRspCntD c i
      fillFault := fillFaultD c i
      fillTarget :=
        if cleanBeat c i && BitVec.ofNat 4 c.fillRspCnt == aWoff c.savedAddr then i.memRspData else c.fillTarget
      arr := arrNext c i
      rd := readNext c i } := by
  cases he : fillEnds c i <;> simp [step, hs, he]

theorem step_done (hs : c.fsm = .done) : step c i = { c with fsm := .idle, arr := arrNext c i, rd := readNext c i } := by
  simp [step, hs]

/-- A beat of a fill without a fault carries a word. -/
theorem cleanBeat_of_no_fault (hs : c.fsm = .fill) (hv : i.memRspValid = true) (hf : fillFaultD c i = false) :
    cleanBeat c i = true := by
  simp only [fillFaultD, Bool.or_eq_false_iff] at hf
  have hff := hf.2
  simp only [hs, hv, beq_self_eq_true, Bool.true_and] at hff
  simp [cleanBeat, hs, hv, hff]

theorem arrNext_tag (w : Way) (n : BitVec 6) : (arrNext c i).tag w n =
    if commits c i = true ∧ w = c.victimWay ∧ n = idx c then aTag c.savedAddr else c.arr.tag w n := by
  unfold arrNext
  cases commits c i <;> cases cleanBeat c i <;> cases i.invalidate <;> cases c.fsm <;>
    cases hitWay c.rd c.savedAddr <;>
    simp [Arrays.setTag, Arrays.setValid, Arrays.setData, Arrays.touch, Arrays.clearValid]

theorem arrNext_valid (n : BitVec 6) (w : Way) : (arrNext c i).valid n w =
    if commits c i = true ∧ n = idx c ∧ w = c.victimWay then true else !i.invalidate && c.arr.valid n w := by
  unfold arrNext
  cases commits c i <;> cases cleanBeat c i <;> cases i.invalidate <;> cases c.fsm <;>
    cases hitWay c.rd c.savedAddr <;>
    simp [Arrays.setTag, Arrays.setValid, Arrays.setData, Arrays.touch, Arrays.clearValid]

theorem arrNext_data (w : Way) (n : BitVec 6) (j : BitVec 4) : (arrNext c i).data w n j =
    if cleanBeat c i = true ∧ w = c.victimWay ∧ n = idx c ∧ j = BitVec.ofNat 4 c.fillRspCnt then i.memRspData
    else c.arr.data w n j := by
  unfold arrNext
  cases commits c i <;> cases cleanBeat c i <;> cases i.invalidate <;> cases c.fsm <;>
    cases hitWay c.rd c.savedAddr <;>
    simp [Arrays.setTag, Arrays.setValid, Arrays.setData, Arrays.touch, Arrays.clearValid]

theorem step_arr : (step c i).arr = arrNext c i := by
  unfold step
  cases c.fsm <;> simp only <;> try split
  all_goals rfl

/-- Outside a fill the arrays lose valid bits at most. -/
theorem arrNext_of_not_fill (h : c.fsm ≠ .fill) (i : In) :
    (arrNext c i).tag = c.arr.tag ∧ (arrNext c i).data = c.arr.data ∧
      ∀ n w, (arrNext c i).valid n w = true → c.arr.valid n w = true := by
  have hc : commits c i = false := by simp [commits, fillEnds, h]
  have hb : cleanBeat c i = false := by simp [cleanBeat, h]
  refine ⟨?_, ?_, fun n w hv => ?_⟩
  · funext w n
    simp [arrNext_tag, hc]
  · funext w n j
    simp [arrNext_data, hb]
  · simp only [arrNext_valid, hc, Bool.false_eq_true, false_and, ↓reduceIte, Bool.and_eq_true] at hv
    exact hv.2

end QinglongCore.Icache
