import QinglongCore.Base.InOrder
import QinglongCore.Base.Sync
import QinglongCore.Cache.Lemmas.IcacheSteps

/-!
# Line integrity of the instruction cache

The cache over a constant memory that answers in order, with any latency, and may fault any beat. A faulted fill
leaves the tag of its victim in place and some of its words replaced.
-/

namespace QinglongCore.Icache

open Cache

/-! ## The cache over its memory -/

/-- What is free in a cycle: the core, the timing of the memory, and the word of a faulted beat. -/
structure Stim where
  reqValid : Bool
  reqAddr : Word
  invalidate : Bool
  memReady : Bool
  memAnswer : Bool
  memFault : Bool
  junk : Word

/-- The memory owes `pending`, the cache owes `owed`; `faulted` and `clean` are the beats answered for the
present request: whether one faulted, and the words that came in. -/
structure Sys where
  cache : State
  pending : List Word
  owed : List Word
  faulted : Bool
  clean : List (BitVec 4)

variable (mem : Word → Word)

namespace Sys

variable (s : Sys) (x : Stim)

def memTakes : Option Word := if memReqValid s.cache && x.memReady then some (memReqAddr s.cache) else none

def input : In where
  coreReqValid := x.reqValid
  coreReqAddr := x.reqAddr
  memReqReady := x.memReady
  memRspValid := x.memAnswer && !(s.pending ++ (s.memTakes x).toList).isEmpty
  memRspData := if x.memFault then x.junk else mem ((s.pending ++ (s.memTakes x).toList).headD 0)
  memRspFault := x.memFault
  invalidate := x.invalidate

def taken : Bool := x.reqValid && coreReqReady s.cache (s.input mem x)
def answered : Bool := coreRspValid s.cache

/-- The words that have come in, with that of this cycle. -/
def cleanNext : List (BitVec 4) :=
  if cleanBeat s.cache (s.input mem x) then s.clean ++ [BitVec.ofNat 4 s.cache.fillRspCnt] else s.clean

def next : Sys where
  cache := step s.cache (s.input mem x)
  pending := InOrder.serveNow s.pending (s.input mem x).memRspValid (s.memTakes x)
  owed := InOrder.serve s.owed s.answered (if s.taken mem x then some x.reqAddr else none)
  faulted := if s.taken mem x then false else s.faulted || ((s.input mem x).memRspValid && x.memFault)
  clean := if s.taken mem x then [] else s.cleanNext mem x

/-- A response goes to the one request that is owed, faults exactly if a beat of its fill has, and carries the
word at its address. -/
def Answers : Prop :=
  s.answered = true → ∃ a, s.owed = [a] ∧ coreRspFault s.cache = s.faulted ∧
    (s.faulted = false → coreRspData s.cache = mem (wordAddr a))

/-- Between fills every valid line holds the words of its address. -/
def Intact : Prop :=
  s.cache.fsm ≠ .fill → ∀ w i, s.cache.arr.valid i w = true →
    Holds mem (s.cache.arr.tag w i) i (s.cache.arr.data w i)

/-- A fill that ends with a fault has replaced no word of a line that stays valid by a different one. -/
def SparesVictim : Prop :=
  fillEnds s.cache (s.input mem x) = true → fillFaultD s.cache (s.input mem x) = true →
    s.cache.arr.valid (idx s.cache) s.cache.victimWay = true → x.invalidate = false →
      ∀ j ∈ s.cleanNext mem x, mem (lineWord (s.cache.arr.tag s.cache.victimWay (idx s.cache)) (idx s.cache) j) =
        mem (lineWord (aTag s.cache.savedAddr) (idx s.cache) j)

instance : Decidable (s.SparesVictim mem x) :=
  inferInstanceAs (Decidable (_ = true → _ = true → _ = true → _ = false → ∀ j ∈ _, mem _ = mem _))

end Sys

/-- The machine out of reset, with any contents in the arrays without reset. -/
def start (tag : Way → BitVec 6 → BitVec 20) (data : Way → BitVec 6 → BitVec 4 → Word) (rd : ReadRegs) : Sys :=
  ⟨reset tag data rd, [], [], false, []⟩

def run (s₀ : Sys) (stim : Nat → Stim) : Nat → Sys := Sync.run (Sys.next mem) s₀ stim

/-! ## Invariant -/

/-- What holds of the fill in progress. -/
structure Filling (s : Sys) : Prop where
  owed : s.owed = [s.cache.savedAddr]
  faulted : s.faulted = s.cache.fillFault
  counts : s.cache.fillRspCnt ≤ s.cache.fillReqCnt ∧ s.cache.fillReqCnt ≤ LINE_WORDS ∧
    s.cache.fillRspCnt < LINE_WORDS
  pending : s.pending = beats s.cache.savedAddr s.cache.fillRspCnt s.cache.fillReqCnt
  others : ∀ w i, ¬ (w = s.cache.victimWay ∧ i = idx s.cache) → s.cache.arr.valid i w = true →
    Holds mem (s.cache.arr.tag w i) i (s.cache.arr.data w i)
  victim : s.cache.arr.valid (idx s.cache) s.cache.victimWay = true → ∀ j,
    s.cache.arr.data s.cache.victimWay (idx s.cache) j =
        mem (lineWord (s.cache.arr.tag s.cache.victimWay (idx s.cache)) (idx s.cache) j) ∨
      j ∈ s.clean ∧ s.cache.arr.data s.cache.victimWay (idx s.cache) j =
        mem (lineWord (aTag s.cache.savedAddr) (idx s.cache) j)
  filled : s.cache.fillFault = false → ∀ j : BitVec 4, j.toNat < s.cache.fillRspCnt →
    s.cache.arr.data s.cache.victimWay (idx s.cache) j = mem (lineWord (aTag s.cache.savedAddr) (idx s.cache) j)
  target : s.cache.fillFault = false → (aWoff s.cache.savedAddr).toNat < s.cache.fillRspCnt →
    s.cache.fillTarget = mem (wordAddr s.cache.savedAddr)

/-- What holds of the machine outside a fill. -/
structure Settled (s : Sys) : Prop where
  pending : s.pending = []
  lines : ∀ w i, s.cache.arr.valid i w = true → Holds mem (s.cache.arr.tag w i) i (s.cache.arr.data w i)

/-- The line that a way has shown for the saved address is that of the address. -/
def Shown (s : Sys) : Prop :=
  ∀ w, s.cache.rd.valid w = true → s.cache.rd.tag w = aTag s.cache.savedAddr →
    Holds mem (aTag s.cache.savedAddr) (idx s.cache) (s.cache.arr.data w (idx s.cache))

def Inv (s : Sys) : Prop :=
  match s.cache.fsm with
  | .idle => Settled mem s ∧ s.owed = []
  | .lookup => Settled mem s ∧ s.owed = [s.cache.savedAddr] ∧ s.faulted = false ∧ s.clean = [] ∧ Shown mem s
  | .fill => Filling mem s
  | .done => Settled mem s ∧ s.owed = [s.cache.savedAddr] ∧
      s.faulted = (!s.cache.rspHit && s.cache.fillFault) ∧
      (s.faulted = false → coreRspData s.cache = mem (wordAddr s.cache.savedAddr))

variable {mem} {s : Sys} {x : Stim}

theorem memTakes_of_not_fill (h : s.cache.fsm ≠ .fill) : s.memTakes x = none := by
  simp [Sys.memTakes, memReqValid, h]

theorem Settled.no_answer (h : Settled mem s) (hf : s.cache.fsm ≠ .fill) : (s.input mem x).memRspValid = false := by
  simp [Sys.input, h.pending, memTakes_of_not_fill hf]

/-- Outside a fill the memory is not asked, and nothing is owed by it. -/
theorem Settled.pending_next (h : Settled mem s) (hf : s.cache.fsm ≠ .fill) : (s.next mem x).pending = [] := by
  unfold Sys.next
  simp [memTakes_of_not_fill hf, h.no_answer hf, h.pending, InOrder.serveNow]

theorem Settled.lines_next (h : Settled mem s) (hf : s.cache.fsm ≠ .fill) (i : In) (w : Way) (n : BitVec 6)
    (hv : (arrNext s.cache i).valid n w = true) :
    Holds mem ((arrNext s.cache i).tag w n) n ((arrNext s.cache i).data w n) := by
  obtain ⟨ht, hd, hval⟩ := arrNext_of_not_fill hf i
  rw [ht, hd]
  exact h.lines w n (hval n w hv)

theorem Settled.next (h : Settled mem s) (hf : s.cache.fsm ≠ .fill) : Settled mem (s.next mem x) := by
  refine ⟨h.pending_next hf, fun w n hv => ?_⟩
  have harr : (s.next mem x).cache.arr = arrNext s.cache (s.input mem x) := step_arr
  rw [harr] at hv ⊢
  exact h.lines_next hf _ w n hv

/-! ## One lemma for each state of the machine -/

theorem inv_idle (hq : x.invalidate = true → x.reqValid = false) (h : Inv mem s) (hs : s.cache.fsm = .idle) :
    Inv mem (s.next mem x) := by
  unfold Inv at h
  rw [hs] at h
  obtain ⟨hset, hown⟩ := h
  have hne : s.cache.fsm ≠ .fill := by rw [hs]; simp
  have hnext := hset.next (x := x) hne
  have hans : s.answered = false := by simp [Sys.answered, coreRspValid, hs]
  cases hv : x.reqValid
  · have hst : (s.next mem x).cache = _ := @step_stay s.cache (s.input mem x) hs hv
    unfold Inv
    rw [hst]
    simp only [hs]
    refine ⟨hnext, ?_⟩
    simp [Sys.next, Sys.taken, hv, hown, hans, InOrder.serve]
  · have hinv : x.invalidate = false := by
      cases hi : x.invalidate
      · rfl
      · rw [hq hi] at hv; simp at hv
    have htk : s.taken mem x = true := by simp [Sys.taken, coreReqReady, Sys.input, hs, hv, hinv]
    have hst : (s.next mem x).cache = _ := @step_accept s.cache (s.input mem x) hs hv
    have hshown : Shown mem (s.next mem x) := by
      unfold Shown idx
      rw [hst]
      intro w hval htag
      rw [← htag]
      simp only [(arrNext_of_not_fill hne _).2.1]
      exact hset.lines w _ hval
    unfold Inv
    rw [hst]
    refine ⟨hnext, ?_, ?_, ?_, hshown⟩
    · simp [Sys.next, htk, hown, hans, InOrder.serve, Sys.input]
    · simp [Sys.next, htk]
    · simp [Sys.next, htk]

theorem inv_lookup (h : Inv mem s) (hs : s.cache.fsm = .lookup) : Inv mem (s.next mem x) := by
  unfold Inv at h
  rw [hs] at h
  obtain ⟨hset, hown, hfault, hclean, hshown⟩ := h
  have hne : s.cache.fsm ≠ .fill := by rw [hs]; simp
  have hnext := hset.next (x := x) hne
  have hans : s.answered = false := by simp [Sys.answered, coreRspValid, hs]
  have htk : s.taken mem x = false := by simp [Sys.taken, coreReqReady, hs]
  have hown' : (s.next mem x).owed = [s.cache.savedAddr] := by simp [Sys.next, htk, hown, hans, InOrder.serve]
  have hfault' : (s.next mem x).faulted = false := by simp [Sys.next, htk, hfault, hset.no_answer hne]
  cases hw : hitWay s.cache.rd s.cache.savedAddr with
  | some w =>
      have hst : (s.next mem x).cache = _ := @step_hit s.cache (s.input mem x) w hs hw
      obtain ⟨hv, ht⟩ := hitWay_some hw
      unfold Inv
      rw [hst]
      refine ⟨hnext, hown', by simp [hfault'], fun _ => ?_⟩
      simp only [coreRspData, ↓reduceIte, Arrays.read]
      exact hshown w hv ht (aWoff s.cache.savedAddr)
  | none =>
      have hst : (s.next mem x).cache = _ := @step_miss s.cache (s.input mem x) hs hw
      have hclean' : (s.next mem x).clean = [] := by
        simp [Sys.next, htk, Sys.cleanNext, cleanBeat, hs, hclean]
      unfold Inv
      rw [hst]
      constructor
      · rw [hst]; exact hown'
      · rw [hst]; exact hfault'
      · rw [hst]; simp [LINE_WORDS]
      · rw [hst, hnext.pending]; exact (beats_self 0).symm
      · intro w n _ hv
        exact hnext.lines w n hv
      · intro hv j
        exact Or.inl (hnext.lines _ _ hv j)
      · rw [hst]
        intro _ j hj
        simp at hj
      · rw [hst]
        intro _ hj
        simp at hj

theorem inv_done (h : Inv mem s) (hs : s.cache.fsm = .done) : Inv mem (s.next mem x) := by
  unfold Inv at h
  rw [hs] at h
  obtain ⟨hset, hown, -, -⟩ := h
  have hne : s.cache.fsm ≠ .fill := by rw [hs]; simp
  have hst : (s.next mem x).cache = _ := @step_done s.cache (s.input mem x) hs
  have hans : s.answered = true := by simp [Sys.answered, coreRspValid, hs]
  have htk : s.taken mem x = false := by simp [Sys.taken, coreReqReady, hs]
  unfold Inv
  rw [hst]
  refine ⟨hset.next hne, ?_⟩
  simp [Sys.next, htk, hown, hans, InOrder.serve]

/-! ### The fill -/

section

variable (h : Filling mem s) (hs : s.cache.fsm = .fill)
include h hs

/-- What the memory may answer: the beats that it has taken, with that of this cycle. -/
theorem Filling.offered : s.cache.fillRspCnt ≤ (s.next mem x).cache.fillReqCnt ∧
    (s.next mem x).cache.fillReqCnt ≤ LINE_WORDS ∧
    s.pending ++ (s.memTakes x).toList =
      beats s.cache.savedAddr s.cache.fillRspCnt (s.next mem x).cache.fillReqCnt := by
  obtain ⟨h₁, h₂, -⟩ := h.counts
  have hst : (s.next mem x).cache = _ := @step_fill s.cache (s.input mem x) hs
  have hreq : (s.next mem x).cache.fillReqCnt =
      if memReqValid s.cache && x.memReady then s.cache.fillReqCnt + 1 else s.cache.fillReqCnt := by
    rw [hst]
    rfl
  unfold Sys.memTakes
  rw [hreq]
  cases htk : memReqValid s.cache && x.memReady
  · simp [h₁, h₂, h.pending]
  · simp only [memReqValid, hs, beq_self_eq_true, Bool.true_and, Bool.and_eq_true, decide_eq_true_eq] at htk
    simp only [↓reduceIte, Option.toList_some]
    refine ⟨by omega, by omega, ?_⟩
    rw [h.pending, beats_succ h₁]
    rfl

/-- A beat that is answered is the next one of the fill. -/
theorem Filling.beat (hv : (s.input mem x).memRspValid = true) :
    s.cache.fillRspCnt < (s.next mem x).cache.fillReqCnt ∧
      s.pending ++ (s.memTakes x).toList = beatAddr s.cache.savedAddr s.cache.fillRspCnt ::
        beats s.cache.savedAddr (s.cache.fillRspCnt + 1) (s.next mem x).cache.fillReqCnt := by
  obtain ⟨-, -, hoff⟩ := h.offered hs (x := x)
  have hne : beats s.cache.savedAddr s.cache.fillRspCnt (s.next mem x).cache.fillReqCnt ≠ [] := by
    intro hnil
    rw [hnil] at hoff
    simp [Sys.input, hoff] at hv
  have hlt := lt_of_beats hne
  exact ⟨hlt, hoff.trans (beats_cons hlt)⟩

/-- A clean beat carries its word. -/
theorem Filling.clean_word (hb : cleanBeat s.cache (s.input mem x) = true) :
    (s.input mem x).memRspData = mem (beatAddr s.cache.savedAddr s.cache.fillRspCnt) := by
  simp only [cleanBeat, Bool.and_eq_true, Bool.not_eq_true'] at hb
  have hf : x.memFault = false := hb.2
  simp [Sys.input, hf, (h.beat hs hb.1.2).2]

theorem Filling.counts_next : fillRspCntD s.cache (s.input mem x) ≤ (s.next mem x).cache.fillReqCnt ∧
    (s.next mem x).cache.fillReqCnt ≤ LINE_WORDS ∧
      (s.next mem x).pending =
        beats s.cache.savedAddr (fillRspCntD s.cache (s.input mem x)) (s.next mem x).cache.fillReqCnt := by
  obtain ⟨h₁, h₂, hoff⟩ := h.offered hs (x := x)
  have hpend : (s.next mem x).pending =
      InOrder.serveNow s.pending (s.input mem x).memRspValid (s.memTakes x) := rfl
  rw [hpend]
  unfold InOrder.serveNow
  cases hv : (s.input mem x).memRspValid
  · simp [fillRspCntD, hv, h₁, h₂, hoff]
  · obtain ⟨hlt, hq⟩ := h.beat hs hv
    simp only [fillRspCntD, hs, hv, beq_self_eq_true, Bool.and_self, ↓reduceIte, hq, List.tail_cons]
    exact ⟨hlt, h₂, trivial⟩

/-- A valid line in the victim way has kept a word or taken the one of a clean beat. -/
theorem Filling.victim_next (hv : s.cache.arr.valid (idx s.cache) s.cache.victimWay = true) (j : BitVec 4) :
    (arrNext s.cache (s.input mem x)).data s.cache.victimWay (idx s.cache) j =
        mem (lineWord (s.cache.arr.tag s.cache.victimWay (idx s.cache)) (idx s.cache) j) ∨
      j ∈ s.cleanNext mem x ∧ (arrNext s.cache (s.input mem x)).data s.cache.victimWay (idx s.cache) j =
        mem (lineWord (aTag s.cache.savedAddr) (idx s.cache) j) := by
  rw [arrNext_data]
  unfold Sys.cleanNext
  cases hb : cleanBeat s.cache (s.input mem x)
  · simpa using h.victim hv j
  · by_cases hj : j = BitVec.ofNat 4 s.cache.fillRspCnt
    · right
      rw [h.clean_word hs hb, hj]
      simp [beatAddr, idx]
    · rcases h.victim hv j with h₁ | ⟨h₁, h₂⟩
      · left
        simpa [hj] using h₁
      · right
        simp [hj, h₁, h₂]

/-- Without a fault the words below the count are those of the line that is filled. -/
theorem Filling.filled_next (hf : fillFaultD s.cache (s.input mem x) = false) (j : BitVec 4)
    (hj : j.toNat < fillRspCntD s.cache (s.input mem x)) :
    (arrNext s.cache (s.input mem x)).data s.cache.victimWay (idx s.cache) j =
      mem (lineWord (aTag s.cache.savedAddr) (idx s.cache) j) := by
  have hold : s.cache.fillFault = false := by
    simp only [fillFaultD, Bool.or_eq_false_iff] at hf
    exact hf.1
  rw [arrNext_data]
  by_cases hc : cleanBeat s.cache (s.input mem x) = true ∧ j = BitVec.ofNat 4 s.cache.fillRspCnt
  · rw [if_pos ⟨hc.1, rfl, rfl, hc.2⟩, h.clean_word hs hc.1, hc.2]
    rfl
  · rw [if_neg fun hc' => hc ⟨hc'.1, hc'.2.2.2⟩]
    refine h.filled hold j ?_
    unfold fillRspCntD at hj
    split at hj
    · next hv =>
        simp only [Bool.and_eq_true] at hv
        have hb := cleanBeat_of_no_fault hs hv.2 hf
        by_contra hge
        exact hc ⟨hb, eq_ofNat_of_toNat (by omega)⟩
    · exact hj

theorem Filling.target_next (hf : fillFaultD s.cache (s.input mem x) = false)
    (hj : (aWoff s.cache.savedAddr).toNat < fillRspCntD s.cache (s.input mem x)) :
    (s.next mem x).cache.fillTarget = mem (wordAddr s.cache.savedAddr) := by
  have hst : (s.next mem x).cache = _ := @step_fill s.cache (s.input mem x) hs
  have hold : s.cache.fillFault = false := by
    simp only [fillFaultD, Bool.or_eq_false_iff] at hf
    exact hf.1
  rw [hst]
  by_cases hc : cleanBeat s.cache (s.input mem x) = true ∧
      BitVec.ofNat 4 s.cache.fillRspCnt = aWoff s.cache.savedAddr
  · simp only [hc.1, hc.2, beq_self_eq_true, Bool.and_self, ↓reduceIte]
    rw [h.clean_word hs hc.1]
    unfold beatAddr wordAddr
    rw [hc.2]
  · have hcond : (cleanBeat s.cache (s.input mem x) &&
        BitVec.ofNat 4 s.cache.fillRspCnt == aWoff s.cache.savedAddr) = false := by
      cases hb : cleanBeat s.cache (s.input mem x)
      · rfl
      · simpa [hb] using hc
    simp only [hcond, Bool.false_eq_true, ↓reduceIte]
    refine h.target hold ?_
    unfold fillRspCntD at hj
    split at hj
    · next hv =>
        simp only [Bool.and_eq_true] at hv
        have hb := cleanBeat_of_no_fault hs hv.2 hf
        by_contra hge
        exact hc ⟨hb, (eq_ofNat_of_toNat (by omega)).symm⟩
    · exact hj

end

theorem inv_fill (hspare : s.SparesVictim mem x) (h : Inv mem s) (hs : s.cache.fsm = .fill) :
    Inv mem (s.next mem x) := by
  unfold Inv at h
  rw [hs] at h
  have h' : Filling mem s := h
  have hst : (s.next mem x).cache = _ := @step_fill s.cache (s.input mem x) hs
  have hans : s.answered = false := by simp [Sys.answered, coreRspValid, hs]
  have htk : s.taken mem x = false := by simp [Sys.taken, coreReqReady, hs]
  have hown : (s.next mem x).owed = [s.cache.savedAddr] := by
    simp [Sys.next, htk, h'.owed, hans, InOrder.serve]
  have hfault : (s.next mem x).faulted = fillFaultD s.cache (s.input mem x) := by
    have hin : (s.input mem x).memRspFault = x.memFault := rfl
    simp [Sys.next, htk, h'.faulted, fillFaultD, hs, hin]
  have hclean : (s.next mem x).clean = s.cleanNext mem x := by simp [Sys.next, htk]
  obtain ⟨hc₁, hc₂, hpend⟩ := h'.counts_next hs (x := x)
  have hothers : ∀ w n, ¬ (w = s.cache.victimWay ∧ n = idx s.cache) →
      (arrNext s.cache (s.input mem x)).valid n w = true →
        Holds mem ((arrNext s.cache (s.input mem x)).tag w n) n ((arrNext s.cache (s.input mem x)).data w n) := by
    intro w n hne hv j
    rw [arrNext_valid, if_neg fun hc => hne ⟨hc.2.2, hc.2.1⟩, Bool.and_eq_true] at hv
    rw [arrNext_tag, if_neg fun hc => hne hc.2, arrNext_data, if_neg fun hc => hne ⟨hc.2.1, hc.2.2.1⟩]
    exact h'.others w n hne hv.2 j
  cases he : fillEnds s.cache (s.input mem x)
  · have hcommit : commits s.cache (s.input mem x) = false := by simp [commits, he]
    have hfsm : (s.next mem x).cache.fsm = .fill := by rw [hst]; simp [he]
    have hcnt : fillRspCntD s.cache (s.input mem x) < LINE_WORDS := by
      simp only [fillEnds, hs, beq_self_eq_true, Bool.true_and, beq_eq_false_iff_ne, ne_eq] at he
      omega
    unfold Inv
    rw [hfsm]
    constructor
    · rw [hst]; exact hown
    · rw [hst]; exact hfault
    · exact ⟨by rw [hst] at hc₁ ⊢; exact hc₁, hc₂, by rw [hst]; exact hcnt⟩
    · rw [hpend, hst]
    · intro w n hne hv
      rw [hst] at hne hv ⊢
      exact hothers w n hne hv
    · intro hv j
      rw [hclean]
      rw [hst] at hv ⊢
      have hv' : (arrNext s.cache (s.input mem x)).valid (idx s.cache) s.cache.victimWay = true := hv
      rw [arrNext_valid] at hv'
      simp only [hcommit, Bool.false_eq_true, false_and, ↓reduceIte, Bool.and_eq_true] at hv'
      have hv₂ := h'.victim_next hs (x := x) hv'.2 j
      have htag : (arrNext s.cache (s.input mem x)).tag s.cache.victimWay (idx s.cache) =
          s.cache.arr.tag s.cache.victimWay (idx s.cache) := by simp [arrNext_tag, hcommit]
      rw [← htag] at hv₂
      exact hv₂
    · intro hf j hj
      rw [hst] at hf hj ⊢
      exact h'.filled_next hs hf j hj
    · intro hf hj
      have ht := h'.target_next (x := x) hs (by rw [hst] at hf; exact hf) (by rw [hst] at hj; exact hj)
      rw [ht, hst]
  · have hfsm : (s.next mem x).cache.fsm = .done := by rw [hst]; simp [he]
    have hcnt : fillRspCntD s.cache (s.input mem x) = LINE_WORDS := by
      simpa [fillEnds, hs] using he
    have hempty : (s.next mem x).pending = [] := by
      have hreq : (s.next mem x).cache.fillReqCnt = LINE_WORDS := by omega
      rw [hpend, hreq, hcnt, beats_self]
    unfold Inv
    rw [hfsm]
    refine ⟨⟨hempty, fun w n hv => ?_⟩, by rw [hst]; exact hown, ?_, fun hf => ?_⟩
    · rw [hst] at hv ⊢
      by_cases hvic : w = s.cache.victimWay ∧ n = idx s.cache
      · obtain ⟨rfl, rfl⟩ := hvic
        have hv' : (arrNext s.cache (s.input mem x)).valid (idx s.cache) s.cache.victimWay = true := hv
        intro j
        cases hff : fillFaultD s.cache (s.input mem x)
        · have hcommit : commits s.cache (s.input mem x) = true := by simp [commits, he, hff]
          have hword := h'.filled_next hs hff j (by rw [hcnt]; exact toNat_lt j)
          simp only
          rw [hword, arrNext_tag, if_pos ⟨hcommit, rfl, rfl⟩]
        · have hcommit : commits s.cache (s.input mem x) = false := by simp [commits, hff]
          rw [arrNext_valid] at hv'
          simp only [hcommit, Bool.false_eq_true, false_and, ↓reduceIte, Bool.and_eq_true, Bool.not_eq_true'] at hv'
          have hsp := hspare he hff hv'.2 hv'.1
          have htag : (arrNext s.cache (s.input mem x)).tag s.cache.victimWay (idx s.cache) =
              s.cache.arr.tag s.cache.victimWay (idx s.cache) := by simp [arrNext_tag, hcommit]
          simp only
          rw [htag]
          rcases h'.victim_next hs hv'.2 j with h₁ | ⟨h₁, h₂⟩
          · exact h₁
          · rw [h₂, hsp j h₁]
      · exact hothers w n hvic hv
    · rw [hfault, hst]
      simp [he]
    · rw [hfault] at hf
      have ht := h'.target_next hs hf (by rw [hcnt]; exact toNat_lt _)
      have hdata : coreRspData (s.next mem x).cache = (s.next mem x).cache.fillTarget := by
        rw [hst]
        simp [coreRspData, he]
      rw [hdata, ht, hst]

/-! ## Runs -/

variable {tag : Way → BitVec 6 → BitVec 20} {data : Way → BitVec 6 → BitVec 4 → Word} {rd : ReadRegs}
  {stim : Nat → Stim} {t T : Nat}

theorem inv_run (hq : ∀ t, (stim t).invalidate = true → (stim t).reqValid = false)
    (hspare : ∀ t < T, (run mem (start tag data rd) stim t).SparesVictim mem (stim t)) (ht : t ≤ T) :
    Inv mem (run mem (start tag data rd) stim t) := by
  induction t with
  | zero => exact ⟨⟨rfl, fun _ _ hv => by simp [run, start, reset, Arrays.reset] at hv⟩, rfl⟩
  | succ t ih =>
      have h := ih (by omega)
      cases hs : (run mem (start tag data rd) stim t).cache.fsm
      · exact inv_idle (hq t) h hs
      · exact inv_lookup h hs
      · exact inv_fill (hspare t (by omega)) h hs
      · exact inv_done h hs

theorem Inv.answers (h : Inv mem s) : s.Answers mem := by
  intro hans
  have hs : s.cache.fsm = .done := by simpa [Sys.answered, coreRspValid] using hans
  unfold Inv at h
  rw [hs] at h
  obtain ⟨-, hown, hf, hdata⟩ := h
  exact ⟨_, hown, by rw [hf]; simp [coreRspFault, hs], hdata⟩

theorem Inv.intact (h : Inv mem s) : s.Intact mem := by
  intro hne
  unfold Inv at h
  cases hs : s.cache.fsm <;> rw [hs] at h hne
  · exact h.1.lines
  · exact h.1.lines
  · exact absurd rfl hne
  · exact h.1.lines

/-- Over a constant memory, as long as no faulted fill damages a line that stays valid, every response is right and
every valid line whole. -/
theorem lines_intact (mem : Word → Word) (hq : ∀ t, (stim t).invalidate = true → (stim t).reqValid = false)
    (hspare : ∀ t < T, (run mem (start tag data rd) stim t).SparesVictim mem (stim t)) (ht : t ≤ T) :
    (run mem (start tag data rd) stim t).Answers mem ∧ (run mem (start tag data rd) stim t).Intact mem :=
  ⟨(inv_run hq hspare ht).answers, (inv_run hq hspare ht).intact⟩

/-! ## Faulted fills into an empty way and into a valid line -/

def start₀ : Sys := start (fun _ _ => 0) (fun _ _ _ => 0) ⟨fun _ => 0, fun _ => false, fun _ => 0⟩

/-- A memory in which each word is its own address. -/
def selfMem (a : Word) : Word := a

/-- A core that asks for `addr t` without pause, and a memory that answers at once and faults the beat of cycle `fault`. -/
def steadyStim (addr : Nat → Word) (fault t : Nat) : Stim := ⟨true, addr t, false, true, true, decide (t = fault), 0⟩

/-- The first fill of a line faults, the second one does not. -/
theorem lines_intact_refill :
    (run selfMem start₀ (steadyStim (fun _ => 0x80000004) 10) 37).Answers selfMem ∧
      (run selfMem start₀ (steadyStim (fun _ => 0x80000004) 10) 37).Intact selfMem := by
  have hq : ∀ t, (steadyStim (fun _ => 0x80000004) 10 t).invalidate = true →
      (steadyStim (fun _ => 0x80000004) 10 t).reqValid = false := fun _ h => by simp [steadyStim] at h
  have hspare : ∀ t < 40, (run selfMem start₀ (steadyStim (fun _ => 0x80000004) 10) t).SparesVictim selfMem
      (steadyStim (fun _ => 0x80000004) 10 t) := by
    decide +kernel
  exact lines_intact selfMem hq hspare (by decide)

/-- Three lines of a set, a hit that makes the first of them the victim, a fill that faults, and the first again. -/
def evictAddr (t : Nat) : Word :=
  if t < 19 then 0x80000000 else if t < 38 then 0x80001000 else if t < 57 then 0x80002000
  else if t < 60 then 0x80001000 else if t < 79 then 0x80003000 else 0x80000000

theorem not_lines_intact : ¬ ∀ (mem : Word → Word) (tag : Way → BitVec 6 → BitVec 20)
    (data : Way → BitVec 6 → BitVec 4 → Word) (rd : ReadRegs) (stim : Nat → Stim),
    (∀ t, (stim t).invalidate = true → (stim t).reqValid = false) →
      ∀ t, (run mem (start tag data rd) stim t).Answers mem := by
  intro h
  have h₁ : (run selfMem start₀ (steadyStim evictAddr 70) 81).Answers selfMem :=
    h selfMem _ _ _ (steadyStim evictAddr 70) (fun _ h => by simp [steadyStim] at h) 81
  obtain ⟨a, ha, -, hdata⟩ := h₁ (by decide +kernel)
  have hown : (run selfMem start₀ (steadyStim evictAddr 70) 81).owed = [0x80000000#32] := by decide +kernel
  rw [hown] at ha
  simp only [List.cons.injEq, and_true] at ha
  rw [← ha] at hdata
  exact absurd (hdata (by decide +kernel)) (by decide +kernel)

end QinglongCore.Icache
