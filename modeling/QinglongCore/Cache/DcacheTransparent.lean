import QinglongCore.Base.InOrder
import QinglongCore.Base.Sync
import QinglongCore.Cache.Lemmas.Arrays
import QinglongCore.Isa.StoreLog
import QinglongCore.Rtl.Dcache

/-!
# Transparency of the data cache

The cache over a memory that nobody else writes and that answers in order, with any latency. A store is performed
when the memory takes it, so the memory is the sequence of the stores it has taken.
-/

namespace QinglongCore.Dcache

open Cache Isa

/-- The store of a write request. -/
def CoreReq.store (r : CoreReq) : Store := ⟨wordAddr r.addr, r.wdata, r.wmask⟩

/-- The stores taken when `r` follows those of `log`. -/
def CoreReq.extend (r : CoreReq) (log : List Store) : List Store := if r.wen then r.store :: log else log

/-! ## The cache over its memory -/

/-- What is free in a cycle: the core, the timing of the memory, and the word it answers a store with. -/
structure Stim where
  reqValid : Bool
  req : CoreReq
  memReady : Bool
  memAnswer : Bool
  junk : Word

/-- The memory owes the words `pending` and has taken `writes`; the cache has taken `stores` and owes an answer to
each of `owed`, a request with the stores that were taken before it. Logs start with the newest store. -/
structure Sys where
  cache : State
  pending : List Word
  writes : List Store
  stores : List Store
  owed : List (CoreReq × List Store)

variable (mem₀ : Word → Word)

namespace Sys

variable (s : Sys) (x : Stim)

def mem : Word → Word := written mem₀ s.writes

def memTakes : Bool := (memReq s.cache).valid && x.memReady

/-- The answer to the request that the memory takes. -/
def reply : Option Word :=
  if s.memTakes x then
    some (if (memReq s.cache).wen then x.junk else s.mem mem₀ (memReq s.cache).addr)
  else none

def input : In where
  coreReqValid := x.reqValid
  coreReq := x.req
  memReqReady := x.memReady
  memRspValid := x.memAnswer && !(s.pending ++ (s.reply mem₀ x).toList).isEmpty
  memRspRdata := (s.pending ++ (s.reply mem₀ x).toList).headD x.junk

def taken : Bool := x.reqValid && coreReqReady s.cache
def answered : Bool := coreRspValid s.cache

def next : Sys where
  cache := step s.cache (s.input mem₀ x)
  pending := InOrder.serveNow s.pending (s.input mem₀ x).memRspValid (s.reply mem₀ x)
  writes :=
    if s.memTakes x && (memReq s.cache).wen then
      ⟨(memReq s.cache).addr, (memReq s.cache).wdata, (memReq s.cache).wmask⟩ :: s.writes
    else s.writes
  stores := if s.taken x then x.req.extend s.stores else s.stores
  owed := InOrder.serve s.owed s.answered (if s.taken x then some (x.req, s.stores) else none)

/-- A response goes to the one request that is owed, without a fault, when the memory has all stores, and a read
returns in each byte the newest value stored before it. -/
def Answers : Prop :=
  s.answered = true → ∃ r log, s.owed = [(r, log)] ∧ coreRspFault s.cache = false ∧ s.writes = s.stores ∧
    (r.wen = false → ∀ b, byteOf (coreRspRdata s.cache) b = latestByte mem₀ log (wordAddr r.addr) b)

/-- The memory has taken the stores in order, each once, except that the newest may be on its way. -/
def InStep : Prop := ∃ waiting : List Store, waiting.length ≤ 1 ∧ s.stores = waiting ++ s.writes

/-- Every valid line holds the memory, and no two of a set have the same tag. -/
structure Coherent (M : Word → Word) (m : Arrays) : Prop where
  holds : ∀ w i, m.valid i w = true → Holds M (m.tag w i) i (m.data w i)
  distinct : ∀ i v w, m.valid i v = true → m.valid i w = true → m.tag v i = m.tag w i → v = w

def IdleCoherent : Prop :=
  s.cache.fsm = .idle → s.writes = s.stores ∧ Coherent (s.mem mem₀) s.cache.arr

end Sys

/-- The machine out of reset, with any contents in the arrays without reset. -/
def start (tag : Way → BitVec 6 → BitVec 20) (data : Way → BitVec 6 → BitVec 4 → Word) (rd : ReadRegs) : Sys :=
  ⟨reset tag data rd, [], [], [], []⟩

def run (s₀ : Sys) (stim : Nat → Stim) : Nat → Sys := Sync.run (Sys.next mem₀) s₀ stim

/-- The memory goes on taking requests and answering them. -/
def Fair (stim : Nat → Stim) : Prop :=
  (∀ t, ∃ u, t ≤ u ∧ (stim u).memReady = true) ∧ ∀ t, ∃ u, t ≤ u ∧ (stim u).memAnswer = true

/-! ## Invariant -/

open Sys

/-- What holds of a store on its way to the memory. -/
structure Writing (s : Sys) : Prop where
  lines : Coherent (written mem₀ s.stores) s.cache.arr
  wen : s.cache.saved.wen = true
  unseen : s.cache.wtRspSeen = false
  owed : ∃ log, s.owed = [(s.cache.saved, log)] ∧ s.stores = s.cache.saved.store :: log ∧
    s.writes = if s.cache.wtReqFired then s.stores else log
  pending : if s.cache.wtReqFired then ∃ y, s.pending = [y] else s.pending = []

/-- What holds of the fill in progress. -/
structure Filling (s : Sys) : Prop where
  owed : s.owed = [(s.cache.saved, s.writes)]
  stores : s.stores = s.cache.saved.extend s.writes
  counts : s.cache.fillRspCnt ≤ s.cache.fillReqCnt ∧ s.cache.fillReqCnt ≤ LINE_WORDS ∧
    s.cache.fillRspCnt < LINE_WORDS
  pending : s.pending = (beats s.cache.saved.addr s.cache.fillRspCnt s.cache.fillReqCnt).map (s.mem mem₀)
  distinct : ∀ i v w, s.cache.arr.valid i v = true → s.cache.arr.valid i w = true →
    s.cache.arr.tag v i = s.cache.arr.tag w i → v = w
  fresh : ∀ w, s.cache.arr.valid (idx s.cache) w = true → s.cache.arr.tag w (idx s.cache) ≠ aTag s.cache.saved.addr
  others : ∀ w i, ¬ (w = s.cache.victimWay ∧ i = idx s.cache) → s.cache.arr.valid i w = true →
    Holds (s.mem mem₀) (s.cache.arr.tag w i) i (s.cache.arr.data w i)
  filled : ∀ j : BitVec 4, j.toNat < s.cache.fillRspCnt → s.cache.arr.data s.cache.victimWay (idx s.cache) j =
    written mem₀ s.stores (lineWord (aTag s.cache.saved.addr) (idx s.cache) j)
  target : (woff s.cache).toNat < s.cache.fillRspCnt → s.cache.fillTarget = s.mem mem₀ (wordAddr s.cache.saved.addr)

/-- What holds when the cache answers. -/
structure Answering (s : Sys) : Prop where
  lines : Coherent (s.mem mem₀) s.cache.arr
  pending : s.pending = []
  stores : s.writes = s.stores
  owed : ∃ log, s.owed = [(s.cache.saved, log)] ∧
    (s.cache.saved.wen = false → coreRspRdata s.cache = written mem₀ log (wordAddr s.cache.saved.addr))

/-- What holds in each state of the machine. -/
def Phase (s : Sys) : Prop :=
  match s.cache.fsm with
  | .idle => Coherent (s.mem mem₀) s.cache.arr ∧ s.pending = [] ∧ s.writes = s.stores ∧ s.owed = []
  | .lookup => Coherent (s.mem mem₀) s.cache.arr ∧ s.pending = [] ∧ s.stores = s.cache.saved.extend s.writes ∧
      s.owed = [(s.cache.saved, s.writes)] ∧ s.cache.rd = s.cache.arr.read (idx s.cache) (woff s.cache)
  | .fill => Filling mem₀ s
  | .wt | .wtMiss => Writing mem₀ s
  | .done => Answering mem₀ s

structure Inv (s : Sys) : Prop where
  noFault : s.cache.fillFault = false
  phase : Phase mem₀ s

/-! ## Steps of the cache -/

section

variable {c : State} {i : In} {w : Way}

theorem step_accept (hs : c.fsm = .idle) (hv : i.coreReqValid = true) : step c i =
    { c with
      fsm := .lookup, saved := i.coreReq, arr := arrNext c i
      rd := c.arr.read (aIdx i.coreReq.addr) (aWoff i.coreReq.addr) } := by
  simp [step, hs, acceptReq, hv, readNext]

theorem step_stay (hs : c.fsm = .idle) (hv : i.coreReqValid = false) :
    step c i = { c with arr := arrNext c i, rd := readNext c i } := by
  simp [step, hs, acceptReq, hv]

theorem step_read_hit (hs : c.fsm = .lookup) (hw : hitWay c.rd c.saved.addr = some w) (he : c.saved.wen = false) :
    step c i = { c with
      fsm := .done, rspHit := true, rspWay := w, arr := arrNext c i, rd := c.arr.read (idx c) (woff c) } := by
  simp [step, hs, hw, he, readNext, acceptReq]

theorem step_write_hit (hs : c.fsm = .lookup) (hw : hitWay c.rd c.saved.addr = some w) (he : c.saved.wen = true) :
    step c i = { c with
      fsm := .wt, rspHit := true, rspWay := w, wtReqFired := false, wtRspSeen := false
      arr := arrNext c i, rd := readNext c i } := by
  simp [step, hs, hw, he]

theorem step_miss (hs : c.fsm = .lookup) (hw : hitWay c.rd c.saved.addr = none) : step c i =
    { c with
      fsm := .fill, victimWay := plruPick (c.arr.plru (idx c)), fillReqCnt := 0, fillRspCnt := 0
      fillFault := false, arr := arrNext c i, rd := readNext c i } := by
  simp [step, hs, hw]

theorem step_write (hs : c.fsm = .wt ∨ c.fsm = .wtMiss) : step c i =
    { c with
      fsm := if wtEnds c i then .done else c.fsm
      wtReqFired := memReqFired c i || c.wtReqFired
      wtRspSeen := i.memRspValid || c.wtRspSeen
      arr := arrNext c i
      rd := readNext c i } := by
  rcases hs with hs | hs <;> simp [step, hs]

/-- A beat, without a fault, that is not the last one or the last one of a read, or the last one of a store. -/
theorem step_fill (hs : c.fsm = .fill) (hf : c.fillFault = false) : step c i =
    { c with
      fsm := if fillEnds c i then (if c.saved.wen then .wtMiss else .done) else .fill
      rspHit := if fillEnds c i then false else c.rspHit
      rspWay := if fillEnds c i then c.victimWay else c.rspWay
      wtReqFired := if fillEnds c i && c.saved.wen then false else c.wtReqFired
      wtRspSeen := if fillEnds c i && c.saved.wen then false else c.wtRspSeen
      fillReqCnt := if memReqFired c i then c.fillReqCnt + 1 else c.fillReqCnt
      fillRspCnt := fillRspCntD c i
      fillTarget := if i.memRspValid && BitVec.ofNat 4 c.fillRspCnt == woff c then i.memRspRdata else c.fillTarget
      arr := arrNext c i
      rd := readNext c i } := by
  cases he : fillEnds c i <;> cases hw : c.saved.wen <;> simp [step, hs, he, hw, hf]

theorem step_done (hs : c.fsm = .done) : step c i = { c with fsm := .idle, arr := arrNext c i, rd := readNext c i } := by
  simp [step, hs]

theorem step_fillFault (hf : c.fillFault = false) : (step c i).fillFault = false := by
  unfold step
  cases c.fsm <;> simp only <;> (try split) <;> (try split) <;> first | exact hf | rfl

theorem not_commits (hs : c.fsm ≠ .fill) : commits c i = false := by simp [commits, fillEnds, hs]

/-- In the other states the arrays stay. -/
theorem arrNext_rest (hl : c.fsm ≠ .lookup) (hs : c.fsm ≠ .fill) : arrNext c i = c.arr := by
  unfold arrNext
  rw [not_commits hs]
  cases hc : c.fsm
  · rfl
  · exact absurd hc hl
  · rfl
  · exact absurd hc hs
  · rfl
  · rfl

theorem arrNext_miss (hs : c.fsm = .lookup) (hw : hitWay c.rd c.saved.addr = none) : arrNext c i = c.arr := by
  unfold arrNext
  rw [not_commits (by rw [hs]; simp), hs, hw]
  rfl

theorem arrNext_read_hit (hs : c.fsm = .lookup) (hw : hitWay c.rd c.saved.addr = some w) (he : c.saved.wen = false) :
    arrNext c i = c.arr.touch (idx c) w := by
  unfold arrNext
  rw [not_commits (by rw [hs]; simp), hs, hw]
  simp [he]

theorem arrNext_write_hit (hs : c.fsm = .lookup) (hw : hitWay c.rd c.saved.addr = some w) (he : c.saved.wen = true) :
    arrNext c i = (c.arr.touch (idx c) w).setData (idx c) w (woff c)
      (mergeBytes (c.arr.data w (idx c) (woff c)) c.saved.wdata c.saved.wmask) := by
  unfold arrNext
  rw [not_commits (by rw [hs]; simp), hs, hw]
  simp [he]

theorem fill_tag (hs : c.fsm = .fill) (w : Way) (n : BitVec 6) : (arrNext c i).tag w n =
    if commits c i = true ∧ w = c.victimWay ∧ n = idx c then aTag c.saved.addr else c.arr.tag w n := by
  unfold arrNext
  cases commits c i <;> cases i.memRspValid <;> simp [hs, Arrays.setTag, Arrays.setValid, Arrays.setData, Arrays.touch]

theorem fill_valid (hs : c.fsm = .fill) (n : BitVec 6) (w : Way) : (arrNext c i).valid n w =
    if commits c i = true ∧ n = idx c ∧ w = c.victimWay then true else c.arr.valid n w := by
  unfold arrNext
  cases commits c i <;> cases i.memRspValid <;> simp [hs, Arrays.setTag, Arrays.setValid, Arrays.setData, Arrays.touch]

theorem fill_data (hs : c.fsm = .fill) (w : Way) (n : BitVec 6) (j : BitVec 4) : (arrNext c i).data w n j =
    if i.memRspValid = true ∧ w = c.victimWay ∧ n = idx c ∧ j = BitVec.ofNat 4 c.fillRspCnt then beatData c i
    else c.arr.data w n j := by
  unfold arrNext
  cases commits c i <;> cases i.memRspValid <;> simp [hs, Arrays.setTag, Arrays.setValid, Arrays.setData, Arrays.touch]

end

/-! ## Stores and lines -/

variable {mem₀} {r : CoreReq} {log : List Store} {a : Word}

theorem CoreReq.extend_read (h : r.wen = false) : r.extend log = log := by simp [extend, h]

theorem CoreReq.extend_write (h : r.wen = true) : r.extend log = r.store :: log := by simp [extend, h]

theorem written_extend (h : a ≠ wordAddr r.addr) : written mem₀ (r.extend log) a = written mem₀ log a := by
  unfold CoreReq.extend
  split
  · exact written_other h
  · rfl

/-- A store that is merged into the line that holds its word. -/
theorem Sys.Coherent.store {m : Arrays} {w : Way} (h : Coherent (written mem₀ log) m)
    (hv : m.valid (aIdx r.addr) w = true) (ht : m.tag w (aIdx r.addr) = aTag r.addr) :
    Coherent (written mem₀ (r.store :: log)) (m.setData (aIdx r.addr) w (aWoff r.addr)
      (mergeBytes (m.data w (aIdx r.addr) (aWoff r.addr)) r.wdata r.wmask)) := by
  refine ⟨fun v i hv' j => ?_, h.distinct⟩
  have hold : m.data v i j = written mem₀ log (lineWord (m.tag v i) i j) := h.holds v i hv' j
  by_cases hj : v = w ∧ i = aIdx r.addr ∧ j = aWoff r.addr
  · obtain ⟨rfl, rfl, rfl⟩ := hj
    have haddr : lineWord (m.tag v (aIdx r.addr)) (aIdx r.addr) (aWoff r.addr) = r.store.addr := by rw [ht]; rfl
    simp only [Arrays.setData, and_self, ↓reduceIte]
    rw [hold, haddr, written_self]
    rfl
  · have hne : lineWord (m.tag v i) i j ≠ r.store.addr := by
      intro heq
      obtain ⟨ht', rfl, rfl⟩ := lineWord_inj heq
      exact hj ⟨h.distinct _ v w hv' hv (by rw [ht', ht]), rfl, rfl⟩
    simp only [Arrays.setData, hj, ↓reduceIte]
    rw [hold]
    exact (written_other hne).symm

/-! ## One lemma for each state of the machine -/

variable {s : Sys} {x : Stim}

/-- While the memory is not asked and owes nothing, it does nothing. -/
theorem quiet (mem₀ : Word → Word) (x : Stim) (hp : s.pending = []) (hv : (memReq s.cache).valid = false) :
    (s.input mem₀ x).memRspValid = false ∧ (s.next mem₀ x).pending = [] ∧ (s.next mem₀ x).writes = s.writes := by
  have ht : s.memTakes x = false := by simp [memTakes, hv]
  have hr : (s.input mem₀ x).memRspValid = false := by simp [input, hp, reply, ht]
  refine ⟨hr, ?_, ?_⟩
  · simp [next, hr, hp, reply, ht, InOrder.serveNow]
  · simp [next, ht]

theorem not_taken (hs : s.cache.fsm ≠ .idle) : s.taken x = false := by simp [taken, coreReqReady, hs]

theorem not_answered (hs : s.cache.fsm ≠ .done) : s.answered = false := by simp [answered, coreRspValid, hs]

theorem stores_next (mem₀ : Word → Word) (x : Stim) (hs : s.cache.fsm ≠ .idle) :
    (s.next mem₀ x).stores = s.stores := by
  simp [next, not_taken hs]

/-- What is owed stays until it is answered. -/
theorem owed_next (mem₀ : Word → Word) (x : Stim) (hs : s.cache.fsm ≠ .idle) (hd : s.cache.fsm ≠ .done) :
    (s.next mem₀ x).owed = s.owed := by
  simp [next, not_taken hs, not_answered hd, InOrder.serve]

theorem phase_idle (h : Phase mem₀ s) (hs : s.cache.fsm = .idle) : Phase mem₀ (s.next mem₀ x) := by
  unfold Phase at h
  rw [hs] at h
  obtain ⟨hcoh, hpend, hst, hown⟩ := h
  obtain ⟨-, hpend', hwr⟩ := quiet mem₀ x hpend (by simp [memReq, hs])
  have harr : arrNext s.cache (s.input mem₀ x) = s.cache.arr := arrNext_rest (by rw [hs]; simp) (by rw [hs]; simp)
  have hans := not_answered (s := s) (by rw [hs]; simp)
  cases hv : x.reqValid
  · have htk : s.taken x = false := by simp [taken, hv]
    have hc : (s.next mem₀ x).cache = _ := step_stay hs (i := s.input mem₀ x) hv
    unfold Phase mem
    rw [hc, hwr, hpend', harr]
    simp only [hs]
    refine ⟨hcoh, trivial, ?_, ?_⟩
    · simpa [next, htk] using hst
    · simp [next, htk, hans, hown, InOrder.serve]
  · have htk : s.taken x = true := by simp [taken, hv, coreReqReady, hs]
    have hc : (s.next mem₀ x).cache = _ := step_accept hs (i := s.input mem₀ x) hv
    unfold Phase mem
    rw [hc, hwr, hpend', harr]
    refine ⟨hcoh, rfl, ?_, ?_, rfl⟩
    · simp [next, htk, hst, input]
    · simp [next, htk, hans, hown, InOrder.serve, hst, input]

theorem phase_lookup (h : Phase mem₀ s) (hs : s.cache.fsm = .lookup) : Phase mem₀ (s.next mem₀ x) := by
  unfold Phase at h
  rw [hs] at h
  obtain ⟨hcoh, hpend, hst, hown, hrd⟩ := h
  obtain ⟨-, hpend', hwr⟩ := quiet mem₀ x hpend (by simp [memReq, hs])
  have hst' := stores_next mem₀ x (s := s) (by rw [hs]; simp)
  have hown' := owed_next mem₀ x (s := s) (by rw [hs]; simp) (by rw [hs]; simp)
  cases hw : hitWay s.cache.rd s.cache.saved.addr with
  | some w =>
      obtain ⟨hv, ht⟩ := hitWay_some hw
      rw [hrd] at hv ht
      have hv' : s.cache.arr.valid (aIdx s.cache.saved.addr) w = true := hv
      have ht' : s.cache.arr.tag w (aIdx s.cache.saved.addr) = aTag s.cache.saved.addr := ht
      cases he : s.cache.saved.wen
      · have hc : (s.next mem₀ x).cache = _ := step_read_hit hs hw he (i := s.input mem₀ x)
        rw [CoreReq.extend_read he] at hst
        have hword : s.cache.arr.data w (idx s.cache) (woff s.cache) = s.mem mem₀ (wordAddr s.cache.saved.addr) := by
          have hh := hcoh.holds w _ hv' (woff s.cache)
          rw [ht'] at hh
          exact hh
        unfold Phase
        rw [hc]
        simp only
        refine ⟨?_, hpend', by rw [hwr, hst', hst], s.writes, ?_, fun _ => ?_⟩
        · rw [hc, arrNext_read_hit hs hw he]
          unfold mem
          rw [hwr]
          exact ⟨hcoh.holds, hcoh.distinct⟩
        · rw [hown', hown, hc]
        · rw [hc]
          exact hword
      · have hc : (s.next mem₀ x).cache = _ := step_write_hit hs hw he (i := s.input mem₀ x)
        rw [CoreReq.extend_write he] at hst
        unfold Phase
        rw [hc]
        simp only
        refine ⟨?_, ?_, ?_, ⟨s.writes, ?_, ?_, ?_⟩, ?_⟩
        · rw [hc, arrNext_write_hit hs hw he, hst', hst]
          have htouch : Coherent (written mem₀ s.writes) (s.cache.arr.touch (idx s.cache) w) :=
            ⟨hcoh.holds, hcoh.distinct⟩
          exact htouch.store (r := s.cache.saved) hv' ht'
        · rw [hc]; exact he
        · rw [hc]
        · rw [hown', hown, hc]
        · rw [hst', hst, hc]
        · rw [hc, hwr]; rfl
        · rw [hc]; exact hpend'
  | none =>
      have hc : (s.next mem₀ x).cache = _ := step_miss hs hw (i := s.input mem₀ x)
      have harr := arrNext_miss (i := s.input mem₀ x) hs hw
      have hfresh : ∀ w, s.cache.arr.valid (idx s.cache) w = true →
          s.cache.arr.tag w (idx s.cache) ≠ aTag s.cache.saved.addr := by
        intro w hv ht
        have hno := hitWay_none hw w
        rw [hrd] at hno
        exact hno ⟨hv, ht⟩
      unfold Phase
      rw [hc, harr]
      simp only
      constructor
      · rw [hown', hown, hwr, hc]
      · rw [hst', hst, hwr, hc]
      · rw [hc]; simp [LINE_WORDS]
      · rw [hpend', hc]
        simp [beats_self]
      · rw [hc, harr]; exact hcoh.distinct
      · rw [hc, harr]; exact hfresh
      · rw [hc, harr]
        unfold mem
        rw [hwr]
        exact fun w i _ hv => hcoh.holds w i hv
      · rw [hc]
        intro j hj
        simp at hj
      · rw [hc]
        intro hj
        simp at hj

theorem phase_done (h : Phase mem₀ s) (hs : s.cache.fsm = .done) : Phase mem₀ (s.next mem₀ x) := by
  unfold Phase at h
  rw [hs] at h
  obtain ⟨hcoh, hpend, hst, log, hown, -⟩ := h
  obtain ⟨-, hpend', hwr⟩ := quiet mem₀ x hpend (by simp [memReq, hs])
  have hc : (s.next mem₀ x).cache = _ := step_done hs (i := s.input mem₀ x)
  have harr : arrNext s.cache (s.input mem₀ x) = s.cache.arr := arrNext_rest (by rw [hs]; simp) (by rw [hs]; simp)
  have hst' := stores_next mem₀ x (s := s) (by rw [hs]; simp)
  have hans : s.answered = true := by simp [answered, coreRspValid, hs]
  unfold Phase mem
  rw [hc, harr, hwr, hst']
  refine ⟨hcoh, hpend', hst, ?_⟩
  simp [next, not_taken (x := x) (s := s) (by rw [hs]; simp), hans, hown, InOrder.serve]

/-! ### The store on its way -/

/-- The store is taken at most once; the memory answers it when it has taken it. -/
theorem Writing.turn (h : Writing mem₀ s) (hs : s.cache.fsm = .wt ∨ s.cache.fsm = .wtMiss) :
    wtEnds s.cache (s.input mem₀ x) = (s.input mem₀ x).memRspValid ∧
    (∃ log, s.owed = [(s.cache.saved, log)] ∧ s.stores = s.cache.saved.store :: log ∧
      (s.next mem₀ x).writes = if memReqFired s.cache (s.input mem₀ x) || s.cache.wtReqFired then s.stores else log) ∧
    if (s.input mem₀ x).memRspValid then
      (memReqFired s.cache (s.input mem₀ x) || s.cache.wtReqFired) = true ∧ (s.next mem₀ x).pending = []
    else if memReqFired s.cache (s.input mem₀ x) || s.cache.wtReqFired then ∃ y, (s.next mem₀ x).pending = [y]
    else (s.next mem₀ x).pending = [] := by
  obtain ⟨log, hown, hst, hwr⟩ := h.owed
  have hreq : memReq s.cache =
      ⟨!s.cache.wtReqFired, wordAddr s.cache.saved.addr, true, s.cache.saved.wmask, s.cache.saved.wdata⟩ := by
    rcases hs with hs | hs <;> simp [memReq, hs]
  have hpend := h.pending
  have htakes : memReqFired s.cache (s.input mem₀ x) = s.memTakes x := rfl
  rw [htakes]
  cases hf : s.cache.wtReqFired
  · simp only [hf, Bool.false_eq_true, ↓reduceIte] at hpend hwr
    cases hm : x.memReady
    · have htk : s.memTakes x = false := by simp [memTakes, hm]
      have hr : (s.input mem₀ x).memRspValid = false := by simp [input, hpend, reply, htk]
      refine ⟨by simp [wtEnds, htakes, htk, hf, hr], ⟨log, hown, hst, ?_⟩, ?_⟩
      · simpa [next, htk] using hwr
      · simp [next, htk, hr, hpend, reply, InOrder.serveNow]
    · have htk : s.memTakes x = true := by simp [memTakes, hm, hreq, hf]
      refine ⟨by simp [wtEnds, htakes, htk, h.unseen], ⟨log, hown, hst, ?_⟩, ?_⟩
      · simp only [next, htk, hreq, Bool.and_self, ↓reduceIte, Bool.true_or]
        rw [hst, hwr]
        rfl
      · cases hr : (s.input mem₀ x).memRspValid <;> simp [next, htk, hr, hpend, reply, InOrder.serveNow]
  · simp only [hf, ↓reduceIte] at hpend hwr
    obtain ⟨y, hy⟩ := hpend
    have htk : s.memTakes x = false := by simp [memTakes, hreq, hf]
    refine ⟨by simp [wtEnds, hf, h.unseen], ⟨log, hown, hst, ?_⟩, ?_⟩
    · simpa [next, htk] using hwr
    · cases hr : (s.input mem₀ x).memRspValid <;> simp [next, htk, hr, hy, reply, InOrder.serveNow]

theorem phase_write (h : Phase mem₀ s) (hs : s.cache.fsm = .wt ∨ s.cache.fsm = .wtMiss) : Phase mem₀ (s.next mem₀ x) := by
  have hw : Writing mem₀ s := by
    unfold Phase at h
    rcases hs with hs | hs <;> rw [hs] at h <;> exact h
  have hl : s.cache.fsm ≠ .lookup := by rcases hs with hs | hs <;> rw [hs] <;> simp
  have hi : s.cache.fsm ≠ .idle := by rcases hs with hs | hs <;> rw [hs] <;> simp
  have hd : s.cache.fsm ≠ .done := by rcases hs with hs | hs <;> rw [hs] <;> simp
  have hfill : s.cache.fsm ≠ .fill := by rcases hs with hs | hs <;> rw [hs] <;> simp
  have hc : (s.next mem₀ x).cache = _ := step_write hs (i := s.input mem₀ x)
  have harr : arrNext s.cache (s.input mem₀ x) = s.cache.arr := arrNext_rest hl hfill
  have hst' := stores_next mem₀ x hi
  have hown' := owed_next mem₀ x hi hd
  obtain ⟨hends, ⟨log, hown, hst, hwr⟩, hpend⟩ := hw.turn (x := x) hs
  cases hr : (s.input mem₀ x).memRspValid
  · rw [hr] at hends hpend
    simp only [Bool.false_eq_true, ↓reduceIte] at hpend
    have hwriting : Writing mem₀ (s.next mem₀ x) := by
      constructor
      · rw [hst', hc, harr]; exact hw.lines
      · rw [hc]; exact hw.wen
      · rw [hc]; simp [hr, hw.unseen]
      · refine ⟨log, ?_, ?_, ?_⟩
        · rw [hown', hown, hc]
        · rw [hst', hst, hc]
        · rw [hwr, hst', hc]
      · rw [hc]; exact hpend
    have hfsm : (s.next mem₀ x).cache.fsm = s.cache.fsm := by rw [hc]; simp [hends]
    unfold Phase
    rw [hfsm]
    rcases hs with hs | hs <;> rw [hs] <;> exact hwriting
  · rw [hr] at hends hpend
    simp only [↓reduceIte] at hpend
    have hfsm : (s.next mem₀ x).cache.fsm = .done := by rw [hc]; simp [hends]
    rw [hpend.1] at hwr
    unfold Phase
    rw [hfsm]
    refine ⟨?_, hpend.2, ?_, log, ?_, fun he => ?_⟩
    · unfold mem
      rw [hwr, hc, harr]
      exact hw.lines
    · rw [hwr, hst']; rfl
    · rw [hown', hown, hc]
    · rw [hc] at he
      rw [hw.wen] at he
      simp at he

/-! ### The fill -/

theorem memReq_fill (hs : s.cache.fsm = .fill) : memReq s.cache =
    ⟨decide (s.cache.fillReqCnt < LINE_WORDS), beatAddr s.cache.saved.addr s.cache.fillReqCnt, false, 0, 0⟩ := by
  simp [memReq, hs]

theorem writes_fill (mem₀ : Word → Word) (x : Stim) (hs : s.cache.fsm = .fill) :
    (s.next mem₀ x).writes = s.writes := by
  simp [next, memReq_fill hs]

section

variable (h : Filling mem₀ s) (hs : s.cache.fsm = .fill) (hf : s.cache.fillFault = false)
include h hs hf

/-- What the memory may answer: the beats that it has taken, with that of this cycle. -/
theorem Filling.offered : s.cache.fillRspCnt ≤ (s.next mem₀ x).cache.fillReqCnt ∧
    (s.next mem₀ x).cache.fillReqCnt ≤ LINE_WORDS ∧
    s.pending ++ (s.reply mem₀ x).toList =
      (beats s.cache.saved.addr s.cache.fillRspCnt (s.next mem₀ x).cache.fillReqCnt).map (s.mem mem₀) := by
  obtain ⟨h₁, h₂, -⟩ := h.counts
  have hc : (s.next mem₀ x).cache = _ := step_fill hs hf (i := s.input mem₀ x)
  have hreq : (s.next mem₀ x).cache.fillReqCnt =
      if s.memTakes x then s.cache.fillReqCnt + 1 else s.cache.fillReqCnt := by
    rw [hc]
    rfl
  unfold reply
  rw [hreq]
  cases htk : s.memTakes x
  · simp [h₁, h₂, h.pending]
  · simp only [memTakes, memReq_fill hs, Bool.and_eq_true, decide_eq_true_eq] at htk
    simp only [memReq_fill hs, Bool.false_eq_true, ↓reduceIte, Option.toList_some]
    refine ⟨by omega, by omega, ?_⟩
    rw [h.pending, beats_succ h₁, List.map_append]
    rfl

/-- A beat that is answered is the next one of the fill, with its word. -/
theorem Filling.beat (hv : (s.input mem₀ x).memRspValid = true) :
    s.cache.fillRspCnt < (s.next mem₀ x).cache.fillReqCnt ∧
      (s.input mem₀ x).memRspRdata = s.mem mem₀ (beatAddr s.cache.saved.addr s.cache.fillRspCnt) := by
  obtain ⟨-, -, hoff⟩ := h.offered hs hf (x := x)
  have hne : beats s.cache.saved.addr s.cache.fillRspCnt (s.next mem₀ x).cache.fillReqCnt ≠ [] := by
    intro hnil
    rw [hnil] at hoff
    simp [input, hoff] at hv
  have hlt := lt_of_beats hne
  refine ⟨hlt, ?_⟩
  have hdata : (s.input mem₀ x).memRspRdata = (s.pending ++ (s.reply mem₀ x).toList).headD x.junk := rfl
  rw [hdata, hoff, beats_cons hlt]
  rfl

theorem Filling.counts_next : fillRspCntD s.cache (s.input mem₀ x) ≤ (s.next mem₀ x).cache.fillReqCnt ∧
    (s.next mem₀ x).cache.fillReqCnt ≤ LINE_WORDS ∧
      (s.next mem₀ x).pending = (beats s.cache.saved.addr (fillRspCntD s.cache (s.input mem₀ x))
        (s.next mem₀ x).cache.fillReqCnt).map (s.mem mem₀) := by
  obtain ⟨h₁, h₂, hoff⟩ := h.offered hs hf (x := x)
  have hpend : (s.next mem₀ x).pending =
      InOrder.serveNow s.pending (s.input mem₀ x).memRspValid (s.reply mem₀ x) := rfl
  rw [hpend]
  unfold InOrder.serveNow
  rw [hoff]
  cases hv : (s.input mem₀ x).memRspValid
  · simp [fillRspCntD, hv, h₁, h₂]
  · have hlt := (h.beat hs hf hv).1
    simp only [fillRspCntD, hs, hv, beq_self_eq_true, Bool.and_self, ↓reduceIte, beats_cons hlt]
    exact ⟨hlt, h₂, rfl⟩

/-- The word that is written for a beat is that of the memory with the store. -/
theorem Filling.beatData_eq (hv : (s.input mem₀ x).memRspValid = true) : beatData s.cache (s.input mem₀ x) =
    written mem₀ s.stores (beatAddr s.cache.saved.addr s.cache.fillRspCnt) := by
  have hword := (h.beat hs hf hv).2
  unfold beatData
  rw [hword, h.stores]
  by_cases hj : BitVec.ofNat 4 s.cache.fillRspCnt = woff s.cache
  · have haddr : beatAddr s.cache.saved.addr s.cache.fillRspCnt = s.cache.saved.store.addr := by
      unfold beatAddr
      rw [hj]
      rfl
    cases he : s.cache.saved.wen
    · rw [CoreReq.extend_read he]
      rfl
    · rw [CoreReq.extend_write he, haddr, written_self]
      simp only [hj, beq_self_eq_true, Bool.and_self, ↓reduceIte]
      rfl
  · have hne : beatAddr s.cache.saved.addr s.cache.fillRspCnt ≠ wordAddr s.cache.saved.addr := by
      intro heq
      exact hj (lineWord_inj heq).2.2
    have hj' : (BitVec.ofNat 4 s.cache.fillRspCnt == woff s.cache) = false := by simpa using hj
    rw [written_extend hne, hj']
    simp [mem]

theorem Filling.filled_next (j : BitVec 4) (hj : j.toNat < fillRspCntD s.cache (s.input mem₀ x)) :
    (arrNext s.cache (s.input mem₀ x)).data s.cache.victimWay (idx s.cache) j =
      written mem₀ s.stores (lineWord (aTag s.cache.saved.addr) (idx s.cache) j) := by
  rw [fill_data hs]
  by_cases hc : (s.input mem₀ x).memRspValid = true ∧ j = BitVec.ofNat 4 s.cache.fillRspCnt
  · rw [if_pos ⟨hc.1, rfl, rfl, hc.2⟩, h.beatData_eq hs hf hc.1, hc.2]
    rfl
  · rw [if_neg fun hc' => hc ⟨hc'.1, hc'.2.2.2⟩]
    refine h.filled j ?_
    unfold fillRspCntD at hj
    split at hj
    · next hv =>
        simp only [Bool.and_eq_true] at hv
        by_contra hge
        exact hc ⟨hv.2, eq_ofNat_of_toNat (by omega)⟩
    · exact hj

theorem Filling.target_next (hj : (woff s.cache).toNat < fillRspCntD s.cache (s.input mem₀ x)) :
    (s.next mem₀ x).cache.fillTarget = s.mem mem₀ (wordAddr s.cache.saved.addr) := by
  have hc : (s.next mem₀ x).cache = _ := step_fill hs hf (i := s.input mem₀ x)
  rw [hc]
  simp only
  cases hb : (s.input mem₀ x).memRspValid && BitVec.ofNat 4 s.cache.fillRspCnt == woff s.cache
  · refine h.target ?_
    unfold fillRspCntD at hj
    split at hj
    · next hv =>
        simp only [Bool.and_eq_true] at hv
        simp only [hv.2, Bool.true_and, beq_eq_false_iff_ne, ne_eq] at hb
        by_contra hge
        exact hb (eq_ofNat_of_toNat (by omega)).symm
    · exact hj
  · simp only [Bool.and_eq_true, beq_iff_eq] at hb
    simp only [↓reduceIte]
    rw [(h.beat hs hf hb.1).2]
    unfold beatAddr
    rw [hb.2]
    rfl

/-- The lines when the fill has ended. -/
theorem Filling.coherent_end (he : fillEnds s.cache (s.input mem₀ x) = true) :
    Coherent (written mem₀ s.stores) (arrNext s.cache (s.input mem₀ x)) := by
  have hcommit : commits s.cache (s.input mem₀ x) = true := by simp [commits, he, hf]
  have hcnt : fillRspCntD s.cache (s.input mem₀ x) = LINE_WORDS := by simpa [fillEnds, hs] using he
  constructor
  · intro w i hv j
    by_cases hvic : w = s.cache.victimWay ∧ i = idx s.cache
    · obtain ⟨rfl, rfl⟩ := hvic
      rw [h.filled_next hs hf j (by rw [hcnt]; exact toNat_lt j), fill_tag hs, if_pos ⟨hcommit, rfl, rfl⟩]
    · rw [fill_valid hs, if_neg fun hc => hvic ⟨hc.2.2, hc.2.1⟩] at hv
      rw [fill_tag hs, if_neg fun hc => hvic hc.2, fill_data hs, if_neg fun hc => hvic ⟨hc.2.1, hc.2.2.1⟩]
      -- another line does not hold the word that is stored
      have hne : lineWord (s.cache.arr.tag w i) i j ≠ wordAddr s.cache.saved.addr := by
        intro heq
        obtain ⟨ht, rfl, -⟩ := lineWord_inj heq
        exact h.fresh w hv ht
      rw [h.stores, written_extend hne]
      exact h.others w i hvic hv j
  · intro i v w hv hw ht
    rw [fill_valid hs] at hv hw
    rw [fill_tag hs, fill_tag hs] at ht
    simp only [hcommit, true_and] at hv hw ht
    by_cases hi : i = idx s.cache
    · subst hi
      simp only [and_true, true_and] at hv hw ht
      by_cases hvv : v = s.cache.victimWay <;> by_cases hww : w = s.cache.victimWay
      · rw [hvv, hww]
      · simp only [hvv, hww, ↓reduceIte] at hw ht
        exact absurd ht.symm (h.fresh w hw)
      · simp only [hvv, hww, ↓reduceIte] at hv ht
        exact absurd ht (h.fresh v hv)
      · simp only [hvv, hww, ↓reduceIte] at hv hw ht
        exact h.distinct _ v w hv hw ht
    · simp only [hi, false_and, and_false, ↓reduceIte] at hv hw ht
      exact h.distinct i v w hv hw ht

end

theorem phase_fill (h : Phase mem₀ s) (hs : s.cache.fsm = .fill) (hf : s.cache.fillFault = false) :
    Phase mem₀ (s.next mem₀ x) := by
  unfold Phase at h
  rw [hs] at h
  have h' : Filling mem₀ s := h
  have hc : (s.next mem₀ x).cache = _ := step_fill hs hf (i := s.input mem₀ x)
  have hst := stores_next mem₀ x (s := s) (by rw [hs]; simp)
  have hown := owed_next mem₀ x (s := s) (by rw [hs]; simp) (by rw [hs]; simp)
  have hwr := writes_fill mem₀ x hs
  have hmem : (s.next mem₀ x).mem mem₀ = s.mem mem₀ := by simp [mem, hwr]
  obtain ⟨hc₁, hc₂, hpend⟩ := h'.counts_next hs hf (x := x)
  cases he : fillEnds s.cache (s.input mem₀ x)
  · have hcommit : commits s.cache (s.input mem₀ x) = false := by simp [commits, he]
    have hfsm : (s.next mem₀ x).cache.fsm = .fill := by rw [hc]; simp [he]
    have hcnt : fillRspCntD s.cache (s.input mem₀ x) < LINE_WORDS := by
      simp only [fillEnds, hs, beq_self_eq_true, Bool.true_and, beq_eq_false_iff_ne, ne_eq] at he
      omega
    have htag : (arrNext s.cache (s.input mem₀ x)).tag = s.cache.arr.tag := by
      funext w n
      simp [fill_tag hs, hcommit]
    have hvalid : (arrNext s.cache (s.input mem₀ x)).valid = s.cache.arr.valid := by
      funext n w
      simp [fill_valid hs, hcommit]
    unfold Phase
    rw [hfsm]
    constructor
    · rw [hown, h'.owed, hwr, hc]
    · rw [hst, h'.stores, hwr, hc]
    · exact ⟨by rw [hc] at hc₁ ⊢; exact hc₁, hc₂, by rw [hc]; exact hcnt⟩
    · rw [hpend, hmem, hc]
    · rw [hc]
      simp only [htag, hvalid]
      exact h'.distinct
    · rw [hc]
      simp only [htag, hvalid]
      exact h'.fresh
    · intro w i hne hv
      rw [hc] at hne hv ⊢
      simp only [hvalid] at hv
      rw [hmem]
      intro j
      simp only [htag]
      rw [fill_data hs, if_neg fun hc' => hne ⟨hc'.2.1, hc'.2.2.1⟩]
      exact h'.others w i hne hv j
    · intro j hj
      rw [hst]
      rw [hc] at hj ⊢
      exact h'.filled_next hs hf j hj
    · intro hj
      rw [hmem, h'.target_next hs hf (by rw [hc] at hj; exact hj), hc]
  · have hcnt : fillRspCntD s.cache (s.input mem₀ x) = LINE_WORDS := by simpa [fillEnds, hs] using he
    have hcoh := h'.coherent_end hs hf he
    have hempty : (s.next mem₀ x).pending = [] := by
      have hreq : (s.next mem₀ x).cache.fillReqCnt = LINE_WORDS := by omega
      rw [hpend, hreq, hcnt, beats_self]
      rfl
    cases hw : s.cache.saved.wen
    · have hfsm : (s.next mem₀ x).cache.fsm = .done := by rw [hc]; simp [he, hw]
      have hsame : s.stores = s.writes := by rw [h'.stores, CoreReq.extend_read hw]
      unfold Phase
      rw [hfsm]
      refine ⟨?_, hempty, by rw [hwr, hst, hsame], s.writes, ?_, fun _ => ?_⟩
      · rw [hmem, hc]
        rw [hsame] at hcoh
        exact hcoh
      · rw [hown, h'.owed, hc]
      · have ht := h'.target_next hs hf (x := x) (by rw [hcnt]; exact toNat_lt _)
        have hdata : coreRspRdata (s.next mem₀ x).cache = (s.next mem₀ x).cache.fillTarget := by
          rw [hc]
          simp [coreRspRdata, he]
        rw [hdata, ht, hc]
        rfl
    · have hfsm : (s.next mem₀ x).cache.fsm = .wtMiss := by rw [hc]; simp [he, hw]
      have hfired : (s.next mem₀ x).cache.wtReqFired = false := by rw [hc]; simp [he, hw]
      unfold Phase
      rw [hfsm]
      constructor
      · rw [hst, hc]; exact hcoh
      · rw [hc]; exact hw
      · rw [hc]; simp [he, hw]
      · refine ⟨s.writes, ?_, ?_, ?_⟩
        · rw [hown, h'.owed, hc]
        · rw [hst, h'.stores, CoreReq.extend_write hw, hc]
        · rw [hfired, hwr]; rfl
      · rw [hfired]; exact hempty

theorem Inv.next (h : Inv mem₀ s) (x : Stim) : Inv mem₀ (s.next mem₀ x) := by
  refine ⟨step_fillFault h.noFault, ?_⟩
  cases hs : s.cache.fsm
  · exact phase_idle h.phase hs
  · exact phase_lookup h.phase hs
  · exact phase_write h.phase (Or.inl hs)
  · exact phase_fill h.phase hs h.noFault
  · exact phase_write h.phase (Or.inr hs)
  · exact phase_done h.phase hs

/-! ## What the invariant says -/

theorem Inv.answers (h : Inv mem₀ s) : s.Answers mem₀ := by
  intro hans
  have hs : s.cache.fsm = .done := by simpa [answered, coreRspValid] using hans
  have hp := h.phase
  unfold Phase at hp
  rw [hs] at hp
  obtain ⟨-, -, hst, log, hown, hdata⟩ := hp
  refine ⟨_, log, hown, by simp [coreRspFault, h.noFault], hst, fun he b => ?_⟩
  rw [hdata he]
  exact byteOf_written b

theorem inStep_extend (h : s.stores = r.extend s.writes) : s.InStep := by
  cases he : r.wen
  · exact ⟨[], by simp, by rw [h, CoreReq.extend_read he]; rfl⟩
  · exact ⟨[r.store], by simp, by rw [h, CoreReq.extend_write he]; rfl⟩

theorem Writing.inStep (h : Writing mem₀ s) : s.InStep := by
  obtain ⟨log, -, hst, hwr⟩ := h.owed
  cases hf : s.cache.wtReqFired
  · exact ⟨[s.cache.saved.store], by simp, by rw [hst, hwr, hf]; rfl⟩
  · exact ⟨[], by simp, by rw [hwr, hf]; rfl⟩

theorem Inv.inStep (h : Inv mem₀ s) : s.InStep := by
  have hp := h.phase
  unfold Phase at hp
  cases hs : s.cache.fsm <;> rw [hs] at hp
  · exact ⟨[], by simp, hp.2.2.1.symm⟩
  · exact inStep_extend hp.2.2.1
  · exact Writing.inStep hp
  · exact inStep_extend hp.stores
  · exact Writing.inStep hp
  · exact ⟨[], by simp, hp.stores.symm⟩

theorem Inv.idleCoherent (h : Inv mem₀ s) : s.IdleCoherent mem₀ := by
  intro hs
  have hp := h.phase
  unfold Phase at hp
  rw [hs] at hp
  exact ⟨hp.2.2.1, hp.1⟩

/-! ## Progress -/

/-- How far the answer is. -/
def rank (s : Sys) : Nat :=
  match s.cache.fsm with
  | .idle | .done => 0
  | .lookup => 100
  | .fill => 3 + (LINE_WORDS - s.cache.fillReqCnt) + (LINE_WORDS - s.cache.fillRspCnt)
  | .wt | .wtMiss => if s.cache.wtReqFired then 1 else 2

def asks (s : Sys) : Bool := (memReq s.cache).valid

/-- A cycle brings the answer no further away; it brings it nearer when the memory does what it is asked for. -/
structure Nearer (mem₀ : Word → Word) (s : Sys) (x : Stim) : Prop where
  mono : rank (s.next mem₀ x) ≤ rank s
  grant : asks s = true → x.memReady = true → rank (s.next mem₀ x) < rank s
  reply : asks s = false → x.memAnswer = true → rank (s.next mem₀ x) < rank s
  asks : asks s = false → rank (s.next mem₀ x) = rank s → asks (s.next mem₀ x) = false

theorem nearer_of_lt (h : rank (s.next mem₀ x) < rank s) : Nearer mem₀ s x :=
  ⟨by omega, fun _ _ => h, fun _ _ => h, fun _ he => by omega⟩

theorem nearer_lookup (hs : s.cache.fsm = .lookup) : Nearer mem₀ s x := by
  refine nearer_of_lt ?_
  have hr : rank s = 100 := by simp [rank, hs]
  rw [hr]
  unfold rank
  cases hw : hitWay s.cache.rd s.cache.saved.addr with
  | some w =>
      cases he : s.cache.saved.wen
      · have hc : (s.next mem₀ x).cache = _ := step_read_hit hs hw he (i := s.input mem₀ x)
        rw [hc]
        simp
      · have hc : (s.next mem₀ x).cache = _ := step_write_hit hs hw he (i := s.input mem₀ x)
        rw [hc]
        simp
  | none =>
      have hc : (s.next mem₀ x).cache = _ := step_miss hs hw (i := s.input mem₀ x)
      rw [hc]
      simp [LINE_WORDS]

theorem nearer_write (h : Writing mem₀ s) (hs : s.cache.fsm = .wt ∨ s.cache.fsm = .wtMiss) : Nearer mem₀ s x := by
  have hc : (s.next mem₀ x).cache = _ := step_write hs (i := s.input mem₀ x)
  obtain ⟨hends, -, hpend⟩ := h.turn (x := x) hs
  have hask : asks s = !s.cache.wtReqFired := by rcases hs with hs | hs <;> simp [asks, memReq, hs]
  have hr : rank s = if s.cache.wtReqFired then 1 else 2 := by rcases hs with hs | hs <;> simp [rank, hs]
  cases hrv : (s.input mem₀ x).memRspValid
  · have hfsm : (s.next mem₀ x).cache.fsm = s.cache.fsm := by rw [hc]; simp [hends, hrv]
    have hfired : (s.next mem₀ x).cache.wtReqFired =
        (memReqFired s.cache (s.input mem₀ x) || s.cache.wtReqFired) := by rw [hc]
    have hr' : rank (s.next mem₀ x) = if (s.next mem₀ x).cache.wtReqFired then 1 else 2 := by
      rcases hs with hs | hs <;> simp [rank, hfsm, hs]
    have hask' : asks (s.next mem₀ x) = !(s.next mem₀ x).cache.wtReqFired := by
      rcases hs with hs | hs <;> simp [asks, memReq, hfsm, hs]
    have hmem : memReqFired s.cache (s.input mem₀ x) = (asks s && x.memReady) := rfl
    have hpending := h.pending
    cases hf : s.cache.wtReqFired
    · constructor
      · rw [hr', hr]
        split <;> simp [hf]
      · intro _ hready
        rw [hr', hr, hfired, hmem, hask, hf, hready]
        simp
      · intro ha
        rw [hask, hf] at ha
        simp at ha
      · intro ha
        rw [hask, hf] at ha
        simp at ha
    · rw [hf, if_pos rfl] at hpending
      obtain ⟨y, hy⟩ := hpending
      constructor
      · rw [hr', hr, hfired, hf]
        simp
      · intro ha
        rw [hask, hf] at ha
        simp at ha
      · -- the answer would have come
        intro _ hanswer
        simp [input, hy, hanswer] at hrv
      · intro _ _
        rw [hask', hfired, hf]
        simp
  · have hfsm : (s.next mem₀ x).cache.fsm = .done := by rw [hc]; simp [hends, hrv]
    refine nearer_of_lt ?_
    rw [hr]
    unfold rank
    rw [hfsm]
    simp only
    split <;> omega

theorem nearer_fill (h : Filling mem₀ s) (hs : s.cache.fsm = .fill) (hf : s.cache.fillFault = false) :
    Nearer mem₀ s x := by
  have hc : (s.next mem₀ x).cache = _ := step_fill hs hf (i := s.input mem₀ x)
  obtain ⟨h₁, h₂, h₃⟩ := h.counts
  obtain ⟨-, hle, hoff⟩ := h.offered hs hf (x := x)
  have hr : rank s = 3 + (LINE_WORDS - s.cache.fillReqCnt) + (LINE_WORDS - s.cache.fillRspCnt) := by simp [rank, hs]
  cases he : fillEnds s.cache (s.input mem₀ x)
  · have hfsm : (s.next mem₀ x).cache.fsm = .fill := by rw [hc]; simp [he]
    have hreq : (s.next mem₀ x).cache.fillReqCnt =
        if memReqFired s.cache (s.input mem₀ x) then s.cache.fillReqCnt + 1 else s.cache.fillReqCnt := by rw [hc]
    have hrsp : (s.next mem₀ x).cache.fillRspCnt = fillRspCntD s.cache (s.input mem₀ x) := by rw [hc]
    have hr' : rank (s.next mem₀ x) = 3 + (LINE_WORDS - (s.next mem₀ x).cache.fillReqCnt) +
        (LINE_WORDS - (s.next mem₀ x).cache.fillRspCnt) := by simp [rank, hfsm]
    have hask : asks s = decide (s.cache.fillReqCnt < LINE_WORDS) := by simp [asks, memReq_fill hs]
    have hask' : asks (s.next mem₀ x) = decide ((s.next mem₀ x).cache.fillReqCnt < LINE_WORDS) := by
      simp [asks, memReq_fill hfsm]
    have hge : s.cache.fillReqCnt ≤ (s.next mem₀ x).cache.fillReqCnt := by rw [hreq]; split <;> omega
    have hgersp : s.cache.fillRspCnt ≤ (s.next mem₀ x).cache.fillRspCnt := by
      rw [hrsp]
      unfold fillRspCntD
      split <;> omega
    constructor
    · omega
    · intro ha hready
      rw [hask, decide_eq_true_eq] at ha
      have hfire : memReqFired s.cache (s.input mem₀ x) = true := by
        simp [memReqFired, memReq_fill hs, ha, input, hready]
      rw [hfire, if_pos rfl] at hreq
      omega
    · intro ha hanswer
      rw [hask, decide_eq_false_iff_not] at ha
      have hv : (s.input mem₀ x).memRspValid = true := by
        have hne : s.pending ++ (s.reply mem₀ x).toList ≠ [] := by
          rw [hoff, beats_cons (by omega)]
          simp
        simp only [input, hanswer, Bool.true_and, Bool.not_eq_true', List.isEmpty_eq_false_iff]
        exact hne
      have hrsp' : fillRspCntD s.cache (s.input mem₀ x) = s.cache.fillRspCnt + 1 := by simp [fillRspCntD, hs, hv]
      omega
    · intro ha _
      rw [hask, decide_eq_false_iff_not] at ha
      rw [hask', decide_eq_false_iff_not]
      omega
  · refine nearer_of_lt ?_
    rw [hr]
    unfold rank
    rw [hc, he]
    cases s.cache.saved.wen
    · show 0 < _
      omega
    · show 2 < _
      omega

theorem Inv.nearer (h : Inv mem₀ s) (hr : 0 < rank s) : Nearer mem₀ s x := by
  have hp := h.phase
  unfold Phase at hp
  cases hs : s.cache.fsm <;> rw [hs] at hp
  · simp [rank, hs] at hr
  · exact nearer_lookup hs
  · exact nearer_write hp (Or.inl hs)
  · exact nearer_fill hp hs h.noFault
  · exact nearer_write hp (Or.inr hs)
  · simp [rank, hs] at hr

/-! ## Runs -/

variable {tag : Way → BitVec 6 → BitVec 20} {data : Way → BitVec 6 → BitVec 4 → Word} {rd : ReadRegs}
  {stim : Nat → Stim} {t u : Nat}

theorem inv_run (t : Nat) : Inv mem₀ (run mem₀ (start tag data rd) stim t) := by
  have hstart : Inv mem₀ (start tag data rd) := by
    refine ⟨rfl, ⟨fun _ _ hv => ?_, fun _ _ _ hv => ?_⟩, rfl, rfl, rfl⟩
    · simp [start, reset, Arrays.reset] at hv
    · simp [start, reset, Arrays.reset] at hv
  exact Sync.run_invariant (P := Inv mem₀) hstart (fun _ x h => h.next x) t

/-- A request is owed until the cache has an answer. -/
theorem owed_until (ht : (run mem₀ (start tag data rd) stim t).taken (stim t) = true) (htu : t < u)
    (hu : ∀ v, t < v → v < u → rank (run mem₀ (start tag data rd) stim v) ≠ 0) :
    (run mem₀ (start tag data rd) stim u).owed =
      [((stim t).req, (run mem₀ (start tag data rd) stim t).stores)] := by
  induction u, htu using Nat.le_induction with
  | base =>
      have hidle : (run mem₀ (start tag data rd) stim t).cache.fsm = .idle := by
        simp only [taken, coreReqReady, Bool.and_eq_true, beq_iff_eq] at ht
        exact ht.2
      have hp : Phase mem₀ (run mem₀ (start tag data rd) stim t) := (inv_run t).phase
      unfold Phase at hp
      rw [hidle] at hp
      have hans := not_answered (s := run mem₀ (start tag data rd) stim t) (by rw [hidle]; simp)
      unfold run at ht hp hans ⊢
      simp [Sync.run_succ, next, ht, hp.2.2.2, hans, InOrder.serve]
  | succ u htu ih =>
      have hown := ih fun v hv hvu => hu v hv (by omega)
      have hr := hu u htu (by omega)
      have hidle : (run mem₀ (start tag data rd) stim u).cache.fsm ≠ .idle := fun hc => hr (by simp [rank, hc])
      have hdone : (run mem₀ (start tag data rd) stim u).cache.fsm ≠ .done := fun hc => hr (by simp [rank, hc])
      have hnext := owed_next mem₀ (stim u) hidle hdone
      exact hnext.trans hown

/-- Every request is answered. -/
theorem answered_of_fair (hfair : Fair stim) (ht : (run mem₀ (start tag data rd) stim t).taken (stim t) = true) :
    ∃ u, t < u ∧ (run mem₀ (start tag data rd) stim u).answered = true ∧
      (run mem₀ (start tag data rd) stim u).owed =
        [((stim t).req, (run mem₀ (start tag data rd) stim t).stores)] := by
  have hnear : ∀ v, 0 < rank (run mem₀ (start tag data rd) stim v) →
      Nearer mem₀ (run mem₀ (start tag data rd) stim v) (stim v) := fun v hv => (inv_run v).nearer hv
  obtain ⟨w, hw⟩ : ∃ w, t + 1 ≤ w ∧ rank (run mem₀ (start tag data rd) stim w) = 0 := Sync.rank_reaches
    (fun v hv => (hnear v hv).mono) (fun v hv => (hnear v hv).grant) (fun v hv => (hnear v hv).reply)
    (fun v hv => (hnear v hv).asks) hfair.1 hfair.2 (t + 1)
  have hex : ∃ u, t + 1 ≤ u ∧ decide (rank (run mem₀ (start tag data rd) stim u) = 0) = true :=
    ⟨w, hw.1, by simpa using hw.2⟩
  obtain ⟨u, htu, hu, hmin⟩ := Sync.first_from hex
  have hown := owed_until (u := u) ht htu fun v hv hvu => by simpa using hmin v hv hvu
  refine ⟨u, htu, ?_, hown⟩
  have hp : Phase mem₀ (run mem₀ (start tag data rd) stim u) := (inv_run u).phase
  have hr : rank (run mem₀ (start tag data rd) stim u) = 0 := by simpa using hu
  unfold Phase at hp
  unfold rank at hr
  unfold answered coreRspValid
  cases hs : (run mem₀ (start tag data rd) stim u).cache.fsm
  · -- an idle cache owes nothing
    rw [hs] at hp
    rw [hp.2.2.2] at hown
    simp at hown
  · rw [hs] at hr; simp at hr
  · rw [hs] at hr; simp only at hr; split at hr <;> simp at hr
  · rw [hs] at hr; simp at hr
  · rw [hs] at hr; simp only at hr; split at hr <;> simp at hr
  · rfl

/-- Over any in-order memory the cache answers each read with the newest bytes stored before it, hands every store
on once and in order, and when it is idle all its lines are those of the memory; over a fair one it answers. -/
theorem transparent (mem₀ : Word → Word) (tag : Way → BitVec 6 → BitVec 20) (data : Way → BitVec 6 → BitVec 4 → Word)
    (rd : ReadRegs) (stim : Nat → Stim) (t : Nat) :
    (run mem₀ (start tag data rd) stim t).Answers mem₀ ∧
    (run mem₀ (start tag data rd) stim t).InStep ∧
    (run mem₀ (start tag data rd) stim t).IdleCoherent mem₀ ∧
    (Fair stim → (run mem₀ (start tag data rd) stim t).taken (stim t) = true →
      ∃ u, t < u ∧ (run mem₀ (start tag data rd) stim u).answered = true ∧
        (run mem₀ (start tag data rd) stim u).owed =
          [((stim t).req, (run mem₀ (start tag data rd) stim t).stores)]) :=
  ⟨(inv_run t).answers, (inv_run t).inStep, (inv_run t).idleCoherent, answered_of_fair⟩

def start₀ : Sys := start (fun _ _ => 0) (fun _ _ _ => 0) ⟨fun _ => 0, fun _ => false, fun _ => 0⟩

/-- A core that stores to a byte without pause, and a memory that takes and answers in every cycle. -/
def steadyStim : Stim := ⟨true, ⟨0x80000006, true, 0xAABBCCDD, 4⟩, true, true, 0⟩

theorem transparent_steady :
    ∃ u, 0 < u ∧ (run (fun _ => 0) start₀ (fun _ => steadyStim) u).answered = true ∧
      (run (fun _ => 0) start₀ (fun _ => steadyStim) u).owed = [(steadyStim.req, [])] :=
  (transparent (fun _ => 0) _ _ _ (fun _ => steadyStim) 0).2.2.2
    ⟨fun t => ⟨t, le_refl t, rfl⟩, fun t => ⟨t, le_refl t, rfl⟩⟩ rfl

end QinglongCore.Dcache
