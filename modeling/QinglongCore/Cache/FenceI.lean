import QinglongCore.Cache.Lemmas.IcacheWords
import QinglongCore.Isa.StoreLog
import QinglongCore.Pipeline.BusEffects
import QinglongCore.Pipeline.Lemmas.Words

/-!
# Coherence of instruction fetch across FENCE.I

The pipeline and its instruction cache over one memory with two ports. A store is performed between the cycle in
which the data port takes it and the one in which it is answered; a beat of a line fill is read between the same two
points on its port. Instructions behind a FENCE.I come from words read after the stores in front of it.
-/

namespace QinglongCore.FenceI

open CorePipeline Isa Cache

/-! ## The core and its cache over the memory -/

/-- What reset and the first load of the memory leave open. -/
structure Boot where
  resetPc : Word
  regs : RegFile
  tag : Way → BitVec 6 → BitVec 20
  data : Way → BitVec 6 → BitVec 4 → Word
  rd : ReadRegs
  mem₀ : Word → Word

/-- What is free in a cycle: the timing of both ports, the interrupt lines, the words that loads return, and the
data accesses that fault. -/
structure Stim where
  fillReady : Bool
  fillReads : Word → Bool
  fillAnswer : Bool
  dataReady : Bool
  dataPerforms : Bool
  dataAnswer : Bool
  dataRdata : Word
  dataFault : Bool
  dataPagefault : Bool
  ext : Ext

/-- The fill port owes `fills`, each address with the word last read for it. The data port owes an answer to each of
`accesses`; a store that is not performed yet is kept there with the cycle it was taken in. `log` holds the stores
that are performed, the newest first. -/
structure Sys where
  core : CorePipeline.State
  cache : Icache.State
  fills : List (Word × Word)
  accesses : List (Option (Nat × Store))
  log : List (Nat × Store)
  now : Nat

def start (b : Boot) : Sys where
  core := CorePipeline.reset b.resetPc b.regs
  cache := Icache.reset b.tag b.data b.rd
  fills := []
  accesses := []
  log := []
  now := 0

namespace Sys

variable (mem₀ : Word → Word) (s : Sys) (x : Stim)

def mem : Word → Word := written mem₀ (s.log.map Prod.snd)

/-! ### Fill port -/

def fillTakes : List (Word × Word) :=
  if Icache.memReqValid s.cache && x.fillReady then
    [(Icache.memReqAddr s.cache, s.mem mem₀ (Icache.memReqAddr s.cache))]
  else []

/-- The beats that are owed, some of them read in this cycle. -/
def fillQueue : List (Word × Word) :=
  s.fills.map (fun q => if x.fillReads q.1 then (q.1, s.mem mem₀ q.1) else q) ++ s.fillTakes mem₀ x

def fillAnswers : Bool := x.fillAnswer && !(s.fillQueue mem₀ x).isEmpty

/-! ### Data port -/

/-- The store that the core offers. -/
def store : Store := ⟨dmemReqAddr s.core, dmemReqWdata s.core, dmemReqWmask s.core⟩

def accessTakes : List (Option (Nat × Store)) :=
  if dmemReqValid s.core && x.dataReady then
    [if dmemReqWen s.core then some (s.now, s.store) else none]
  else []

def accessQueue : List (Option (Nat × Store)) := s.accesses ++ s.accessTakes x

def accessAnswers : Bool := x.dataAnswer && !(s.accessQueue x).isEmpty

/-- The oldest access is performed, at the latest with an answer that is no fault. -/
def performs : Bool := x.dataPerforms || (s.accessAnswers x && !x.dataFault)

def performed : List (Nat × Store) :=
  if s.performs x then ((s.accessQueue x).head?.bind id).toList else []

def accessesNext : List (Option (Nat × Store)) :=
  if s.accessAnswers x then (s.accessQueue x).tail
  else if s.performs x then
    match s.accessQueue x with
    | [] => []
    | _ :: q => none :: q
  else s.accessQueue x

/-! ### Wiring -/

def cacheIn : Icache.In where
  coreReqValid := ifetchReqValid s.core x.ext
  coreReqAddr := s.core.fetch.pc
  memReqReady := x.fillReady
  memRspValid := s.fillAnswers mem₀ x
  memRspData := ((s.fillQueue mem₀ x).headD (0, 0)).2
  memRspFault := false
  invalidate := wbIsFenceI s.core

def coreIn : CorePipeline.In where
  ifetchReqReady := Icache.coreReqReady s.cache (s.cacheIn mem₀ x)
  ifetchRspValid := Icache.coreRspValid s.cache
  ifetchRspData := Icache.coreRspData s.cache
  ifetchRspFault := Icache.coreRspFault s.cache
  ifetchRspPagefault := false
  dmemReqReady := x.dataReady
  dmemRspValid := s.accessAnswers x
  dmemRspRdata := x.dataRdata
  dmemRspFault := x.dataFault
  dmemRspPagefault := x.dataPagefault
  ext := x.ext

def next : Sys where
  core := CorePipeline.step s.core (s.coreIn mem₀ x)
  cache := Icache.step s.cache (s.cacheIn mem₀ x)
  fills := if s.fillAnswers mem₀ x then (s.fillQueue mem₀ x).tail else s.fillQueue mem₀ x
  accesses := s.accessesNext x
  log := s.performed x ++ s.log
  now := s.now + 1

end Sys

def run (b : Boot) (stim : Nat → Stim) : Nat → Sys := Sync.run (Sys.next b.mem₀) (start b) stim

/-- The inputs of the core in a run. -/
def inputs (b : Boot) (stim : Nat → Stim) (t : Nat) : CorePipeline.In := (run b stim t).coreIn b.mem₀ (stim t)

/-- The names of the instructions in the pipe. -/
def names (b : Boot) (stim : Nat → Stim) : Nat → Births := births b.resetPc b.regs (inputs b stim)

/-! ## Statement -/

/-- The instruction that retires has stored: a store, an AMO or an SC that did not fail. -/
def stores (w : MemWb) : Bool :=
  Decode.isStore w.instr || Decode.isAmoRmw w.instr || (Decode.isSc w.instr && w.result == 0#32)

/-- The instruction in WB in cycle `u` is the word that the memory held at its pc in some earlier cycle, and by then
every store of an instruction that had retired before cycle `t` was performed. -/
def Reflects (b : Boot) (stim : Nat → Stim) (t u : Nat) : Prop :=
  ∃ v, v ≤ u ∧ (run b stim u).core.wb.instr = (run b stim v).mem b.mem₀ (wordAddr (run b stim u).core.wb.pc) ∧
    ∀ w, w < t → retireWb (run b stim w).core = true → stores (run b stim w).core.wb = true →
      ∃ q ∈ (run b stim v).log, (names b stim q.1).mem = (names b stim w).wb

variable {b : Boot} {stim : Nat → Stim} {mem₀ : Word → Word} {s : Sys} {x : Stim} {t u : Nat}

theorem core_run (t : Nat) : (run b stim t).core = CorePipeline.run b.resetPc b.regs (inputs b stim) t := by
  induction t with
  | zero => rfl
  | succ t ih =>
      show CorePipeline.step (run b stim t).core (inputs b stim t) = _
      rw [ih]
      rfl

/-! ## The core and the cache in step -/

/-- A fetch is in flight exactly while the cache works on it. -/
structure Lockstep (s : Sys) : Prop where
  inflight : s.core.fetch.inflight = (s.cache.fsm != .idle)
  addr : s.core.fetch.inflight = true → s.cache.savedAddr = s.core.fetch.inflightPc
  fills : s.fills.map Prod.fst =
    if s.cache.fsm = .fill then beats s.cache.savedAddr s.cache.fillRspCnt s.cache.fillReqCnt else []
  counts : s.cache.fsm = .fill → s.cache.fillRspCnt ≤ s.cache.fillReqCnt ∧ s.cache.fillReqCnt ≤ LINE_WORDS

theorem wbIsFenceI_redirect {c : CorePipeline.State} (h : wbIsFenceI c = true) : wbRedirect c = true := by
  have hv : c.wb.valid = true := by
    simp only [wbIsFenceI, Bool.and_eq_true] at h
    exact h.1.1.1
  simp [wbRedirect, hv, h]

/-- No request is offered while the invalidate line is raised, so core and cache agree on what is accepted. -/
theorem accept_eq : ifetchAccept s.core (s.coreIn mem₀ x) = Icache.acceptReq s.cache (s.cacheIn mem₀ x) := by
  have hext : (s.coreIn mem₀ x).ext = x.ext := rfl
  have hrdy : (s.coreIn mem₀ x).ifetchReqReady = (s.cache.fsm == .idle && !wbIsFenceI s.core) := rfl
  have hreq : (s.cacheIn mem₀ x).coreReqValid = ifetchReqValid s.core x.ext := rfl
  unfold ifetchAccept Icache.acceptReq
  rw [hext, hrdy, hreq]
  cases hv : ifetchReqValid s.core x.ext
  · simp
  · have hf : wbIsFenceI s.core = false := by
      cases hf : wbIsFenceI s.core
      · rfl
      · have hw := wbIsFenceI_redirect hf
        simp [ifetchReqValid, ifCanIssue, hw] at hv
    simp [hf]

theorem fillQueue_addrs : (s.fillQueue mem₀ x).map Prod.fst =
    s.fills.map Prod.fst ++ (s.fillTakes mem₀ x).map Prod.fst := by
  simp only [Sys.fillQueue, List.map_append, List.map_map]
  congr 1
  refine List.map_congr_left fun q _ => ?_
  simp only [Function.comp]
  split <;> rfl

theorem fillQueue_idle (h : Lockstep s) (hs : s.cache.fsm ≠ .fill) : s.fillQueue mem₀ x = [] := by
  have hf : s.fills = [] := by
    have hf := h.fills
    rw [if_neg hs] at hf
    exact List.map_eq_nil_iff.mp hf
  simp [Sys.fillQueue, Sys.fillTakes, Icache.memReqValid, hf, hs]

section Fill

variable (h : Lockstep s) (hs : s.cache.fsm = .fill)
include h hs

/-- What the fill port may answer: the beats that it has taken, with that of this cycle. -/
theorem Lockstep.offered (mem₀ : Word → Word) (x : Stim) :
    s.cache.fillRspCnt ≤ (s.next mem₀ x).cache.fillReqCnt ∧
    (s.next mem₀ x).cache.fillReqCnt ≤ LINE_WORDS ∧
    (s.fillQueue mem₀ x).map Prod.fst =
      beats s.cache.savedAddr s.cache.fillRspCnt (s.next mem₀ x).cache.fillReqCnt := by
  obtain ⟨h₁, h₂⟩ := h.counts hs
  have hreq : (s.next mem₀ x).cache.fillReqCnt =
      if Icache.memReqValid s.cache && x.fillReady then s.cache.fillReqCnt + 1 else s.cache.fillReqCnt := by
    have hst : (s.next mem₀ x).cache = _ := @Icache.step_fill s.cache (s.cacheIn mem₀ x) hs
    rw [hst]
    rfl
  have hf := h.fills
  rw [if_pos hs] at hf
  rw [fillQueue_addrs, hf, hreq]
  cases htk : Icache.memReqValid s.cache && x.fillReady
  · simp [Sys.fillTakes, htk, h₁, h₂]
  · simp only [Sys.fillTakes, htk, ↓reduceIte, List.map_cons, List.map_nil]
    simp only [Icache.memReqValid, hs, beq_self_eq_true, Bool.true_and, Bool.and_eq_true, decide_eq_true_eq] at htk
    rw [beats_succ h₁]
    exact ⟨by omega, by omega, rfl⟩

/-- A beat that is answered is the next one of the fill. -/
theorem Lockstep.beat (hv : s.fillAnswers mem₀ x = true) : ∃ q l, s.fillQueue mem₀ x = q :: l ∧
    q.1 = beatAddr s.cache.savedAddr s.cache.fillRspCnt ∧
    s.cache.fillRspCnt < (s.next mem₀ x).cache.fillReqCnt ∧
    l.map Prod.fst = beats s.cache.savedAddr (s.cache.fillRspCnt + 1) (s.next mem₀ x).cache.fillReqCnt := by
  obtain ⟨-, -, hq⟩ := h.offered hs mem₀ x
  cases hl : s.fillQueue mem₀ x with
  | nil => simp [Sys.fillAnswers, hl] at hv
  | cons q l =>
      rw [hl, List.map_cons] at hq
      have hne : beats s.cache.savedAddr s.cache.fillRspCnt (s.next mem₀ x).cache.fillReqCnt ≠ [] := by
        rw [← hq]
        simp
      have hlt := lt_of_beats hne
      rw [beats_cons hlt, List.cons.injEq] at hq
      exact ⟨q, l, rfl, hq.1, hlt, hq.2⟩

theorem Lockstep.fills_fill (mem₀ : Word → Word) (x : Stim) : (s.next mem₀ x).fills.map Prod.fst =
      beats s.cache.savedAddr (Icache.fillRspCntD s.cache (s.cacheIn mem₀ x)) (s.next mem₀ x).cache.fillReqCnt ∧
    Icache.fillRspCntD s.cache (s.cacheIn mem₀ x) ≤ (s.next mem₀ x).cache.fillReqCnt ∧
    (s.next mem₀ x).cache.fillReqCnt ≤ LINE_WORDS := by
  obtain ⟨h₁, h₂, hq⟩ := h.offered hs mem₀ x
  have hin : (s.cacheIn mem₀ x).memRspValid = s.fillAnswers mem₀ x := rfl
  have hfills : (s.next mem₀ x).fills =
      if s.fillAnswers mem₀ x then (s.fillQueue mem₀ x).tail else s.fillQueue mem₀ x := rfl
  unfold Icache.fillRspCntD
  rw [hfills, hin, hs]
  cases hv : s.fillAnswers mem₀ x
  · exact ⟨hq, h₁, h₂⟩
  · obtain ⟨q, l, hl, -, hlt, hl'⟩ := h.beat hs hv
    rw [hl]
    exact ⟨hl', hlt, h₂⟩

end Fill

theorem lockstep_start (b : Boot) : Lockstep (start b) := by
  constructor <;> simp [start, CorePipeline.reset, Icache.reset]

/-- Outside a fill nothing is owed by the fill port afterwards. -/
theorem fills_next_idle (mem₀ : Word → Word) (x : Stim) (h : Lockstep s) (hs : s.cache.fsm ≠ .fill) : (s.next mem₀ x).fills = [] := by
  have hq : s.fillQueue mem₀ x = [] := fillQueue_idle h hs
  have hfills : (s.next mem₀ x).fills =
      if s.fillAnswers mem₀ x then (s.fillQueue mem₀ x).tail else s.fillQueue mem₀ x := rfl
  rw [hfills, hq]
  simp

/-- A fetch stays in flight until the cache answers it. -/
theorem inflight_keep (mem₀ : Word → Word) (x : Stim) (h : Lockstep s) (hs : s.cache.fsm ≠ .idle) (hd : s.cache.fsm ≠ .done) :
    (s.next mem₀ x).core.fetch.inflight = true ∧
      (s.next mem₀ x).core.fetch.inflightPc = s.core.fetch.inflightPc ∧ s.core.fetch.inflight = true := by
  have hin : s.core.fetch.inflight = true := by rw [h.inflight]; simpa using hs
  have hacc : ifetchAccept s.core (s.coreIn mem₀ x) = false := ifetchAccept_false_of_inflight hin
  have hrsp : (s.coreIn mem₀ x).ifetchRspValid = false := by
    show (s.cache.fsm == .done) = false
    simpa using hd
  have hst : (s.next mem₀ x).core.fetch = fetchNext s.core (s.coreIn mem₀ x) := rfl
  rw [hst]
  exact ⟨by simp [fetchNext, hacc, rspArriving, hin, hrsp], by simp [fetchNext, hacc], hin⟩

theorem lockstep_step (h : Lockstep s) (x : Stim) : Lockstep (s.next mem₀ x) := by
  have hcache : (s.next mem₀ x).cache = Icache.step s.cache (s.cacheIn mem₀ x) := rfl
  have hfetch : (s.next mem₀ x).core.fetch = fetchNext s.core (s.coreIn mem₀ x) := rfl
  cases hs : s.cache.fsm with
  | idle =>
      have hne : s.cache.fsm ≠ .fill := by rw [hs]; simp
      have hin : s.core.fetch.inflight = false := by rw [h.inflight, hs]; rfl
      have hacc : ifetchAccept s.core (s.coreIn mem₀ x) = (s.cacheIn mem₀ x).coreReqValid := by
        rw [accept_eq]
        simp [Icache.acceptReq, hs]
      have hfills := fills_next_idle mem₀ x h hne
      cases hv : (s.cacheIn mem₀ x).coreReqValid
      · have hst := Icache.step_stay hs hv
        constructor
        · rw [hcache, hfetch, hst]
          simp [fetchNext, hacc, hv, hin, hs]
        · rw [hfetch]
          simp [fetchNext, hacc, hv, hin]
        · rw [hfills, hcache, hst]
          simp [hs]
        · rw [hcache, hst]
          simp [hs]
      · have hst := Icache.step_accept hs hv
        constructor
        · rw [hcache, hfetch, hst]
          simp [fetchNext, hacc, hv]
        · rw [hcache, hfetch, hst]
          intro _
          simp only [fetchNext, hacc, hv, ↓reduceIte]
          rfl
        · rw [hfills, hcache, hst]
          simp
        · rw [hcache, hst]
          simp
  | lookup =>
      have hne : s.cache.fsm ≠ .fill := by rw [hs]; simp
      obtain ⟨hin', hpc, hin⟩ := inflight_keep mem₀ x h (by rw [hs]; simp) (by rw [hs]; simp)
      have hfills := fills_next_idle mem₀ x h hne
      cases hw : hitWay s.cache.rd s.cache.savedAddr with
      | some w =>
          have hst := @Icache.step_hit s.cache (s.cacheIn mem₀ x) w hs hw
          constructor
          · rw [hin', hcache, hst]
            rfl
          · rw [hpc, hcache, hst]
            exact fun _ => h.addr hin
          · rw [hfills, hcache, hst]
            simp
          · rw [hcache, hst]
            simp
      | none =>
          have hst := @Icache.step_miss s.cache (s.cacheIn mem₀ x) hs hw
          constructor
          · rw [hin', hcache, hst]
            rfl
          · rw [hpc, hcache, hst]
            exact fun _ => h.addr hin
          · rw [hfills, hcache, hst]
            simp [beats_self]
          · rw [hcache, hst]
            simp [LINE_WORDS]
  | fill =>
      obtain ⟨hin', hpc, hin⟩ := inflight_keep mem₀ x h (by rw [hs]; simp) (by rw [hs]; simp)
      obtain ⟨hfills, h₁, h₂⟩ := h.fills_fill hs mem₀ x
      have hst := @Icache.step_fill s.cache (s.cacheIn mem₀ x) hs
      have hcnt : (s.next mem₀ x).cache.fillRspCnt = Icache.fillRspCntD s.cache (s.cacheIn mem₀ x) := by
        rw [hcache, hst]
      have haddr : (s.next mem₀ x).cache.savedAddr = s.cache.savedAddr := by rw [hcache, hst]
      cases he : Icache.fillEnds s.cache (s.cacheIn mem₀ x)
      · have hfsm : (s.next mem₀ x).cache.fsm = .fill := by rw [hcache, hst]; simp [he]
        constructor
        · rw [hin', hfsm]; rfl
        · rw [hpc, haddr]
          exact fun _ => h.addr hin
        · rw [if_pos hfsm, hcnt, haddr]
          exact hfills
        · rw [hcnt]
          exact fun _ => ⟨h₁, h₂⟩
      · have hfsm : (s.next mem₀ x).cache.fsm = .done := by rw [hcache, hst]; simp [he]
        have hend : Icache.fillRspCntD s.cache (s.cacheIn mem₀ x) = LINE_WORDS := by
          simpa [Icache.fillEnds, hs] using he
        constructor
        · rw [hin', hfsm]; rfl
        · rw [hpc, haddr]
          exact fun _ => h.addr hin
        · have hreq : (s.next mem₀ x).cache.fillReqCnt = LINE_WORDS := by omega
          rw [if_neg (by rw [hfsm]; simp), hfills, hend, hreq, beats_self]
        · rw [hfsm]
          simp
  | done =>
      have hne : s.cache.fsm ≠ .fill := by rw [hs]; simp
      have hin : s.core.fetch.inflight = true := by rw [h.inflight, hs]; rfl
      have hacc : ifetchAccept s.core (s.coreIn mem₀ x) = false := ifetchAccept_false_of_inflight hin
      have hrsp : (s.coreIn mem₀ x).ifetchRspValid = true := by
        show (s.cache.fsm == .done) = true
        rw [hs]; rfl
      have hin' : (s.next mem₀ x).core.fetch.inflight = false := by
        rw [hfetch]
        simp [fetchNext, hacc, rspArriving, hin, hrsp]
      have hst := @Icache.step_done s.cache (s.cacheIn mem₀ x) hs
      constructor
      · rw [hin', hcache, hst]; rfl
      · rw [hin']; simp
      · rw [fills_next_idle mem₀ x h hne, hcache, hst]
        simp
      · rw [hcache, hst]
        simp

theorem lockstep_run (t : Nat) : Lockstep (run b stim t) :=
  Sync.run_invariant (lockstep_start b) (fun _ x h => lockstep_step h x) t

/-! ## No fetch faults -/

theorem filled_any_run (t : Nat) : Icache.Filled (fun _ _ => True) (run b stim t).cache := by
  have hstart : Icache.Filled (fun _ _ => True) (start b).cache := by
    constructor <;> simp [start, Icache.reset]
  exact Sync.run_invariant (P := fun s : Sys => Icache.Filled (fun _ _ => True) s.cache) hstart
    (fun _ _ h => Icache.filled_step rfl (fun _ _ => trivial) h) t

theorem spaced_core (t : Nat) : Spaced (run b stim t).core := by
  rw [core_run]
  exact spaced_run t

theorem unfaulted_core (t : Nat) : Unfaulted (run b stim t).core := by
  induction t with
  | zero => exact unfaulted_reset _ _
  | succ t ih =>
      refine unfaulted_step (spaced_core t) ih fun hr => ?_
      simp only [rspConsumable, rspArriving, Bool.and_eq_true] at hr
      have hd : (run b stim t).cache.fsm = .done := by
        have hv : ((run b stim t).cache.fsm == .done) = true := hr.1.2
        simpa using hv
      show (Icache.coreRspFault (run b stim t).cache || false) = false
      cases hh : (run b stim t).cache.rspHit
      · simp [Icache.coreRspFault, hh, ((filled_any_run t).done hd hh).1]
      · simp [Icache.coreRspFault, hh]

/-! ## The data port -/

/-- A store of instruction `r` is performed before cycle `t`. -/
def Stored (b : Boot) (stim : Nat → Stim) (t r : Nat) : Prop := ∃ q ∈ (run b stim t).log, (names b stim q.1).mem = r

/-- The beat in MEM, or the last one, writes. -/
def writes (m : ExMem) : Bool := m.isStore || (m.isSc && !m.hasResult) || (m.isAmoRmw && m.amoPhase)

/-- What the data port owes is the access of the instruction in MEM. -/
def Owes (b : Boot) (stim : Nat → Stim) (t : Nat) (e : Option (Nat × Store)) : Prop :=
  (∀ q, e = some q → (names b stim q.1).mem = (names b stim t).mem) ∧
    (dmemReqWen (run b stim t).core = true → e = none → Stored b stim t (names b stim t).mem)

structure Ported (b : Boot) (stim : Nat → Stim) (t : Nat) : Prop where
  owed : (run b stim t).core.bus.reqFired = false ∧ (run b stim t).accesses = [] ∨
    (run b stim t).core.bus.reqFired = true ∧ ∃ e, (run b stim t).accesses = [e] ∧ Owes b stim t e
  done : (run b stim t).core.mem.valid = true → (run b stim t).core.mem.lsPending = false →
    writes (run b stim t).core.mem = true → (run b stim t).core.bus.busFault = false →
    Stored b stim t (names b stim t).mem

theorem ported_zero : Ported b stim 0 where
  owed := Or.inl ⟨rfl, rfl⟩
  done hv := by simp [run, start, CorePipeline.reset] at hv

theorem now_run (t : Nat) : (run b stim t).now = t := by
  induction t with
  | zero => rfl
  | succ t ih =>
      show (run b stim t).now + 1 = t + 1
      rw [ih]

theorem log_mono (htu : t ≤ u) {q : Nat × Store} (hq : q ∈ (run b stim t).log) : q ∈ (run b stim u).log := by
  induction u, htu using Nat.le_induction with
  | base => exact hq
  | succ u _ ih => exact List.mem_append_right _ ih

theorem Stored.mono {r : Nat} (h : Stored b stim t r) (htu : t ≤ u) : Stored b stim u r := by
  obtain ⟨q, hq, hn⟩ := h
  exact ⟨q, log_mono htu hq, hn⟩

/-- The queue of the data port holds the access that MEM makes or has made, if there is one. -/
theorem Ported.queue (h : Ported b stim t) :
    ((run b stim t).core.bus.reqFired = false ∧ dmemAccept (run b stim t).core (inputs b stim t) = false ∧
      (run b stim t).accessQueue (stim t) = []) ∨
    (memBusy (run b stim t).core = true ∧
      ((run b stim t).core.bus.reqFired = true ∨ dmemAccept (run b stim t).core (inputs b stim t) = true) ∧
      ∃ e, (run b stim t).accessQueue (stim t) = [e] ∧ Owes b stim t e) := by
  have hacc : dmemAccept (run b stim t).core (inputs b stim t) =
      (dmemReqValid (run b stim t).core && (stim t).dataReady) := rfl
  rcases h.owed with ⟨hf, ho⟩ | ⟨hf, e, ho, he⟩
  · cases ha : dmemAccept (run b stim t).core (inputs b stim t)
    · left
      refine ⟨hf, rfl, ?_⟩
      rw [hacc] at ha
      simp [Sys.accessQueue, Sys.accessTakes, ho, ha]
    · right
      obtain ⟨hv, hl, -⟩ := dmemAccept_elim ha
      rw [hacc] at ha
      refine ⟨by simp [memBusy, hv, hl], Or.inr rfl,
        if dmemReqWen (run b stim t).core then some ((run b stim t).now, (run b stim t).store) else none, ?_, ?_, ?_⟩
      · simp [Sys.accessQueue, Sys.accessTakes, ho, ha]
      · intro q hq
        split at hq
        · simp only [Option.some.injEq] at hq
          rw [← hq, now_run]
        · simp at hq
      · intro hwen hnone
        simp [hwen] at hnone
  · right
    have ha : dmemReqValid (run b stim t).core = false := by simp [dmemReqValid, hf]
    exact ⟨(spaced_core t).fired_busy hf, Or.inl hf, e, by simp [Sys.accessQueue, Sys.accessTakes, ho, ha], he⟩

theorem Ported.matched (h : Ported b stim t) : Matched b.resetPc b.regs (inputs b stim) t := by
  intro hr
  rw [← core_run]
  rcases h.queue with ⟨-, -, hq⟩ | ⟨-, hm, -⟩
  · have hv : (run b stim t).accessAnswers (stim t) = true := hr
    simp [Sys.accessAnswers, hq] at hv
  · exact hm

theorem names_mem (t : Nat) : (names b stim (t + 1)).mem =
    if stallMem (run b stim t).core then (names b stim t).mem else (names b stim t).ex := by
  rw [core_run]
  rfl

theorem names_wb (t : Nat) : (names b stim (t + 1)).wb = (names b stim t).mem := rfl

/-- The access at the head of the queue, if it is a store, is logged when it is performed. -/
theorem Owes.performed {e : Option (Nat × Store)} (h : Owes b stim t e)
    (hq : (run b stim t).accessQueue (stim t) = [e]) (hp : (run b stim t).performs (stim t) = true)
    (hw : dmemReqWen (run b stim t).core = true) : Stored b stim (t + 1) (names b stim t).mem := by
  cases e with
  | none => exact (h.2 hw rfl).mono (by omega)
  | some q =>
      refine ⟨q, ?_, h.1 q rfl⟩
      have hlog : (run b stim (t + 1)).log = (run b stim t).performed (stim t) ++ (run b stim t).log := rfl
      rw [hlog]
      simp [Sys.performed, hp, hq]

theorem Ported.owed_next (h : Ported b stim t) :
    (run b stim (t + 1)).core.bus.reqFired = false ∧ (run b stim (t + 1)).accesses = [] ∨
      (run b stim (t + 1)).core.bus.reqFired = true ∧
        ∃ e, (run b stim (t + 1)).accesses = [e] ∧ Owes b stim (t + 1) e := by
  have hbus : (run b stim (t + 1)).core.bus = busNext (run b stim t).core (inputs b stim t) := rfl
  have hnext : (run b stim (t + 1)).accesses = (run b stim t).accessesNext (stim t) := rfl
  have hrsp : memRspThisCycle (run b stim t).core (inputs b stim t) =
    (memBusy (run b stim t).core && (run b stim t).accessAnswers (stim t)) := rfl
  rw [hbus, hnext]
  rcases h.queue with ⟨hf, ha, hq⟩ | ⟨hb, hm, e, hq, he⟩
  · left
    have hans : (run b stim t).accessAnswers (stim t) = false := by simp [Sys.accessAnswers, hq]
    refine ⟨?_, by simp [Sys.accessesNext, hans, hq]⟩
    simp [busNext, hrsp, hans, ha, hf]
  · have hv : (run b stim t).core.mem.valid = true := by
      simp only [memBusy, Bool.and_eq_true] at hb
      exact hb.1
    have hw : wbRedirect (run b stim t).core = false := by
      cases hw : wbRedirect (run b stim t).core
      · rfl
      · rw [(unfaulted_core t).mem_empty (spaced_core t) hw] at hv; simp at hv
    have hst : stallMem (run b stim t).core = true := by simp [stallMem, hb]
    cases hans : (run b stim t).accessAnswers (stim t)
    · right
      have hrsp' : memRspThisCycle (run b stim t).core (inputs b stim t) = false := by rw [hrsp, hans, Bool.and_false]
      have hfired : (busNext (run b stim t).core (inputs b stim t)).reqFired = true := by
        rcases hm with hf | ha
        · simp [busNext, hw, hrsp', hf]
        · simp [busNext, hw, hrsp', ha]
      refine ⟨hfired, ?_⟩
      -- the access goes on; nothing in MEM has changed
      have hmem : (run b stim (t + 1)).core.mem = (run b stim t).core.mem := by
        have hm' : (run b stim (t + 1)).core.mem = memHold (run b stim t).core (inputs b stim t) :=
          memNext_of_stall hw hst
        rw [hm']
        simp [memHold, hrsp']
      have hname : (names b stim (t + 1)).mem = (names b stim t).mem := by rw [names_mem, hst, if_pos rfl]
      have hwen : dmemReqWen (run b stim (t + 1)).core = dmemReqWen (run b stim t).core := by
        simp [dmemReqWen, memIsStoreOp, memAmoStoreBeat, hmem]
      cases hp : (run b stim t).performs (stim t)
      · refine ⟨e, by simp [Sys.accessesNext, hans, hp, hq], ?_, ?_⟩
        · rw [hname]
          exact he.1
        · rw [hname, hwen]
          exact fun hw hn => (he.2 hw hn).mono (by omega)
      · refine ⟨none, by simp [Sys.accessesNext, hans, hp, hq], by simp, ?_⟩
        rw [hname, hwen]
        exact fun hw _ => he.performed hq hp hw
    · left
      refine ⟨?_, by simp [Sys.accessesNext, hans, hq]⟩
      simp [busNext, hw, hrsp, hb, hans]

theorem Ported.done_next (h : Ported b stim t) (hv : (run b stim (t + 1)).core.mem.valid = true)
    (hl : (run b stim (t + 1)).core.mem.lsPending = false) (hwr : writes (run b stim (t + 1)).core.mem = true)
    (hf : (run b stim (t + 1)).core.bus.busFault = false) : Stored b stim (t + 1) (names b stim (t + 1)).mem := by
  have hbus : (run b stim (t + 1)).core.bus = busNext (run b stim t).core (inputs b stim t) := rfl
  have hmem : (run b stim (t + 1)).core.mem = memNext (run b stim t).core (inputs b stim t) := rfl
  rw [hbus] at hf
  rw [hmem] at hl hwr
  rw [names_mem]
  obtain ⟨hw, ⟨hst, hm, he⟩ | ⟨hse, hx, he⟩⟩ := @memNext_valid (run b stim t).core (inputs b stim t) hv
  · rw [if_pos hst]
    rw [he] at hl hwr
    cases hr : memRspThisCycle (run b stim t).core (inputs b stim t)
    · have hh : memHold (run b stim t).core (inputs b stim t) = (run b stim t).core.mem := by simp [memHold, hr]
      rw [hh] at hl hwr
      refine (h.done hm hl hwr ?_).mono (by omega)
      simpa [busNext, hw, hst, hr] using hf
    · -- the answer ends the access, which it performs at the latest
      have hok : (stim t).dataFault = false := by
        have hfault : (inputs b stim t).dmemRspFault = (stim t).dataFault := rfl
        simpa [busNext, hw, hst, hr, hfault] using hf
      have hans : (run b stim t).accessAnswers (stim t) = true := (memRspThisCycle_elim hr).2.2
      have hwen : dmemReqWen (run b stim t).core = true := by
        have hh : writes (run b stim t).core.mem = true := by
          unfold memHold at hl hwr
          rw [if_pos hr] at hl hwr
          split at hl
          · rw [(memRspThisCycle_elim hr).2.1] at hl; simp at hl
          · next hturn =>
              rw [if_neg hturn] at hwr
              exact hwr
        simp only [writes, Bool.or_eq_true, Bool.and_eq_true] at hh
        simp only [dmemReqWen, memIsStoreOp, memAmoStoreBeat, Bool.or_eq_true, Bool.and_eq_true]
        exact hh.imp (fun hh => hh.imp id And.left) id
      rcases h.queue with ⟨-, -, hq⟩ | ⟨-, -, e, hq, ho⟩
      · simp [Sys.accessAnswers, hq] at hans
      · exact ho.performed hq (by simp [Sys.performs, hans, hok]) hwen
  · exfalso
    rw [he] at hl hwr
    obtain ⟨h₁, h₂, h₃, -, -⟩ := memAdvance_idle hl
    cases hs : (memAdvance (run b stim t).core).isSc
    · simp [writes, h₁, h₃, hs] at hwr
    · simp [writes, h₁, h₃, h₂ hs] at hwr

theorem ported_run (t : Nat) : Ported b stim t := by
  induction t with
  | zero => exact ported_zero
  | succ t ih => exact ⟨ih.owed_next, ih.done_next⟩

/-- What retires as a store has stored. -/
theorem stored_of_retired (hr : retireWb (run b stim t).core = true)
    (hs : stores (run b stim t).core.wb = true) : Stored b stim t (names b stim t).wb := by
  rcases t with _ | t
  · simp [retireWb, run, start, CorePipeline.reset] at hr
  have hmt : ∀ v, v < t + 1 → Matched b.resetPc b.regs (inputs b stim) v := fun v _ => (ported_run v).matched
  have htr : Tracked b.resetPc b.regs (inputs b stim) t := tracked_run fun v hv => hmt v (by omega)
  simp only [retireWb, Bool.and_eq_true, Bool.not_eq_true'] at hr
  obtain ⟨-, hm, hsm, he⟩ := @wbNext_valid (run b stim t).core hr.1
  have hwb : (run b stim (t + 1)).core.wb = MemWb.ofMem (run b stim t).core.mem (run b stim t).core.bus := he
  rw [hwb] at hr hs
  have hl : Leaves (run b stim t).core := ⟨hm, hsm, hr.2⟩
  have hsp : Spaced (run b stim t).core := spaced_core t
  have hfrom := hsp.mem_origin hm
  obtain ⟨-, hst, -, hsc, ha⟩ := hfrom.flags (hl.trap hsp)
  have hfaulted := htr.faulted
  rw [← core_run] at hfaulted
  simp only [stores, ofMem_instr, ← hst, ← hsc, ← ha, Bool.or_eq_true, Bool.and_eq_true, beq_iff_eq] at hs
  have hwr : writes (run b stim t).core.mem = true ∧ (run b stim t).core.mem.hasResult = false := by
    rcases hs with (hs | hs) | ⟨hs, hz⟩
    · exact ⟨by simp [writes, hs], hfrom.store hs⟩
    · refine ⟨?_, (hfrom.amo hs).2.2.2.2⟩
      simp [writes, hs, hl.amoPhase hsp hs (hfaulted hm)]
    · rw [hl.sc_result hsp hs] at hz
      have hres : (run b stim t).core.mem.hasResult = false := by
        cases hres : (run b stim t).core.mem.hasResult
        · rfl
        · simp [hres] at hz
      exact ⟨by simp [writes, hs, hres], hres⟩
  have hop : (run b stim t).core.mem.hasBusOp = true := by
    simp only [writes, Bool.or_eq_true, Bool.and_eq_true] at hwr
    simp only [ExMem.hasBusOp, Bool.or_eq_true]
    rcases hwr.1 with (h | h) | h
    · simp [h]
    · simp [h.1]
    · simp [h.1]
  rw [names_wb]
  exact ((ported_run t).done hm hl.lsPending hwr.1 (hl.unfaulted hop hwr.2).2).mono (by omega)

/-! ## Words read since a cycle -/

section Since

/-- The memory held `x` at `a` in a cycle from `c` up to `u`. -/
def Since (b : Boot) (stim : Nat → Stim) (c u : Nat) (a x : Word) : Prop :=
  ∃ v, c ≤ v ∧ v ≤ u ∧ x = (run b stim v).mem b.mem₀ a

variable {P : Word → Word → Prop}

theorem fillQueue_values (hmem : ∀ a, P a (s.mem mem₀ a)) (h : ∀ q ∈ s.fills, P q.1 q.2) :
    ∀ q ∈ s.fillQueue mem₀ x, P q.1 q.2 := by
  intro q hq
  simp only [Sys.fillQueue, List.mem_append, List.mem_map] at hq
  rcases hq with ⟨q', hq', rfl⟩ | hq
  · split
    · exact hmem q'.1
    · exact h q' hq'
  · unfold Sys.fillTakes at hq
    split at hq
    · simp only [List.mem_singleton] at hq
      rw [hq]
      exact hmem _
    · simp at hq

/-- What the cache has taken in, and what it will be answered. -/
structure Taken (P : Word → Word → Prop) (s : Sys) : Prop where
  fills : ∀ q ∈ s.fills, P q.1 q.2
  filled : Icache.Filled P s.cache

theorem Taken.beat (h : Taken P s) (hl : Lockstep s) (hmem : ∀ a, P a (s.mem mem₀ a)) (hs : s.cache.fsm = .fill)
    (hv : (s.cacheIn mem₀ x).memRspValid = true) :
    P (beatAddr s.cache.savedAddr s.cache.fillRspCnt) (s.cacheIn mem₀ x).memRspData := by
  obtain ⟨q, l, hq, ha, -⟩ := hl.beat hs (x := x) hv
  have hdata : (s.cacheIn mem₀ x).memRspData = ((s.fillQueue mem₀ x).headD (0, 0)).2 := rfl
  rw [hdata, hq, ← ha]
  exact fillQueue_values hmem h.fills q (by rw [hq]; simp)

theorem Taken.next (h : Taken P s) (hl : Lockstep s) (hmem : ∀ a, P a (s.mem mem₀ a)) (x : Stim) :
    Taken P (s.next mem₀ x) := by
  refine ⟨fun q hq => ?_, Icache.filled_step rfl (h.beat hl hmem) h.filled⟩
  refine fillQueue_values (x := x) hmem h.fills q ?_
  have hfills : (s.next mem₀ x).fills =
      if s.fillAnswers mem₀ x then (s.fillQueue mem₀ x).tail else s.fillQueue mem₀ x := rfl
  rw [hfills] at hq
  split at hq
  · exact List.mem_of_mem_tail hq
  · exact hq

/-- All that instructions are decoded from. -/
structure Fresh (P : Word → Word → Prop) (s : Sys) : Prop where
  lines : Icache.Lines P s.cache
  shows : s.core.fetch.inflight = true → s.core.fetch.squash = false → Icache.Shows P s.cache
  words : Words (fun a w => P (wordAddr a) w) s.core

theorem Fresh.next (h : Fresh P s) (ht : Taken P s) (hl : Lockstep s) (hsp : Spaced s.core)
    (hmem : ∀ a, P a (s.mem mem₀ a)) (x : Stim) : Fresh P (s.next mem₀ x) where
  lines := Icache.lines_step rfl (ht.beat hl hmem) ht.filled fun _ => h.lines
  shows hin hsq := by
    refine Icache.shows_step rfl (ht.beat hl hmem) ht.filled (fun _ => h.lines) ?_
    have hsq' : (fetchNext s.core (s.coreIn mem₀ x)).squash = false := hsq
    rcases @fetchNext_inflight s.core (s.coreIn mem₀ x) hin with ⟨ha, -⟩ | ⟨-, hin', -, -, hs⟩
    · -- the cache is idle when it takes a request
      rw [accept_eq] at ha
      simp only [Icache.acceptReq, Bool.and_eq_true, beq_iff_eq] at ha
      constructor <;> simp [ha.1]
    · rw [hs, Bool.or_eq_false_iff] at hsq'
      exact h.shows hin' hsq'.2
  words := by
    refine words_step hsp h.words fun hr => ?_
    simp only [rspConsumable, rspArriving, Bool.and_eq_true, Bool.not_eq_true'] at hr
    have hd : s.cache.fsm = .done := by
      have hv : (s.cache.fsm == .done) = true := hr.1.2
      simpa using hv
    rw [← hl.addr hr.1.1]
    exact (h.shows hr.1.1 hr.2).done hd

end Since

variable {c : Nat}

/-- With no fetch in flight in cycle `c`, the cache takes in only words that are read from then on. -/
theorem taken_since (hc : (run b stim c).core.fetch.inflight = false) (hct : c ≤ t) (htu : t ≤ u) :
    Taken (Since b stim c u) (run b stim t) := by
  induction t, hct using Nat.le_induction with
  | base =>
      have hl : Lockstep (run b stim c) := lockstep_run c
      have hs : (run b stim c).cache.fsm = .idle := by
        rw [hl.inflight] at hc
        simpa using hc
      refine ⟨fun q hq => ?_, ?_⟩
      · have hf := hl.fills
        rw [if_neg (by rw [hs]; simp)] at hf
        rw [List.map_eq_nil_iff.mp hf] at hq
        simp at hq
      · constructor <;> simp [hs]
  | succ t hct ih =>
      exact (ih (by omega)).next (lockstep_run t) (fun a => ⟨t, hct, by omega, rfl⟩) (stim t)

/-- Behind a FENCE.I in cycle `t` every instruction is decoded from a word read after it left ID. -/
theorem fresh_since (hf : wbIsFenceI (run b stim t).core = true) (hc : (run b stim c).core.fetch.inflight = false)
    (hct : c ≤ t) {v : Nat} (htv : t < v) (hvu : v ≤ u) : Fresh (Since b stim c u) (run b stim v) := by
  induction v, htv using Nat.le_induction with
  | base =>
      have hdr : Drained (run b stim (t + 1)).core := by
        rw [core_run] at hf ⊢
        exact fenceI_drains hf
      have ht : Taken (Since b stim c u) (run b stim t) := taken_since hc hct (by omega)
      refine ⟨?_, fun hin hsq => ?_, hdr.words⟩
      · refine Icache.lines_step rfl (ht.beat (lockstep_run t) fun a => ⟨t, hct, by omega, rfl⟩) ht.filled fun hi => ?_
        have hi' : wbIsFenceI (run b stim t).core = false := hi
        rw [hf] at hi'
        simp at hi'
      · rw [hdr.fetch hin] at hsq
        simp at hsq
  | succ v htv ih =>
      exact (ih (by omega)).next (taken_since hc (by omega) (by omega)) (lockstep_run v) (spaced_core v)
        (fun a => ⟨v, by omega, by omega, rfl⟩) (stim v)

/-- Every instruction that retires after a FENCE.I was decoded from a word that reflects all stores that retired
before the FENCE.I. -/
theorem fenceI_coherent (b : Boot) (stim : Nat → Stim) (t u : Nat) (hf : wbIsFenceI (run b stim t).core = true)
    (htu : t < u) (hr : retireWb (run b stim u).core = true) : Reflects b stim t u := by
  have hleft := hf
  rw [core_run] at hleft
  obtain ⟨c, rfl, hin, hw₀, hw₁, hw₂⟩ := fenceI_left_id hleft
  rw [← core_run] at hin hw₀ hw₁ hw₂
  have hfresh : Fresh (Since b stim c u) (run b stim u) := fresh_since hf hin (by omega) htu (le_refl u)
  simp only [retireWb, Bool.and_eq_true, Bool.not_eq_true'] at hr
  obtain ⟨v, hcv, hvu, hword⟩ := hfresh.words.wb hr.1 hr.2
  refine ⟨v, hvu, hword, fun w hw hret hst => ?_⟩
  have hwc : w < c := by
    have hv : (run b stim w).core.wb.valid = true := by
      simp only [retireWb, Bool.and_eq_true] at hret
      exact hret.1
    by_contra hge
    obtain rfl | rfl | rfl : w = c ∨ w = c + 1 ∨ w = c + 2 := by omega
    · rw [hw₀] at hv; simp at hv
    · rw [hw₁] at hv; simp at hv
    · rw [hw₂] at hv; simp at hv
  exact (stored_of_retired hret hst).mono (by omega)

/-- `sw x1, 8(x2); fence.i` in front of the word it replaces, which is in the line of the two. -/
def patching : Boot where
  resetPc := RESET_PC
  regs := fun r => if r = 1#5 then 0x00100093#32 else if r = 2#5 then RESET_PC else 0#32
  tag := fun _ _ => 0
  data := fun _ _ _ => 0
  rd := ⟨fun _ => 0, fun _ => false, fun _ => 0⟩
  mem₀ := fun a => if a = RESET_PC then 0x00112423#32 else if a = RESET_PC + 4 then 0x0000100F#32 else 0x00000013#32

/-- Both ports take and answer in every cycle. -/
def promptStim : Stim :=
  ⟨true, fun _ => false, true, true, true, true, 0, false, false, ⟨false, false, false, false, 0⟩⟩

theorem fenceI_coherent_patching : Reflects patching (fun _ => promptStim) 27 50 :=
  fenceI_coherent patching (fun _ => promptStim) 27 50 (by decide +kernel) (by decide) (by decide +kernel)

example : (run patching (fun _ => promptStim) 50).core.wb.instr = 0x00100093#32 := by decide +kernel

end QinglongCore.FenceI
