import QinglongCore.Base.InOrder
import QinglongCore.Pipeline.Births

/-!
# The requests on the data bus

Every request that the bus accepts is logged under the name of the instruction that is in MEM. The fields
beside EX/MEM that follow the access say which of its requests the instruction has made.
-/

namespace QinglongCore.CorePipeline

/-- A request on the data bus with the word it is for. -/
inductive Beat where
  | read (a : Word)
  | write (a : Word)
  deriving DecidableEq, Repr

def dmemBeat (s : State) : Beat := if dmemReqWen s then .write (dmemReqAddr s) else .read (dmemReqAddr s)

section Run

variable (pc : Word) (regs : RegFile) (inp : Nat → In)

/-- What the bus has accepted before cycle `t`, each request with the name of its instruction. -/
def requests : Nat → List (Nat × Beat)
  | 0 => []
  | t + 1 => requests t ++
      if dmemAccept (run pc regs inp t) (inp t) then
        [((births pc regs inp t).mem, dmemBeat (run pc regs inp t))]
      else []

/-- The requests of instruction `r` before cycle `t`, oldest first. -/
def issued (t r : Nat) : List Beat := ((requests pc regs inp t).filter fun q => q.1 == r).map Prod.snd

/-- The data bus answers only requests that it has accepted in an earlier cycle, each once. -/
def DmemServed : Prop :=
  InOrder.Serves (fun t => dmemAccept (run pc regs inp t) (inp t)) (fun t => (inp t).dmemRspValid)
    fun _ _ => True

/-- No redirect is in WB while the bus takes the beat of an instruction that waits for it in MEM. -/
def Calm (t : Nat) : Prop :=
  wbRedirect (run pc regs inp t) = true → memBusy (run pc regs inp t) = true → (inp t).dmemReqReady = false

/-- A response is for the request that the instruction in MEM makes or has made. -/
def Matched (t : Nat) : Prop :=
  (inp t).dmemRspValid = true → (run pc regs inp t).bus.reqFired = true ∨ dmemAccept (run pc regs inp t) (inp t) = true

instance (t : Nat) : Decidable (Calm pc regs inp t) :=
  inferInstanceAs (Decidable (_ = true → _ = true → _ = false))

/-- The accepted requests that are still to be answered in cycle `t`. -/
abbrev unanswered (t : Nat) : List Nat :=
  InOrder.outstanding (fun t => dmemAccept (run pc regs inp t) (inp t)) (fun t => (inp t).dmemRspValid) t

end Run

variable {s : State} {i : In} {b : Births}

/-! ## The instruction in MEM -/

theorem IdEx.Decoded.flags {ex : IdEx} (h : ex.Decoded) :
    ex.ctrl.isLoad = Decode.isLoad ex.instr ∧ ex.ctrl.isStore = Decode.isStore ex.instr ∧
      ex.ctrl.isLr = Decode.isLr ex.instr ∧ ex.ctrl.isSc = Decode.isSc ex.instr ∧
      ex.ctrl.isAmoRmw = Decode.isAmoRmw ex.instr := by
  obtain ⟨id, m, d₁, d₂, rfl, -⟩ := h
  exact ⟨rfl, rfl, rfl, rfl, rfl⟩

theorem IdEx.Decoded.rdWen {ex : IdEx} (h : ex.Decoded) : ex.ctrl.rdWen = Decode.writesRd ex.instr := by
  obtain ⟨id, m, d₁, d₂, rfl, -⟩ := h
  rfl

namespace ExMem.FromEx

variable {m : ExMem}

/-- The flags of an instruction that did not trap in EX are those of its word. -/
theorem flags (h : m.FromEx) (ht : m.trap = false) :
    m.isLoad = Decode.isLoad m.instr ∧ m.isStore = Decode.isStore m.instr ∧ m.isLr = Decode.isLr m.instr ∧
      m.isSc = Decode.isSc m.instr ∧ m.isAmoRmw = Decode.isAmoRmw m.instr := by
  obtain ⟨ex, rs1, rs2, dv, p, hit, ph, ls, hd, hv, rfl, hls⟩ := h
  obtain ⟨hl, hst, hlr, hsc, ha⟩ := hd.flags
  simp only [ExMem.ofEx] at ht
  simp only [ExMem.ofEx, ht, hl, hst, hlr, hsc, ha, Bool.not_false, Bool.and_true, and_self]

/-- A store has no result of its own. -/
theorem store (h : m.FromEx) (hs : m.isStore = true) : m.hasResult = false := by
  obtain ⟨ex, rs1, rs2, dv, p, hit, ph, ls, hd, hv, rfl, hls⟩ := h
  obtain ⟨-, hst, -, hsc, -⟩ := hd.flags
  simp only [ExMem.ofEx, Bool.and_eq_true] at hs
  rw [hst] at hs
  have hwr := Decode.writesRd_of_isStore hs.1
  obtain ⟨-, hsc', -⟩ := Decode.not_atomic_of_access (w := ex.instr) (by simp [hs.1])
  simp [ExMem.ofEx, hsc, hsc', hd.rdWen, hwr]

theorem amo (h : m.FromEx) (ha : m.isAmoRmw = true) :
    m.isStore = false ∧ m.isSc = false ∧ m.isLr = false ∧ m.isLoad = false ∧ m.hasResult = false := by
  obtain ⟨ex, rs1, rs2, dv, p, hit, ph, ls, hd, hv, rfl, hls⟩ := h
  obtain ⟨hl, hst, hlr, hsc, ham⟩ := hd.flags
  simp only [ExMem.ofEx, Bool.and_eq_true] at ha
  rw [ham] at ha
  obtain ⟨hamo, hlr', hsc'⟩ := Decode.of_isAmoRmw ha.1
  obtain ⟨hl', hst'⟩ := Decode.of_isAmo hamo
  simp [ExMem.ofEx, hl, hst, hlr, hsc, ham, ha.1, hlr', hsc', hl', hst']

/-- An SC that has missed its reservation has its result already and waits for nothing. -/
theorem sc (h : m.FromEx) (hs : m.isSc = true) :
    m.isAmoRmw = false ∧ (m.hasResult = true → m.lsPending = false ∧ m.result = 1#32) := by
  obtain ⟨ex, rs1, rs2, dv, p, hit, ph, ls, hd, hv, rfl, hls⟩ := h
  obtain ⟨hl, hst, hlr, hsc, ha⟩ := hd.flags
  simp only [ExMem.ofEx, Bool.and_eq_true, Bool.not_eq_true'] at hs
  rw [hsc] at hs
  obtain ⟨hlr', ha'⟩ := Decode.of_isSc hs.1
  obtain ⟨hl', hst'⟩ := Decode.of_isAmo (Decode.isAmo_of_isSc hs.1)
  refine ⟨by simp [ExMem.ofEx, ha, ha'], fun hr => ?_⟩
  have hhit : hit = false := by simpa [ExMem.ofEx, hsc, hs] using hr
  refine ⟨?_, by simp [ExMem.ofEx, hsc, hs, hhit]⟩
  cases hp : ls
  · rfl
  · have hlp := hls hp
    simp [ExMem.ofEx, hl, hst, hlr, ha, hl', hst', hlr', ha', hhit] at hlp

end ExMem.FromEx

/-- The requests that the instruction in MEM has made, by the fields that follow its access. -/
def progress (s : State) : List Beat :=
  let now (q : Beat) : List Beat := if s.mem.lsPending && !s.bus.reqFired then [] else [q]
  if s.mem.isAmoRmw then
    if s.mem.amoPhase then .read (dmemReqAddr s) :: now (.write (dmemReqAddr s)) else now (.read (dmemReqAddr s))
  else if s.mem.isSc && s.mem.hasResult then []
  else if s.mem.isStore || s.mem.isSc then now (.write (dmemReqAddr s))
  else if s.mem.isLoad || s.mem.isLr then now (.read (dmemReqAddr s))
  else []

theorem dmemAccept_elim (h : dmemAccept s i = true) :
    s.mem.valid = true ∧ s.mem.lsPending = true ∧ s.mem.hasBusOp = true ∧ s.bus.reqFired = false ∧
      i.dmemReqReady = true := by
  simp only [dmemAccept, dmemReqValid, memHasBusOp, Bool.and_eq_true, Bool.not_eq_true'] at h
  exact ⟨h.1.1.1.1, h.1.1.2, h.1.1.1.2, h.1.2, h.2⟩

theorem memRspThisCycle_elim (h : memRspThisCycle s i = true) :
    s.mem.valid = true ∧ s.mem.lsPending = true ∧ i.dmemRspValid = true := by
  simpa [memRspThisCycle, and_assoc] using h

/-- The read beat of an AMO turns to the store beat unless it faults. -/
theorem memHold_faulted (hr : memRspThisCycle s i = true) (ha : (memHold s i).isAmoRmw = true)
    (hl : (memHold s i).lsPending = false) (hp : (memHold s i).amoPhase = false) : i.dmemRspFault = true := by
  cases hf : i.dmemRspFault
  · have hl' := (memRspThisCycle_elim hr).2.1
    cases ha' : s.mem.isAmoRmw
    · simp [memHold, hr, ha'] at ha
    · cases hp' : s.mem.amoPhase
      · simp [memHold, hr, ha', hp', hf, hl'] at hl
      · simp [memHold, hr, ha', hp'] at hp
  · rfl

/-- The requests of an access before its present beat. -/
def begun (s : State) : List Beat := if memAmoStoreBeat s then [.read (dmemReqAddr s)] else []

/-- A pending access is not that of an SC that has missed. -/
theorem ExMem.FromEx.sc_hit {m : ExMem} (h : m.FromEx) (hl : m.lsPending = true) (hs : m.isSc = true) :
    m.hasResult = false := by
  cases hr : m.hasResult
  · rfl
  · rw [((h.sc hs).2 hr).1] at hl; simp at hl

theorem progress_waiting (hfrom : s.mem.FromEx) (hl : s.mem.lsPending = true) (hf : s.bus.reqFired = false) :
    progress s = begun s := by
  cases ha : s.mem.isAmoRmw
  · cases hs : s.mem.isSc <;> simp [progress, begun, memAmoStoreBeat, ha, hs, hl, hf, hfrom.sc_hit hl]
  · cases hp : s.mem.amoPhase <;> simp [progress, begun, memAmoStoreBeat, ha, hp, hl, hf]

theorem progress_made (hfrom : s.mem.FromEx) (hop : s.mem.hasBusOp = true)
    (hsc : s.mem.isSc = true → s.mem.hasResult = false) (hd : (s.mem.lsPending && !s.bus.reqFired) = false) :
    progress s = begun s ++ [dmemBeat s] := by
  cases ha : s.mem.isAmoRmw
  · cases h₁ : s.mem.isSc
    · cases h₂ : s.mem.isStore
      · have hld : (s.mem.isLoad || s.mem.isLr) = true := by simpa [ExMem.hasBusOp, ha, h₁, h₂] using hop
        simp [progress, begun, dmemBeat, dmemReqWen, memIsStoreOp, memAmoStoreBeat, hd, ha, h₁, h₂, hld]
      · simp [progress, begun, dmemBeat, dmemReqWen, memIsStoreOp, memAmoStoreBeat, hd, ha, h₁, h₂]
    · simp [progress, begun, dmemBeat, dmemReqWen, memIsStoreOp, memAmoStoreBeat, hd, ha, h₁, hsc h₁]
  · obtain ⟨h₁, h₂, -⟩ := hfrom.amo ha
    cases hp : s.mem.amoPhase <;>
      simp [progress, begun, dmemBeat, dmemReqWen, memIsStoreOp, memAmoStoreBeat, hd, ha, hp, h₁, h₂]

/-- While MEM holds its instruction, the requests made grow by the one that is accepted. -/
theorem Spaced.progress_hold (h : Spaced s) (hw : wbRedirect s = false) (hv : s.mem.valid = true)
    (hst : stallMem s = true)
    (hr : memRspThisCycle s i = true → s.bus.reqFired = true ∨ dmemAccept s i = true) :
    progress (step s i) = progress s ++ if dmemAccept s i then [dmemBeat s] else [] := by
  have hm : (step s i).mem = memHold s i := memNext_of_stall hw hst
  have hfrom := h.mem_origin hv
  have hb : (step s i).bus.reqFired =
      if memRspThisCycle s i then false else if dmemAccept s i then true else s.bus.reqFired := by
    rw [step_bus]
    simp [busNext, hw]
  cases hrsp : memRspThisCycle s i
  · have hm' : (step s i).mem = s.mem := by rw [hm]; simp [memHold, hrsp]
    cases hacc : dmemAccept s i
    · simp [progress, dmemReqAddr, hm', hb, hrsp, hacc]
    · obtain ⟨-, hl, hop, hf, -⟩ := dmemAccept_elim hacc
      have hmade : progress (step s i) = begun (step s i) ++ [dmemBeat (step s i)] := by
        refine progress_made ?_ ?_ ?_ ?_
        · rw [hm']; exact hfrom
        · rw [hm']; exact hop
        · rw [hm']; exact hfrom.sc_hit hl
        · rw [hb]; simp [hrsp, hacc]
      rw [hmade, progress_waiting hfrom hl hf]
      simp [begun, dmemBeat, dmemReqWen, dmemReqAddr, memIsStoreOp, memAmoStoreBeat, hm']
  · -- a response ends the beat that is made
    obtain ⟨-, hl, -⟩ := memRspThisCycle_elim hrsp
    have hop := hfrom.hasBusOp hl
    have hbefore : (progress s ++ if dmemAccept s i then [dmemBeat s] else []) = begun s ++ [dmemBeat s] := by
      cases hacc : dmemAccept s i
      · have hf : s.bus.reqFired = true := by simpa [hacc] using hr hrsp
        rw [progress_made hfrom hop (hfrom.sc_hit hl) (by simp [hf])]
        simp
      · rw [progress_waiting hfrom hl (dmemAccept_elim hacc).2.2.2.1]
        simp
    rw [hbefore]
    have hf' : (step s i).bus.reqFired = false := by rw [hb]; simp [hrsp]
    cases hturn : s.mem.isAmoRmw && !s.mem.amoPhase && !i.dmemRspFault
    · have hm' : (step s i).mem = { s.mem with lsPending := false } := by rw [hm]; simp [memHold, hrsp, hturn]
      have hmade : progress (step s i) = begun (step s i) ++ [dmemBeat (step s i)] := by
        refine progress_made ?_ ?_ ?_ ?_
        · rw [hm]; exact memHold_fromEx hfrom
        · rw [hm']; exact hop
        · rw [hm']; exact hfrom.sc_hit hl
        · rw [hm']; rfl
      rw [hmade]
      simp [begun, dmemBeat, dmemReqWen, dmemReqAddr, memIsStoreOp, memAmoStoreBeat, hm']
    · have hm' : (step s i).mem = { s.mem with amoPhase := true } := by rw [hm]; simp [memHold, hrsp, hturn]
      have hwait : progress (step s i) = begun (step s i) := by
        refine progress_waiting ?_ ?_ hf'
        · rw [hm]; exact memHold_fromEx hfrom
        · rw [hm']; exact hl
      simp only [Bool.and_eq_true, Bool.not_eq_true'] at hturn
      obtain ⟨h₁, h₂, -⟩ := hfrom.amo hturn.1.1
      rw [hwait]
      simp [begun, dmemBeat, dmemReqWen, dmemReqAddr, memIsStoreOp, memAmoStoreBeat, hm', hturn, h₁, h₂]

/-- What enters MEM and waits for nothing makes no access, or is an SC that has missed. -/
theorem memAdvance_idle (hl : (memAdvance s).lsPending = false) : (memAdvance s).isAmoRmw = false ∧
    ((memAdvance s).isSc = true → (memAdvance s).hasResult = true) ∧ (memAdvance s).isStore = false ∧
    (memAdvance s).isLoad = false ∧ (memAdvance s).isLr = false := by
  revert hl
  simp only [memAdvance, ExMem.ofEx]
  cases (exTrapInfo s).isSome <;> cases s.ex.ctrl.isAmoRmw <;> cases s.ex.ctrl.isSc <;> cases exScHit s <;>
    cases s.ex.ctrl.isStore <;> cases s.ex.ctrl.isLoad <;> cases s.ex.ctrl.isLr <;> simp

/-- An instruction enters MEM without having made a request. -/
theorem Spaced.progress_fresh (h : Spaced s) (hw : wbRedirect s = false) (hv : s.ex.valid = true)
    (hst : stallEx s = false) : progress (step s i) = [] ∧ (step s i).bus.reqFired = false := by
  have hm : (step s i).mem = memAdvance s := memNext_of_ex hw hv hst
  have hstm := stallMem_false_of_stallEx hst
  have hbusy : memBusy s = false := by
    simp only [stallMem, Bool.or_eq_false_iff] at hstm
    exact hstm.1
  have hacc : dmemAccept s i = false := by
    cases ha : dmemAccept s i
    · rfl
    · obtain ⟨hv', hl, -⟩ := dmemAccept_elim ha
      simp [memBusy, hv', hl] at hbusy
  have hf : (step s i).bus.reqFired = false := by
    rw [step_bus]
    cases hr : s.bus.reqFired
    · simp [busNext, hacc, hr]
    · rw [h.fired_busy hr] at hbusy; simp at hbusy
  refine ⟨?_, hf⟩
  have hph : (memAdvance s).amoPhase = false := rfl
  cases hl : (memAdvance s).lsPending
  · obtain ⟨h₁, h₂, h₃, h₄, h₅⟩ := memAdvance_idle hl
    cases hsc : (memAdvance s).isSc
    · simp [progress, hm, h₁, h₃, h₄, h₅, hsc]
    · simp [progress, hm, h₁, h₂ hsc, hsc]
  · simp only [progress, hm, hf, hl, hph]
    cases (memAdvance s).isAmoRmw <;> cases (memAdvance s).isSc <;> simp

/-! ## Runs -/

variable {pc : Word} {regs : RegFile} {inp : Nat → In} {t u r : Nat}

theorem mem_birth_lt (hv : (run pc regs inp t).mem.valid = true) : (births pc regs inp t).mem < t := by
  cases t with
  | zero => simp [run, reset] at hv
  | succ t =>
      have h := @births_succ_le pc regs inp t
      omega

theorem issued_succ (t r : Nat) : issued pc regs inp (t + 1) r = issued pc regs inp t r ++
    if dmemAccept (run pc regs inp t) (inp t) = true ∧ (births pc regs inp t).mem = r then
      [dmemBeat (run pc regs inp t)] else [] := by
  cases ha : dmemAccept (run pc regs inp t) (inp t)
  · simp [issued, requests, ha]
  · by_cases hr : (births pc regs inp t).mem = r <;> simp [issued, requests, ha, hr]

theorem issued_of_behind (h : ∀ q ∈ requests pc regs inp t, q.1 ≠ r) : issued pc regs inp t r = [] := by
  simp only [issued, List.map_eq_nil_iff, List.filter_eq_nil_iff]
  intro q hq
  simpa using h q hq

/-- What is known of the requests in cycle `t` when every response so far was for the instruction in MEM. -/
structure Tracked (pc : Word) (regs : RegFile) (inp : Nat → In) (t : Nat) : Prop where
  behind : ∀ q ∈ requests pc regs inp t, q.1 < t ∧ YoungerMem q.1 (run pc regs inp t) (births pc regs inp t) ∧
    ((run pc regs inp t).mem.valid = true → q.1 ≤ (births pc regs inp t).mem)
  mem : (run pc regs inp t).mem.valid = true →
    issued pc regs inp t (births pc regs inp t).mem = progress (run pc regs inp t)
  fresh : (run pc regs inp t).mem.valid = true → (run pc regs inp t).wb.valid = true →
    progress (run pc regs inp t) = []
  faulted : (run pc regs inp t).mem.valid = true → (run pc regs inp t).mem.isAmoRmw = true →
    (run pc regs inp t).mem.lsPending = false → (run pc regs inp t).mem.amoPhase = false →
    (run pc regs inp t).bus.busFault = true

theorem tracked_zero : Tracked pc regs inp 0 where
  behind q hq := by simp [requests] at hq
  mem hv := by simp [run, reset] at hv
  fresh hv := by simp [run, reset] at hv
  faulted hv := by simp [run, reset] at hv

/-- The name of every request made up to cycle `t` is that of the instruction in MEM or of an older one. -/
theorem Tracked.taken (h : Tracked pc regs inp t) (q : Nat × Beat) (hq : q ∈ requests pc regs inp (t + 1)) :
    q.1 < t ∧ YoungerMem q.1 (run pc regs inp t) (births pc regs inp t) ∧
      ((run pc regs inp t).mem.valid = true → q.1 ≤ (births pc regs inp t).mem) := by
  simp only [requests, List.mem_append] at hq
  rcases hq with hq | hq
  · exact h.behind q hq
  · cases ha : dmemAccept (run pc regs inp t) (inp t)
    · simp [ha] at hq
    · simp only [ha, ↓reduceIte, List.mem_singleton] at hq
      have hv := (dmemAccept_elim ha).1
      rw [hq]
      exact ⟨mem_birth_lt hv, (ordered_run t).mem hv, fun _ => le_refl _⟩

theorem Tracked.step (h : Tracked pc regs inp t) (hmt : Matched pc regs inp t) : Tracked pc regs inp (t + 1) where
  behind q hq := by
    obtain ⟨hlt, hy, hm⟩ := h.taken q hq
    refine ⟨by omega, youngerMem_step hy hlt, fun hv => ?_⟩
    show q.1 ≤ if stallMem (run pc regs inp t) then (births pc regs inp t).mem else (births pc regs inp t).ex
    obtain ⟨-, ⟨hst, hmv, -⟩ | ⟨hse, hx, -⟩⟩ := memNext_valid hv
    · rw [if_pos hst]; exact hm hmv
    · rw [if_neg (by simp [stallMem_false_of_stallEx hse])]
      exact Nat.le_of_lt (hy.2 hx)
  mem hv := by
    have hsp : Spaced (run pc regs inp t) := spaced_run t
    show issued pc regs inp (t + 1)
      (if stallMem (run pc regs inp t) then (births pc regs inp t).mem else (births pc regs inp t).ex) = _
    obtain ⟨hw, ⟨hst, hm, -⟩ | ⟨hse, hx, -⟩⟩ := memNext_valid hv
    · rw [if_pos hst, issued_succ, h.mem hm]
      refine Eq.trans ?_ (hsp.progress_hold hw hm hst fun hr => ?_).symm
      · simp
      · exact hmt (memRspThisCycle_elim hr).2.2
    · rw [if_neg (by simp [stallMem_false_of_stallEx hse])]
      refine Eq.trans (issued_of_behind fun q hq => ?_) (hsp.progress_fresh hw hx hse).1.symm
      have hlt := (h.taken q hq).2.1.2 hx
      omega
  fresh hv hwb := by
    have hsp : Spaced (run pc regs inp t) := spaced_run t
    have hsm := (wbNext_valid hwb).2.2.1
    obtain ⟨hw, ⟨hst, -, -⟩ | ⟨hse, hx, -⟩⟩ := memNext_valid hv
    · rw [hsm] at hst; simp at hst
    · exact (hsp.progress_fresh hw hx hse).1
  faulted hv ha hl hp := by
    show (busNext (run pc regs inp t) (inp t)).busFault = true
    have ha' : (memNext (run pc regs inp t) (inp t)).isAmoRmw = true := ha
    have hl' : (memNext (run pc regs inp t) (inp t)).lsPending = false := hl
    have hp' : (memNext (run pc regs inp t) (inp t)).amoPhase = false := hp
    obtain ⟨hw, ⟨hst, hm, he⟩ | ⟨hse, hx, he⟩⟩ := memNext_valid hv
    · rw [he] at ha' hl' hp'
      cases hr : memRspThisCycle (run pc regs inp t) (inp t)
      · simp only [memHold, hr, Bool.false_eq_true, ↓reduceIte] at ha' hl' hp'
        simp [busNext, hw, hst, hr, h.faulted hm ha' hl' hp']
      · simp [busNext, hw, hst, hr, memHold_faulted hr ha' hl' hp']
    · rw [he] at ha' hl'
      rw [(memAdvance_idle hl').1] at ha'; simp at ha'

theorem tracked_run (hmt : ∀ u, u < t → Matched pc regs inp u) : Tracked pc regs inp t := by
  induction t with
  | zero => exact tracked_zero
  | succ t ih => exact (ih fun u hu => hmt u (by omega)).step (hmt t (by omega))

/-! ## A bus that answers what it has accepted -/

/-- The bus owes an answer exactly while MEM has made its request. -/
def Served (pc : Word) (regs : RegFile) (inp : Nat → In) (t : Nat) : Prop :=
  (∃ a, unanswered pc regs inp t = [a] ∧ (run pc regs inp t).bus.reqFired = true) ∨
    (unanswered pc regs inp t = [] ∧ (run pc regs inp t).bus.reqFired = false)

theorem Served.matched (h : Served pc regs inp t) (hbus : DmemServed pc regs inp) : Matched pc regs inp t := by
  intro hr
  rcases h with ⟨a, -, hf⟩ | ⟨ho, -⟩
  · exact Or.inl hf
  · have hq : (inp t).dmemRspValid = false := InOrder.Serves.quiet hbus ho
    rw [hq] at hr; simp at hr

/-- Nothing is accepted in a calm cycle with a redirect. -/
theorem dmemAccept_of_calm (hcalm : Calm pc regs inp t) (hw : wbRedirect (run pc regs inp t) = true) :
    dmemAccept (run pc regs inp t) (inp t) = false := by
  cases ha : dmemAccept (run pc regs inp t) (inp t)
  · rfl
  · obtain ⟨hv, hl, -, -, hrdy⟩ := dmemAccept_elim ha
    rw [hcalm hw (by simp [memBusy, hv, hl])] at hrdy
    simp at hrdy

/-- Behind a redirect MEM has made no request. -/
theorem Spaced.unfired_of_redirect (h : Spaced s) (hw : wbRedirect s = true) : s.bus.reqFired = false := by
  cases hf : s.bus.reqFired
  · rfl
  · have hb := h.fired_busy hf
    simp only [memBusy, Bool.and_eq_true] at hb
    rw [h.unfired_behind_wb hb.1 (wb_valid_of_wbRedirect hw)] at hf
    simp at hf

theorem Served.step (h : Served pc regs inp t) (hbus : DmemServed pc regs inp) (hcalm : Calm pc regs inp t) :
    Served pc regs inp (t + 1) := by
  have hstep : (run pc regs inp (t + 1)).bus = busNext (run pc regs inp t) (inp t) := rfl
  unfold Served
  rcases h with ⟨a, ho, hf⟩ | ⟨ho, hf⟩
  · have hw : wbRedirect (run pc regs inp t) = false := by
      cases hw : wbRedirect (run pc regs inp t)
      · rfl
      · rw [(spaced_run t).unfired_of_redirect hw] at hf; simp at hf
    have ha : dmemAccept (run pc regs inp t) (inp t) = false := by simp [dmemAccept, dmemReqValid, hf]
    have hb := (spaced_run t).fired_busy hf
    simp only [memBusy, Bool.and_eq_true] at hb
    cases hr : (inp t).dmemRspValid
    · refine Or.inl ⟨a, ?_, by rw [hstep]; simp [busNext, hw, memRspThisCycle, hr, hf]⟩
      exact (InOrder.outstanding_idle ha hr).trans ho
    · refine Or.inr ⟨InOrder.outstanding_return ho ha hr, ?_⟩
      rw [hstep]
      simp [busNext, hw, memRspThisCycle, hb, hr]
  · have hr : (inp t).dmemRspValid = false := InOrder.Serves.quiet hbus ho
    have ho' : unanswered pc regs inp (t + 1) = if dmemAccept (run pc regs inp t) (inp t) then [t] else [] :=
      InOrder.outstanding_issue ho
    cases hw : wbRedirect (run pc regs inp t)
    · cases ha : dmemAccept (run pc regs inp t) (inp t)
      · right; simp [ho', ha, hstep, busNext, hw, memRspThisCycle, hr, hf]
      · left; simp [ho', ha, hstep, busNext, hw, memRspThisCycle, hr]
    · right
      simp [ho', dmemAccept_of_calm hcalm hw, hstep, busNext, hw]

theorem served_run (hbus : DmemServed pc regs inp) (hcalm : ∀ u, u < t → Calm pc regs inp u) :
    Served pc regs inp t := by
  induction t with
  | zero => exact Or.inr ⟨rfl, rfl⟩
  | succ t ih => exact (ih fun u hu => hcalm u (by omega)).step hbus (hcalm t (by omega))

theorem matched_of_calm (hbus : DmemServed pc regs inp) (hcalm : ∀ u, u < t → Calm pc regs inp u) :
    Matched pc regs inp t :=
  (served_run hbus hcalm).matched hbus

end QinglongCore.CorePipeline
