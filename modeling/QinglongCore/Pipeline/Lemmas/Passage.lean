import QinglongCore.Isa.Environment
import QinglongCore.Pipeline.Lemmas.Values
import QinglongCore.Pipeline.Lemmas.Words

/-!
# An instruction on its way through MEM

What EX/MEM holds of an instruction of the instruction set, the requests it makes from there, and what MEM/WB
takes over.
-/

namespace QinglongCore.CorePipeline

open Isa (Arch Access Retirement Shown contents accesses retirements ordinary)

/-! ## What the core shows -/

def shows (s : State) (i : In) : Shown where
  fetch := if ifetchAccept s i then some s.fetch.pc else none
  access :=
    if dmemAccept s i then
      some (Isa.portAccess (dmemReqAddr s) (dmemReqWen s) (dmemReqWdata s) (dmemReqWmask s) (dmemReqSize s))
    else none
  retired :=
    if s.wb.valid then
      some ⟨s.wb.pc, s.wb.instr, rfWen s, s.wb.rd, wbCommitRdData s i.ext, s.wb.valid && s.wb.trap⟩
    else none

def shown (pc : Word) (regs : RegFile) (inp : Nat → In) (t : Nat) : Shown := shows (run pc regs inp t) (inp t)

variable {mem₀ : Word → Word} {A : Arch} {w : Word} {m : ExMem} {b : MemBus} {s : State} {i : In}

/-! ## EX/MEM -/

/-- EX/MEM holds the instruction `w` of `A`; since it entered at most its bus access has moved on. -/
structure Entered (mem₀ : Word → Word) (A : Arch) (w : Word) (m : ExMem) : Prop where
  fields : ∃ id md d₁ d₂ x y dv hit ph ls,
    m = { ExMem.ofEx (IdEx.ofId id md d₁ d₂) x y dv none hit with amoPhase := ph, lsPending := ls } ∧
      id.pc = A.pc ∧ id.instr = w ∧ (Decode.isDiv w = false → x = A.rs1 w ∧ y = A.rs2 w) ∧
      (Decode.isDiv w = true → dv = DivUnit.answer (Isa.divIn w (A.rs1 w) (A.rs2 w))) ∧
      (Decode.isSc w = true → hit = A.scHit w)
  asks : m.lsPending = true → A.makes mem₀ w ≠ []
  amo : m.amoPhase = true → Decode.isAmoRmw w = true

namespace Entered

variable (h : Entered mem₀ A w m)

include h

theorem valid : m.valid = true ∧ m.trap = false := by
  obtain ⟨id, md, d₁, d₂, x, y, dv, hit, ph, ls, rfl, -⟩ := h.fields
  exact ⟨rfl, rfl⟩

theorem word : m.pc = A.pc ∧ m.instr = w ∧ m.rd = rdField w ∧ m.rdWen = Decode.writesRd w := by
  obtain ⟨id, md, d₁, d₂, x, y, dv, hit, ph, ls, rfl, hpc, hw, -⟩ := h.fields
  refine ⟨hpc, hw, ?_, ?_⟩
  · rw [← hw]
    rfl
  · rw [← hw]
    exact Bool.and_true _

theorem flags : m.isLoad = Decode.isLoad w ∧ m.isStore = Decode.isStore w ∧ m.isLr = Decode.isLr w ∧
    m.isSc = Decode.isSc w ∧ m.isAmoRmw = Decode.isAmoRmw w := by
  obtain ⟨id, md, d₁, d₂, x, y, dv, hit, ph, ls, rfl, -, hw, -⟩ := h.fields
  rw [← hw]
  exact ⟨Bool.and_true _, Bool.and_true _, Bool.and_true _, Bool.and_true _, Bool.and_true _⟩

theorem addr (hb : (Decode.isLoad w || Decode.isStore w || Decode.isAtomic w) = true) : m.aluY = A.addr w := by
  obtain ⟨id, md, d₁, d₂, x, y, dv, hit, ph, ls, rfl, -, hw, hops, -⟩ := h.fields
  have hdiv : Decode.isDiv w = false := by
    cases hd : Decode.isDiv w
    · rfl
    · obtain ⟨h₁, h₂, h₃, h₄, h₅⟩ := Decode.not_bus_of_isDiv hd
      simp [h₁, h₂, h₃, h₄, h₅, Decode.isAtomic] at hb
  have ha : (IdEx.ofId id md d₁ d₂).lsAddr x = A.addr w := by
    rw [(hops hdiv).1, ← hw]
    rfl
  have hb' : ((IdEx.ofId id md d₁ d₂).ctrl.isLoad || (IdEx.ofId id md d₁ d₂).ctrl.isStore ||
      (IdEx.ofId id md d₁ d₂).isAtomic) = true := by
    rw [← hw] at hb
    exact hb
  rw [← ha]
  exact if_pos hb'

theorem funct3 : m.funct3 = QinglongCore.funct3 w := by
  obtain ⟨id, md, d₁, d₂, x, y, dv, hit, ph, ls, rfl, -, hw, -⟩ := h.fields
  rw [← hw]
  rfl

theorem operands (hd : Decode.isDiv w = false) : m.amoFunct5 = amoFunct5 w ∧ m.amoRs2 = A.rs2 w ∧
    m.storeWdata = Isa.laneData (QinglongCore.funct3 w) (A.addr w) (A.rs2 w) ∧
    m.storeWmask = Isa.laneMask (QinglongCore.funct3 w) (A.addr w) := by
  obtain ⟨id, md, d₁, d₂, x, y, dv, hit, ph, ls, rfl, -, hw, hops, -⟩ := h.fields
  obtain ⟨hx, hy⟩ := hops hd
  rw [hx, hy]
  subst hw
  exact ⟨rfl, rfl, rfl, rfl⟩

/-- The result of an instruction that needs no answer from the bus. -/
theorem result (hn : A.makes mem₀ w = []) : (m.hasBusOp && !m.hasResult) = false ∧ m.result = A.result mem₀ w := by
  obtain ⟨id, md, d₁, d₂, x, y, dv, hit, ph, ls, rfl, hpc, hw, hops, hdv, hhit⟩ := h.fields
  have hnone : Decode.isLoad w = false ∧ Decode.isLr w = false ∧ Decode.isStore w = false ∧
      (Decode.isSc w && A.scHit w) = false ∧ Decode.isAmoRmw w = false := by
    unfold Arch.makes at hn
    split_ifs at hn with h₁ h₂ h₃
    simp only [Bool.not_eq_true, Bool.or_eq_false_iff] at h₁ h₂ h₃
    exact ⟨h₁.1, h₁.2, h₂.1, h₂.2, h₃⟩
  obtain ⟨hl, hlr, hst, hsc, ha⟩ := hnone
  have harith : (IdEx.ofId id md d₁ d₂).arithWb x y dv = Isa.arith w A.pc (A.rs1 w) (A.rs2 w) := by
    rw [arithWb_isa, hw, hpc]
    cases hd : Decode.isDiv w
    · rw [(hops hd).1, (hops hd).2]
      rfl
    · rw [if_pos rfl, hdv hd, Isa.arith, hd]
      rfl
  subst hw
  cases hs : Decode.isSc id.instr
  · refine ⟨?_, ?_⟩
    · simp [ExMem.hasBusOp, ExMem.ofEx, IdEx.ofId, Ctrl.ofId, hl, hlr, hst, hs, ha]
    · have hr : A.result mem₀ id.instr = Isa.arith id.instr A.pc (A.rs1 id.instr) (A.rs2 id.instr) := by
        simp [Arch.result, hl, hlr, hst, hs, ha]
      rw [hr, ← harith]
      simp [ExMem.ofEx, IdEx.ofId, Ctrl.ofId, hs]
  · have hmiss : A.scHit id.instr = false := by simpa [hs] using hsc
    refine ⟨?_, ?_⟩
    · simp [ExMem.hasBusOp, ExMem.ofEx, IdEx.ofId, Ctrl.ofId, hs, hhit hs, hmiss]
    · simp [ExMem.ofEx, IdEx.ofId, Ctrl.ofId, hs, hhit hs, hmiss, Arch.result, hl, hlr, hst, ha]

/-- An instruction with an access of its own waits for the bus with its result. -/
theorem pending (hn : A.makes mem₀ w ≠ []) : m.hasBusOp = true ∧ m.hasResult = false := by
  obtain ⟨id, md, d₁, d₂, x, y, dv, hit, ph, ls, rfl, hpc, hw, hops, hdv, hhit⟩ := h.fields
  subst hw
  rcases Arch.makes_cases hn with hk | hk | ⟨hk, hh⟩ | hk
  · rw [Bool.or_eq_true] at hk
    rcases hk with hk | hk
    · have hsc := (Decode.not_atomic_of_access (w := id.instr) (by simp [hk])).2.1
      simp [ExMem.hasBusOp, ExMem.ofEx, IdEx.ofId, Ctrl.ofId, hk, hsc]
    · simp [ExMem.hasBusOp, ExMem.ofEx, IdEx.ofId, Ctrl.ofId, hk, (Decode.of_isLr hk).1]
  · have hsc := (Decode.not_atomic_of_access (w := id.instr) (by simp [hk])).2.1
    simp [ExMem.hasBusOp, ExMem.ofEx, IdEx.ofId, Ctrl.ofId, hk, hsc, Decode.writesRd_of_isStore hk]
  · simp [ExMem.hasBusOp, ExMem.ofEx, IdEx.ofId, Ctrl.ofId, hk, hhit hk, hh]
  · simp [ExMem.hasBusOp, ExMem.ofEx, IdEx.ofId, Ctrl.ofId, hk, (Decode.of_isAmoRmw hk).2.2]

theorem system (ho : ordinary w = true) : m.isMret = false ∧ m.isSret = false ∧ m.isCsr = false := by
  obtain ⟨id, md, d₁, d₂, x, y, dv, hit, ph, ls, rfl, hpc, hw, -⟩ := h.fields
  subst hw
  simp only [ordinary, Bool.and_eq_true, Bool.not_eq_true'] at ho
  simp [ExMem.ofEx, IdEx.ofId, Ctrl.ofId, Decode.isMret, Decode.isSret, Decode.isPriv, Decode.isCsr, ho.1]

/-- The bus access moves on. -/
theorem moved {ph ls : Bool} (hl : ls = true → A.makes mem₀ w ≠ []) (hp : ph = true → Decode.isAmoRmw w = true) :
    Entered mem₀ A w { m with amoPhase := ph, lsPending := ls } := by
  obtain ⟨id, md, d₁, d₂, x, y, dv, hit, ph', ls', rfl, hf⟩ := h.fields
  exact ⟨⟨id, md, d₁, d₂, x, y, dv, hit, ph, ls, rfl, hf⟩, hl, hp⟩

end Entered

/-- An instruction that accesses memory does not divide. -/
theorem not_div_of_makes (h : A.makes mem₀ w ≠ []) : Decode.isDiv w = false := by
  cases hd : Decode.isDiv w
  · rfl
  · obtain ⟨h₁, h₂, h₃, h₄, h₅⟩ := Decode.not_bus_of_isDiv hd
    simp [Arch.makes, h₁, h₂, h₃, h₄, h₅] at h

/-- The request in MEM is the next access of the instruction. -/
theorem request_isa (h : Entered mem₀ A w s.mem) (hl : s.mem.lsPending = true)
    (hold : s.mem.amoPhase = true → s.bus.amoOld = A.old mem₀ w) :
    (A.makes mem₀ w)[if s.mem.amoPhase then 1 else 0]? = some
      (Isa.portAccess (dmemReqAddr s) (dmemReqWen s) (dmemReqWdata s) (dmemReqWmask s) (dmemReqSize s)) := by
  have hne := h.asks hl
  have hdiv := not_div_of_makes hne
  obtain ⟨hf5, hrs2, hdata, hmask⟩ := h.operands hdiv
  obtain ⟨hld, hst, hlr, hsc, ha⟩ := h.flags
  have hf3 := h.funct3
  have hsize : dmemReqSize s = Isa.size w := by
    unfold dmemReqSize Isa.size Decode.isAtomic
    rw [hlr, hsc, ha, hf3]
  have haddr : dmemReqAddr s = alignWord (A.addr w) := by rw [dmemReqAddr, h.addr (Arch.bus_of_makes hne)]
  rw [hsize, haddr]
  cases hp : s.mem.amoPhase
  · have hwen : dmemReqWen s = (Decode.isStore w || Decode.isSc w) := by
      simp [dmemReqWen, memIsStoreOp, memAmoStoreBeat, hp, hst, hsc]
    have hwd : dmemReqWdata s = s.mem.storeWdata := by simp [dmemReqWdata, memAmoStoreBeat, hp]
    rw [hwen, hwd, hdata]
    rcases Arch.makes_cases hne with hk | hk | ⟨hk, hhit⟩ | hk
    · obtain ⟨h₁, h₂⟩ : Decode.isStore w = false ∧ Decode.isSc w = false := by
        rw [Bool.or_eq_true] at hk
        rcases hk with hk | hk
        · exact ⟨Decode.isStore_of_isLoad hk, (Decode.not_atomic_of_access (by simp [hk])).2.1⟩
        · exact ⟨(Decode.of_isAmo (Decode.isAmo_of_isLr hk)).2, (Decode.of_isLr hk).1⟩
      rw [Arch.makes_read hk, h₁, h₂]
      rfl
    · have h₁ := (Decode.not_atomic_of_access (w := w) (by simp [hk])).2.1
      have hwm : dmemReqWmask s = s.mem.storeWmask := by
        simp [dmemReqWmask, memIsStoreOp, hst, hsc, hk, h₁]
      rw [Arch.makes_store hk, hwm, hmask, Arch.writeAccess, hk]
      rfl
    · have h₁ := (Decode.of_isAmo (Decode.isAmo_of_isSc hk)).2
      have hwm : dmemReqWmask s = 0b1111#4 := by simp [dmemReqWmask, memIsStoreOp, hst, hsc, hk, h₁]
      have hw := Decode.isAmoW_of_isAtomic (w := w) (by simp [Decode.isAtomic, hk])
      simp only [Decode.isAmoW, Bool.and_eq_true, beq_iff_eq] at hw
      rw [Arch.makes_sc hk, hhit, hwm, Arch.writeAccess, hk, h₁, hw.2]
      rfl
    · obtain ⟨h₁, -, h₂⟩ := Decode.of_isAmoRmw hk
      rw [Arch.makes_amo hk, (Decode.of_isAmo h₁).2, h₂]
      rfl
  · have hamo := h.amo hp
    obtain ⟨h₁, h₂, h₃⟩ := Decode.of_isAmoRmw hamo
    obtain ⟨h₄, h₅⟩ := Decode.of_isAmo h₁
    have hbeat : memAmoStoreBeat s = true := by simp [memAmoStoreBeat, ha, hamo, hp]
    have hwen : dmemReqWen s = true := by simp [dmemReqWen, memIsStoreOp, hbeat]
    have hwm : dmemReqWmask s = 0b1111#4 := by simp [dmemReqWmask, memIsStoreOp, hbeat, hst, h₅]
    have hwd : dmemReqWdata s = amoStoreData (amoFunct5 w) (A.old mem₀ w) (A.rs2 w) := by
      rw [dmemReqWdata, if_pos hbeat, hf5, hold hp, hrs2]
    have hval : amoStoreData (amoFunct5 w) (A.old mem₀ w) (A.rs2 w) =
        Isa.amoValue (amoFunct5 w) (A.old mem₀ w) (A.rs2 w) := by
      simp only [Decode.isAmoRmw, Bool.and_eq_true, Bool.or_eq_true, beq_iff_eq] at hamo
      unfold amoStoreData Isa.amoValue
      rcases hamo.2 with (((((((hf | hf) | hf) | hf) | hf) | hf) | hf) | hf) | hf <;> rw [hf] <;> rfl
    rw [Arch.makes_amo hamo, hwen, hwm, hwd, hval, Arch.writeAccess, h₅, h₃]
    rfl

/-! ## The access in MEM -/

/-- How many requests the instruction in MEM has made. -/
def beats (s : State) : Nat :=
  (if s.mem.amoPhase then 1 else 0) + if s.mem.lsPending && !s.bus.reqFired then 0 else 1

section
variable (mem₀ : Word → Word) (c : Nat → Shown) (inp : Nat → In) (A : Arch) (t : Nat) (s : State)

/-- The request of MEM that the bus has not answered yet. -/
def Asked (x : Word) : Prop :=
  if s.bus.reqFired then ∃ a y, Isa.requests c inp t = [a] ∧ (c a).access = some y ∧ y.addr = alignWord x
  else Isa.requests c inp t = []

/-- The instruction of `A` is in MEM. -/
structure Passing : Prop where
  entered : Entered mem₀ A (A.insn mem₀) s.mem
  accesses : accesses c t = A.accesses ++ (A.makes mem₀ (A.insn mem₀)).take (beats s)
  asked : Asked c inp t s (A.addr (A.insn mem₀))
  link : Isa.linkOf s.resv =
    if Decode.isLr (A.insn mem₀) && !s.mem.lsPending then some ((A.addr (A.insn mem₀)).extractLsb' 2 30) else A.link
  old : s.mem.amoPhase = true → s.bus.amoOld = A.old mem₀ (A.insn mem₀)
  amo : s.mem.lsPending = false → Decode.isAmoRmw (A.insn mem₀) = true → s.mem.amoPhase = true
  data : s.mem.lsPending = false →
    (Decode.isLoad (A.insn mem₀) || Decode.isStore (A.insn mem₀) || Decode.isLr (A.insn mem₀)) = true →
      s.bus.loadData = A.result mem₀ (A.insn mem₀)

end

section
variable {c : Nat → Shown} {inp : Nat → In} {t : Nat}

/-- Only its access keeps an ordinary instruction in MEM. -/
theorem stallMem_of_ordinary (ho : ordinary s.mem.instr = true) :
    stallMem s = (s.mem.valid && s.mem.lsPending) := by
  have hsys : (opcode s.mem.instr == OP_SYSTEM) = false := by
    simp only [ordinary, Decode.isSystem, Bool.and_eq_true, Bool.not_eq_true'] at ho
    exact ho.1
  simp [stallMem, memBusy, memStallForIfetchDrain, memIsCsrwSatp, memIsCsrOp, hsys]

/-- A load, a store or an LR makes one access and no other. -/
theorem makes_single (h : (Decode.isLoad w || Decode.isStore w || Decode.isLr w) = true) :
    (A.makes mem₀ w).length = 1 := by
  cases hs : Decode.isStore w
  · rw [Arch.makes_read (by simpa [hs] using h)]
    rfl
  · rw [Arch.makes_store hs]
    rfl

/-- The value that a load, a store or an LR takes from the answer `x`. -/
theorem loadData_isa {x : Word} (h : (Decode.isLoad w || Decode.isStore w || Decode.isLr w) = true)
    (hx : x = contents mem₀ (A.accesses ++ A.makes mem₀ w) (A.addr w)) :
    (if Decode.isLr w then x else loadAligned (funct3 w) (A.addr w) x) = A.result mem₀ w := by
  cases hlr : Decode.isLr w
  · rw [hlr, Bool.or_false] at h
    rw [Arch.result, h, hx]
    rfl
  · obtain ⟨hl, hst⟩ := Decode.of_isAmo (Decode.isAmo_of_isLr hlr)
    rw [hx, Arch.makes_read (by simp [hlr]), Arch.readAccess, Isa.contents_read, Arch.result, hl, hst, hlr]
    rfl

/-- A cycle without an answer: the bus may take the next request. -/
theorem passing_ask (h : Passing mem₀ c inp A t s) (hc : c t = shows s (inp t)) (hw : wbRedirect s = false)
    (hst : stallMem s = true) (hl : s.mem.lsPending = true) (hr : (inp t).dmemRspValid = false) :
    Passing mem₀ c inp A (t + 1) (step s (inp t)) := by
  have hrsp : memRspThisCycle s (inp t) = false := by simp [memRspThisCycle, hr]
  have hm : (step s (inp t)).mem = s.mem := by
    rw [step_mem, memNext_of_stall hw hst]
    simp [memHold, hrsp]
  have hresv : (step s (inp t)).resv = s.resv := by
    show resvNext s (inp t) = s.resv
    simp [resvNext, hw, hst, hrsp]
  have hbus : (step s (inp t)).bus = { s.bus with reqFired := dmemAccept s (inp t) || s.bus.reqFired } := by
    rw [step_bus]
    simp [busNext, hw, hst, hrsp]
  have hx : (c t).access = if dmemAccept s (inp t) then
      some (Isa.portAccess (dmemReqAddr s) (dmemReqWen s) (dmemReqWdata s) (dmemReqWmask s) (dmemReqSize s))
      else none := by rw [hc]; rfl
  refine ⟨by rw [hm]; exact h.entered, ?_, ?_, by rw [hresv, hm]; exact h.link, by rw [hm, hbus]; exact h.old,
    by rw [hm]; exact h.amo, by rw [hm, hbus]; exact h.data⟩
  · cases hacc : dmemAccept s (inp t)
    · have hbeats : beats (step s (inp t)) = beats s := by simp [beats, hm, hbus, hacc]
      rw [Isa.accesses_quiet (by simp [hx, hacc]), hbeats, h.accesses]
    · have hf := (dmemAccept_elim hacc).2.2.2.1
      have hbeats : beats s = if s.mem.amoPhase then 1 else 0 := by simp [beats, hl, hf]
      have hbeats' : beats (step s (inp t)) = (if s.mem.amoPhase then 1 else 0) + 1 := by
        simp [beats, hm, hbus, hacc]
      have hreq := request_isa h.entered hl h.old
      rw [hacc, if_pos rfl] at hx
      rw [Isa.accesses_more hx, h.accesses, hbeats, hbeats', List.take_add_one, hreq, List.append_assoc]
      rfl
  · have hask := h.asked
    unfold Asked at hask ⊢
    rw [hbus]
    cases hf : s.bus.reqFired
    · rw [hf] at hask
      have hask' : Isa.requests c inp t = [] := hask
      have ho : Isa.requests c inp (t + 1) = if (c t).access.isSome then [t] else [] :=
        InOrder.outstanding_issue hask'
      cases hacc : dmemAccept s (inp t)
      · simpa [hx, hacc] using ho
      · have hreq := request_isa h.entered hl h.old
        rw [hacc, if_pos rfl] at hx
        refine ⟨t, _, ?_, hx, Arch.makes_addr (List.mem_of_getElem? hreq)⟩
        simpa [hx] using ho
    · have hacc : dmemAccept s (inp t) = false := by simp [dmemAccept, dmemReqValid, hf]
      rw [hf] at hask
      obtain ⟨a, y, ho, hy⟩ := hask
      rw [hacc]
      exact ⟨a, y, (InOrder.outstanding_idle (by simp [hx, hacc]) hr).trans ho, hy⟩

/-- The data that MEM is answered with. -/
theorem Passing.answer (h : Passing mem₀ c inp A t s) (hs : Isa.Served c mem₀ inp)
    (hr : (inp t).dmemRspValid = true) : s.bus.reqFired = true ∧ (∃ a, Isa.requests c inp t = [a]) ∧
      (inp t).dmemRspRdata = contents mem₀ (Isa.accesses c t) (A.addr (A.insn mem₀)) := by
  have hask := h.asked
  unfold Asked at hask
  cases hf : s.bus.reqFired
  · rw [hf] at hask
    have hq : (inp t).dmemRspValid = false := hs.data.quiet hask
    rw [hq] at hr
    simp at hr
  · rw [hf] at hask
    obtain ⟨a, y, ho, hy, haddr⟩ := hask
    obtain ⟨z, hz, hd⟩ := hs.data.only ho hr
    rw [hy, Option.some.injEq] at hz
    refine ⟨rfl, ⟨a, ho⟩, ?_⟩
    rw [hd, ← hz, haddr, Isa.contents_alignWord]

/-- The answer to the read of an AMO turns it to its store. -/
theorem passing_turn (h : Passing mem₀ c inp A t s) (hc : c t = shows s (inp t)) (hs : Isa.Served c mem₀ inp)
    (hw : wbRedirect s = false) (hst : stallMem s = true) (hl : s.mem.lsPending = true)
    (hr : (inp t).dmemRspValid = true) (ha : Decode.isAmoRmw (A.insn mem₀) = true) (hp : s.mem.amoPhase = false) :
    Passing mem₀ c inp A (t + 1) (step s (inp t)) := by
  obtain ⟨hf, ⟨a, ho⟩, hd⟩ := h.answer hs hr
  obtain ⟨hfault, -⟩ := hs.dataClean t hr
  have ham := h.entered.flags.2.2.2.2
  rw [ha] at ham
  have hlr : s.mem.isLr = false := by rw [h.entered.flags.2.2.1]; exact (Decode.of_isAmoRmw ha).2.1
  have hrsp : memRspThisCycle s (inp t) = true := by simp [memRspThisCycle, h.entered.valid.1, hl, hr]
  have hm : (step s (inp t)).mem = { s.mem with amoPhase := true } := by
    rw [step_mem, memNext_of_stall hw hst]
    simp [memHold, hrsp, ham, hp, hfault]
  have hresv : (step s (inp t)).resv = s.resv := by
    show resvNext s (inp t) = s.resv
    simp [resvNext, hw, hst, hlr]
  have hbus : (step s (inp t)).bus.reqFired = false ∧ (step s (inp t)).bus.amoOld = (inp t).dmemRspRdata := by
    rw [step_bus]
    simp [busNext, hw, hst, hrsp, ham, hp]
  have hacc : dmemAccept s (inp t) = false := by simp [dmemAccept, dmemReqValid, hf]
  have hx : (c t).access = none := by simp [hc, shows, hacc]
  have hbeats : beats s = 1 := by simp [beats, hp, hf]
  have hlast := h.accesses
  rw [hbeats, Arch.makes_amo ha] at hlast
  have hlast' : accesses c t = A.accesses ++ [A.readAccess (A.insn mem₀)] := hlast
  refine ⟨?_, ?_, ?_, ?_, fun _ => ?_, fun hn => ?_, fun hn => ?_⟩
  · rw [hm]
    exact h.entered.moved h.entered.asks fun _ => ha
  · have hbeats' : beats (step s (inp t)) = 1 := by simp [beats, hm, hbus, hl]
    rw [Isa.accesses_quiet hx, hlast', hbeats', Arch.makes_amo ha]
    rfl
  · unfold Asked
    rw [hbus.1]
    exact InOrder.outstanding_return ho (by simp [hx]) hr
  · rw [hresv, hm]
    exact h.link
  · rw [hbus.2, hd, hlast', Arch.readAccess, Isa.contents_read]
    rfl
  · rw [hm, hl] at hn
    simp at hn
  · rw [hm, hl] at hn
    simp at hn

/-- The answer to the last access of the instruction. -/
theorem passing_done (h : Passing mem₀ c inp A t s) (hc : c t = shows s (inp t)) (hs : Isa.Served c mem₀ inp)
    (hw : wbRedirect s = false) (hst : stallMem s = true) (hl : s.mem.lsPending = true)
    (hr : (inp t).dmemRspValid = true) (ha : Decode.isAmoRmw (A.insn mem₀) = true → s.mem.amoPhase = true) :
    Passing mem₀ c inp A (t + 1) (step s (inp t)) := by
  obtain ⟨hf, ⟨a, ho⟩, hd⟩ := h.answer hs hr
  obtain ⟨hfault, -⟩ := hs.dataClean t hr
  have haddr := h.entered.addr (Arch.bus_of_makes (h.entered.asks hl))
  obtain ⟨-, -, hlr, -, ham⟩ := h.entered.flags
  have hturn : (s.mem.isAmoRmw && !s.mem.amoPhase) = false := by
    rw [ham]
    cases hx : Decode.isAmoRmw (A.insn mem₀)
    · rfl
    · rw [ha hx]
      rfl
  have hrsp : memRspThisCycle s (inp t) = true := by simp [memRspThisCycle, h.entered.valid.1, hl, hr]
  have hm : (step s (inp t)).mem = { s.mem with lsPending := false } := by
    rw [step_mem, memNext_of_stall hw hst]
    simp [memHold, hrsp, hturn]
  have hresv : (step s (inp t)).resv =
      if Decode.isLr (A.insn mem₀) then ⟨true, (A.addr (A.insn mem₀)).extractLsb' 2 30⟩ else s.resv := by
    show resvNext s (inp t) = _
    simp [resvNext, hw, hst, hrsp, hfault, hlr, haddr]
  have hbus : (step s (inp t)).bus.reqFired = false ∧ (step s (inp t)).bus.amoOld = s.bus.amoOld ∧
      (step s (inp t)).bus.loadData = if Decode.isLr (A.insn mem₀) then (inp t).dmemRspRdata
        else loadAligned (QinglongCore.funct3 (A.insn mem₀)) (A.addr (A.insn mem₀)) (inp t).dmemRspRdata := by
    rw [step_bus]
    simp [busNext, hw, hst, hrsp, hturn, hlr, haddr, h.entered.funct3]
  have hacc : dmemAccept s (inp t) = false := by simp [dmemAccept, dmemReqValid, hf]
  have hx : (c t).access = none := by simp [hc, shows, hacc]
  refine ⟨?_, ?_, ?_, ?_, fun hp => ?_, fun _ hamo => ?_, fun _ hld => ?_⟩
  · rw [hm]
    exact h.entered.moved (by simp) h.entered.amo
  · have hbeats : beats (step s (inp t)) = beats s := by simp [beats, hm, hf]
    rw [Isa.accesses_quiet hx, hbeats, h.accesses]
  · unfold Asked
    rw [hbus.1]
    exact InOrder.outstanding_return ho (by simp [hx]) hr
  · have hlink := h.link
    rw [hl] at hlink
    rw [hresv, hm]
    cases hx : Decode.isLr (A.insn mem₀)
    · simpa [hx] using hlink
    · simp [Isa.linkOf]
  · rw [hm] at hp
    rw [hbus.2.1, h.old hp]
  · rw [hm]
    exact ha hamo
  · have hphase : s.mem.amoPhase = false := by
      cases hp : s.mem.amoPhase
      · rfl
      · have hamo := h.entered.amo hp
        obtain ⟨h₁, h₂, -⟩ := Decode.of_isAmoRmw hamo
        obtain ⟨h₃, h₄⟩ := Decode.of_isAmo h₁
        simp [h₂, h₃, h₄] at hld
    have hbeats : beats s = 1 := by simp [beats, hphase, hf]
    have hlast := h.accesses
    rw [hbeats, List.take_of_length_le (by rw [makes_single hld])] at hlast
    rw [hbus.2.2]
    exact loadData_isa hld (by rw [hd, hlast])

theorem passing_hold (h : Passing mem₀ c inp A t s) (hc : c t = shows s (inp t)) (hs : Isa.Served c mem₀ inp)
    (hw : wbRedirect s = false) (hst : stallMem s = true) (ho : ordinary (A.insn mem₀) = true) :
    Passing mem₀ c inp A (t + 1) (step s (inp t)) := by
  have hl : s.mem.lsPending = true := by
    have hst' := hst
    rw [stallMem_of_ordinary (by rw [h.entered.word.2.1]; exact ho), h.entered.valid.1] at hst'
    exact hst'
  cases hr : (inp t).dmemRspValid
  · exact passing_ask h hc hw hst hl hr
  · cases hp : s.mem.amoPhase
    · cases ha : Decode.isAmoRmw (A.insn mem₀)
      · exact passing_done h hc hs hw hst hl hr (by simp [ha])
      · exact passing_turn h hc hs hw hst hl hr ha hp
    · exact passing_done h hc hs hw hst hl hr fun _ => hp

/-! ## Into MEM and out of it -/

/-- No access is going on between the instructions before `A` and that of `A`. -/
structure Resting (c : Nat → Shown) (inp : Nat → In) (A : Arch) (t : Nat) (s : State) : Prop where
  accesses : accesses c t = A.accesses
  requests : Isa.requests c inp t = []
  link : Isa.linkOf s.resv = A.link

/-- The instruction of `A` in EX, with what it takes into MEM. -/
structure Ready (mem₀ : Word → Word) (A : Arch) (s : State) : Prop where
  decoded : s.ex.Decoded
  pc : s.ex.pc = A.pc
  instr : s.ex.instr = A.insn mem₀
  untrapped : exTrapInfo s = none
  operands : Decode.isDiv (A.insn mem₀) = false →
    exRs1Fwd s = A.rs1 (A.insn mem₀) ∧ exRs2Fwd s = A.rs2 (A.insn mem₀)
  quotient : Decode.isDiv (A.insn mem₀) = true → s.div.result =
    DivUnit.answer (Isa.divIn (A.insn mem₀) (A.rs1 (A.insn mem₀)) (A.rs2 (A.insn mem₀)))

theorem Ready.entered (h : Ready mem₀ A s) (hlink : Isa.linkOf s.resv = A.link) :
    Entered mem₀ A (A.insn mem₀) (memAdvance s) ∧
      ((memAdvance s).lsPending = false → A.makes mem₀ (A.insn mem₀) = []) := by
  obtain ⟨id, md, d₁, d₂, he, -⟩ := h.decoded
  have hw : id.instr = A.insn mem₀ := by rw [← h.instr, he]; rfl
  have hpc : id.pc = A.pc := by rw [← h.pc, he]; rfl
  have hhit : Decode.isSc (A.insn mem₀) = true → exScHit s = A.scHit (A.insn mem₀) := by
    intro hsc
    have hdiv : Decode.isDiv (A.insn mem₀) = false := by
      cases hd : Decode.isDiv (A.insn mem₀)
      · rfl
      · rw [(Decode.not_bus_of_isDiv hd).2.2.2.1] at hsc
        simp at hsc
    have haddr : s.ex.lsAddr (exRs1Fwd s) = A.addr (A.insn mem₀) := by
      rw [(h.operands hdiv).1, he, ← hw]
      rfl
    unfold exScHit Arch.scHit
    rw [haddr, ← hlink, Isa.linkOf]
    cases s.resv.valid <;> simp
  have hadv : memAdvance s =
      ExMem.ofEx (IdEx.ofId id md d₁ d₂) (exRs1Fwd s) (exRs2Fwd s) s.div.result none (exScHit s) := by
    rw [← he, memAdvance, h.untrapped]
  have hls : (memAdvance s).lsPending = (Decode.isLoad (A.insn mem₀) || Decode.isStore (A.insn mem₀) ||
      Decode.isLr (A.insn mem₀) || Decode.isAmoRmw (A.insn mem₀) ||
      (Decode.isSc (A.insn mem₀) && exScHit s)) := by
    rw [hadv, ← hw]
    rfl
  have hasks : (memAdvance s).lsPending = true → A.makes mem₀ (A.insn mem₀) ≠ [] := by
    intro hl
    rw [hls] at hl
    simp only [Bool.or_eq_true, Bool.and_eq_true] at hl
    rcases hl with (((hl | hl) | hl) | hl) | ⟨hl, hh⟩
    · simp [@Arch.makes_read mem₀ A (A.insn mem₀) (by simp [hl])]
    · simp [@Arch.makes_store mem₀ A _ hl]
    · simp [@Arch.makes_read mem₀ A (A.insn mem₀) (by simp [hl])]
    · simp [@Arch.makes_amo mem₀ A _ hl]
    · simp [@Arch.makes_sc mem₀ A _ hl, ← hhit hl, hh]
  refine ⟨⟨⟨id, md, d₁, d₂, exRs1Fwd s, exRs2Fwd s, s.div.result, exScHit s, false, (memAdvance s).lsPending, ?_, hpc,
    hw, h.operands, h.quotient, hhit⟩, hasks, fun hp => ?_⟩, fun hl => ?_⟩
  · rw [hadv]
    rfl
  · have hp' : false = true := hp
    simp at hp'
  · rw [hls] at hl
    simp only [Bool.or_eq_false_iff] at hl
    obtain ⟨⟨⟨⟨h₁, h₂⟩, h₃⟩, h₄⟩, h₅⟩ := hl
    cases hsc : Decode.isSc (A.insn mem₀)
    · simp [Arch.makes, h₁, h₂, h₃, h₄, hsc]
    · rw [hhit hsc, hsc] at h₅
      simpa [Arch.makes_sc hsc] using h₅

theorem passing_enter (h : Ready mem₀ A s) (hrest : Resting c inp A (t + 1) (step s i))
    (hlink : Isa.linkOf s.resv = A.link) (hm : (step s i).mem = memAdvance s)
    (hf : (step s i).bus.reqFired = false) : Passing mem₀ c inp A (t + 1) (step s i) := by
  obtain ⟨hent, hnone⟩ := h.entered hlink
  have hp : (memAdvance s).amoPhase = false := rfl
  -- what waits for nothing accesses nothing
  have hidle : (memAdvance s).lsPending = false →
      (Decode.isLoad (A.insn mem₀) || Decode.isStore (A.insn mem₀) || Decode.isLr (A.insn mem₀)) = false ∧
        Decode.isAmoRmw (A.insn mem₀) = false := by
    intro hl
    have hn := hnone hl
    constructor
    · cases hb : Decode.isLoad (A.insn mem₀) || Decode.isStore (A.insn mem₀) || Decode.isLr (A.insn mem₀)
      · rfl
      · have hlen := @makes_single mem₀ A _ hb
        rw [hn] at hlen
        simp at hlen
    · cases ha : Decode.isAmoRmw (A.insn mem₀)
      · rfl
      · rw [Arch.makes_amo ha] at hn
        simp at hn
  refine ⟨by rw [hm]; exact hent, ?_, ?_, ?_, fun hx => ?_, fun hl ha => ?_, fun hl hb => ?_⟩
  · rw [hrest.accesses]
    cases hl : (memAdvance s).lsPending
    · rw [hnone hl]
      simp
    · simp [beats, hm, hp, hf, hl]
  · unfold Asked
    rw [hf]
    exact hrest.requests
  · rw [hrest.link, hm]
    cases hl : (memAdvance s).lsPending
    · have hlr := (hidle hl).1
      simp only [Bool.or_eq_false_iff] at hlr
      simp [hlr.2]
    · simp
  · rw [hm, hp] at hx
    simp at hx
  · rw [hm] at hl
    rw [(hidle hl).2] at ha
    simp at ha
  · rw [hm] at hl
    rw [(hidle hl).1] at hb
    simp at hb

/-- MEM/WB holds the instruction of `A`. -/
structure Retiring (mem₀ : Word → Word) (A : Arch) (x : MemWb) : Prop where
  pc : x.pc = A.pc
  instr : x.instr = A.insn mem₀
  rd : x.rd = rdField (A.insn mem₀)
  rdWen : x.rdWen = Decode.writesRd (A.insn mem₀)
  result : x.result = A.result mem₀ (A.insn mem₀)
  trap : x.trap = false
  isMret : x.isMret = false
  isSret : x.isSret = false
  isCsr : x.isCsr = false

theorem Passing.retiring (h : Passing mem₀ c inp A t s) (hl : s.mem.lsPending = false)
    (ho : ordinary (A.insn mem₀) = true) (hfault : s.bus.busFault = false ∧ s.bus.busPagefault = false) :
    Retiring mem₀ A (MemWb.ofMem s.mem s.bus) := by
  obtain ⟨hpc, hi, hrd, hwen⟩ := h.entered.word
  obtain ⟨hmret, hsret, hcsr⟩ := h.entered.system ho
  obtain ⟨hld, hst, hlr, hsc, ha⟩ := h.entered.flags
  have htrap := h.entered.valid.2
  by_cases hn : A.makes mem₀ (A.insn mem₀) = []
  · obtain ⟨hb, hres⟩ := h.entered.result hn
    constructor <;>
      simp [MemWb.ofMem, MemWb.payload, hb, hpc, hi, hrd, hwen, hres, htrap, hmret, hsret, hcsr]
  · obtain ⟨hb, hr⟩ := h.entered.pending hn
    have hkeep : (MemWb.ofMem s.mem s.bus).pc = A.pc ∧ (MemWb.ofMem s.mem s.bus).instr = A.insn mem₀ ∧
        (MemWb.ofMem s.mem s.bus).rd = rdField (A.insn mem₀) := by
      rw [ofMem_pc, ofMem_instr, ofMem_rd]
      exact ⟨hpc, hi, hrd⟩
    -- the answer that the instruction takes for its result
    have hwb : MemWb.ofMem s.mem s.bus =
        { MemWb.payload s.mem with
          valid := true
          isSerial := s.mem.isSerial
          rdWen := Decode.writesRd (A.insn mem₀)
          result := A.result mem₀ (A.insn mem₀) } := by
      rcases Arch.makes_cases hn with hk | hk | ⟨hk, hh⟩ | hk
      · have hdata := h.data hl (by grind)
        rw [Bool.or_eq_true] at hk
        rcases hk with hk | hk
        · obtain ⟨h₁, h₂, h₃⟩ := Decode.not_atomic_of_access (w := A.insn mem₀) (by simp [hk])
          simp [MemWb.ofMem, hb, hr, hfault, hlr, hsc, ha, h₁, h₂, h₃, hld, hk, hwen, hdata]
        · simp [MemWb.ofMem, hb, hr, hfault, hlr, hk, hwen, hdata]
      · have hdata := h.data hl (by simp [hk])
        obtain ⟨h₁, h₂, h₃⟩ := Decode.not_atomic_of_access (w := A.insn mem₀) (by simp [hk])
        simp [MemWb.ofMem, hb, hr, hfault, hlr, hsc, ha, h₁, h₂, h₃, hwen, Decode.writesRd_of_isStore hk, hdata]
      · obtain ⟨h₁, h₂⟩ := Decode.of_isSc hk
        obtain ⟨h₃, h₄⟩ := Decode.of_isAmo (Decode.isAmo_of_isSc hk)
        simp [MemWb.ofMem, hb, hr, hfault, hlr, hsc, h₁, hk, hwen, Arch.result, h₂, h₃, h₄, hh]
      · obtain ⟨h₁, h₂, h₃⟩ := Decode.of_isAmoRmw hk
        obtain ⟨h₄, h₅⟩ := Decode.of_isAmo h₁
        have hold := h.old (h.amo hl hk)
        simp [MemWb.ofMem, hb, hr, hfault, hlr, hsc, ha, h₂, h₃, hk, hwen, Arch.result, h₄, h₅, hold]
    rw [hwb] at hkeep ⊢
    exact ⟨hkeep.1, hkeep.2.1, hkeep.2.2, rfl, rfl, rfl, rfl, rfl, rfl⟩

/-- The accesses of an instruction that leaves MEM are complete. -/
theorem Passing.leaves (h : Passing mem₀ c inp A t s) (hsp : Spaced s) (hc : c t = shows s (inp t))
    (hs : Isa.Served c mem₀ inp) (hw : wbRedirect s = false) (hst : stallMem s = false)
    (ho : ordinary (A.insn mem₀) = true) : Resting c inp (A.exec mem₀ (A.insn mem₀)) (t + 1) (step s (inp t)) := by
  have hl : s.mem.lsPending = false := by
    rw [stallMem_of_ordinary (by rw [h.entered.word.2.1]; exact ho), h.entered.valid.1] at hst
    exact hst
  have hf : s.bus.reqFired = false := by
    cases hf : s.bus.reqFired
    · rfl
    · have hb := hsp.fired_busy hf
      simp [memBusy, hl] at hb
  have hx : (c t).access = none := by simp [hc, shows, dmemAccept, dmemReqValid, hl]
  have hask : Isa.requests c inp t = [] := by
    have hask := h.asked
    unfold Asked at hask
    rw [hf] at hask
    exact hask
  have hr : (inp t).dmemRspValid = false := hs.data.quiet hask
  obtain ⟨-, -, hlr, hsc, ha⟩ := h.entered.flags
  refine ⟨?_, (InOrder.outstanding_idle (by simp [hx]) hr).trans hask, ?_⟩
  · have hlen : (A.makes mem₀ (A.insn mem₀)).length ≤ beats s := by
      cases hamo : Decode.isAmoRmw (A.insn mem₀)
      · have hp : (A.makes mem₀ (A.insn mem₀)).length ≤ 1 := by
          unfold Arch.makes
          split_ifs <;> simp
          simp [hamo] at *
        have hb : 1 ≤ beats s := by simp [beats, hl]
        omega
      · rw [Arch.makes_amo hamo]
        simp [beats, hl, h.amo hl hamo]
    rw [Isa.accesses_quiet hx, h.accesses, List.take_of_length_le hlen]
    rfl
  · have hlink := h.link
    rw [hl] at hlink
    have hresv : (step s (inp t)).resv = if s.mem.isSc || s.mem.isAmoRmw then ⟨false, s.resv.addr⟩ else s.resv := by
      show resvNext s (inp t) = _
      simp [resvNext, hw, hst, h.entered.valid.1, memRspThisCycle, hl]
    rw [hresv, hsc, ha, Arch.exec]
    cases hk : Decode.isLr (A.insn mem₀)
    · cases hsa : Decode.isSc (A.insn mem₀) || Decode.isAmoRmw (A.insn mem₀)
      · simpa [hk] using hlink
      · simp [Isa.linkOf]
    · obtain ⟨h₁, h₂⟩ := Decode.of_isLr hk
      simpa [hk, h₁, h₂] using hlink

/-- Without an instruction in MEM nothing is accessed. -/
theorem Resting.idle (h : Resting c inp A t s) (hc : c t = shows s (inp t)) (hs : Isa.Served c mem₀ inp)
    (hw : wbRedirect s = false) (hm : s.mem.valid = false) : Resting c inp A (t + 1) (step s (inp t)) := by
  have hx : (c t).access = none := by simp [hc, shows, dmemAccept, dmemReqValid, hm]
  have hr : (inp t).dmemRspValid = false := hs.data.quiet h.requests
  refine ⟨(Isa.accesses_quiet hx).trans h.accesses, (InOrder.outstanding_idle (by simp [hx]) hr).trans h.requests, ?_⟩
  have hresv : (step s (inp t)).resv = s.resv := by
    show resvNext s (inp t) = s.resv
    simp [resvNext, hw, hm, memRspThisCycle]
  rw [hresv, h.link]

end

end QinglongCore.CorePipeline
