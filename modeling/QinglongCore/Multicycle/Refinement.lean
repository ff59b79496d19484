import QinglongCore.Csr.Lemmas.Edges
import QinglongCore.Isa.Environment
import QinglongCore.Multicycle.Lemmas.Commit
import QinglongCore.Multicycle.Lemmas.Fetch
import QinglongCore.Multicycle.Lemmas.Values
import QinglongCore.Multicycle.Reservation
import QinglongCore.Pipeline.Lemmas.Values

/-!
# The multicycle core runs the instruction set

Between S_FETCH and S_FETCH the core performs one instruction. With one fetch on the bus at a time the word it
performs is the one at its pc.
-/

namespace QinglongCore.CoreMulticycle

open Isa (Arch Access Retirement Shown contents accesses retirements ordinary)

/-! ## What the core shows -/

def shows (s : State) (i : In) : Shown where
  fetch := if ifetchAccept s i then some s.pc else none
  access :=
    if dmemAccept s i then
      some (Isa.portAccess (dmemReqAddr s) (dmemReqWen s) (dmemReqWdata s) (dmemReqWmask s) (dmemReqSize s))
    else none
  retired :=
    let k := commit s i
    if k.valid then some ⟨k.pc, k.insn, k.rdWen, k.rdAddr, k.rdData, k.trap⟩ else none

def shown (pc : Word) (regs : RegFile) (inp : Nat → In) (t : Nat) : Shown := shows (run pc regs inp t) (inp t)

variable {s : State} {i : In} {A : Arch} {mem₀ : Word → Word}

/-! ## What S_EXEC performs -/

section
variable {w : Word}

theorem isAccess_of_kind (h : kind w = .loadStore) : (Decode.isLoad w || Decode.isStore w) = true := by
  unfold kind at h
  split_ifs at h
  assumption

theorem isDiv_of_kind (h : kind w = .div) : Decode.isDiv w = true := by
  unfold kind at h
  split_ifs at h
  assumption

theorem isSystem_of_kind (h : kind w = .mret ∨ kind w = .sret) : Decode.isSystem w = true := by
  have hp : Decode.isMret w = true ∨ Decode.isSret w = true := by
    unfold kind at h
    split_ifs at h with h₁ h₂
    · exact .inl h₁
    · exact .inr h₂
    all_goals simp at h
  rcases hp with hp | hp <;>
    simp only [Decode.isMret, Decode.isSret, Decode.isPriv, Bool.and_eq_true] at hp <;> exact hp.1.1

theorem of_single (h : kind w = .single) : Decode.isLoad w = false ∧ Decode.isStore w = false ∧
    Decode.isAtomic w = false ∧ Decode.isDiv w = false := by
  unfold kind at h
  split_ifs at h with h₁ h₂ h₃ h₄ h₅ h₆ h₇
  simp only [Bool.not_eq_true, Bool.or_eq_false_iff] at h₃ h₄ h₅ h₆ h₇
  exact ⟨h₃.1, h₃.2, by simp [Decode.isAtomic, h₄, h₅, h₆], h₇⟩

/-- The instructions that access memory, but for an SC that has lost its link. -/
def Asks (A : Arch) (w : Word) : Prop :=
  kind w = .loadStore ∨ kind w = .lr ∨ (kind w = .sc ∧ A.scHit w = true) ∨ kind w = .amo

theorem ordinary_of_opcode (h : opcode w = OP_LOAD ∨ opcode w = OP_STORE ∨ opcode w = OP_AMO ∨ opcode w = OP_OP) :
    ordinary w = true := by
  rcases h with h | h | h | h <;>
    simp [ordinary, Decode.isSystem, Decode.isMisc, h, OP_LOAD, OP_STORE, OP_AMO, OP_OP, OP_SYSTEM, OP_MISC_MEM]

theorem Asks.opcode (h : Asks A w) : opcode w = OP_LOAD ∨ opcode w = OP_STORE ∨ Decode.isAtomic w = true := by
  rcases h with h | h | ⟨h, -⟩ | h
  · have ha := isAccess_of_kind h
    simp only [Bool.or_eq_true, Decode.isLoad, Decode.isStore, beq_iff_eq] at ha
    exact ha.imp id .inl
  · exact .inr (.inr (by simp [Decode.isAtomic, isLr_of_kind h]))
  · exact .inr (.inr (by simp [Decode.isAtomic, isSc_of_kind h]))
  · exact .inr (.inr (by simp [Decode.isAtomic, isAmoRmw_of_kind h]))

theorem Asks.ordinary (h : Asks A w) : ordinary w = true :=
  ordinary_of_opcode (h.opcode.imp id (.imp id fun ha => .inl (Decode.opcode_of_isAtomic ha)))

end

/-- What S_EXEC latches for an access. -/
def busLatch (A : Arch) (w : Word) : Latch where
  addr := A.addr w
  funct3 := funct3 w
  rd := rdField w
  pc := A.pc
  instr := w
  isLoad := Decode.isLoad w || Decode.isLr w || Decode.isAmoRmw w
  isLr := Decode.isLr w
  isSc := Decode.isSc w
  isRmw := Decode.isAmoRmw w

/-- The core stands on the pc and the registers of `A`. -/
structure At (A : Arch) (s : State) : Prop where
  pc : s.pc = A.pc
  regs : s.regs = A.regs

namespace At

variable (h : At A s)

include h

theorem rs1 : rs1Data s = A.rs1 s.instr := by rw [rs1Data, Arch.rs1, h.regs]
theorem rs2 : rs2Data s = A.rs2 s.instr := by rw [rs2Data, Arch.rs2, h.regs]

theorem memAddr (hk : Asks A s.instr) : memAddr s = A.addr s.instr := by
  rw [memAddr_isa hk.opcode, h.rs1, Arch.addr]

theorem scHit (hl : Isa.linkOf s.resv = A.link) (hk : kind s.instr = .sc) : scHit s = A.scHit s.instr := by
  have hm : CoreMulticycle.memAddr s = A.addr s.instr := by
    rw [memAddr_isa (.inr (.inr (by simp [Decode.isAtomic, isSc_of_kind hk]))), h.rs1, Arch.addr]
  unfold CoreMulticycle.scHit Arch.scHit
  rw [← hl, hm, Isa.linkOf]
  cases s.resv.valid <;> simp

theorem latch (hk : Asks A s.instr) : execLatch s = busLatch A s.instr := by
  have hm := h.memAddr hk
  have hf : Decode.isAtomic s.instr = true → funct3 s.instr = 0b010#3 := by
    intro ha
    have hw := Decode.isAmoW_of_isAtomic ha
    simp only [Decode.isAmoW, Bool.and_eq_true, beq_iff_eq] at hw
    exact hw.2
  rcases hk with hk | hk | ⟨hk, -⟩ | hk
  · obtain ⟨h₁, h₂, h₃⟩ := Decode.not_atomic_of_access (isAccess_of_kind hk)
    simp [execLatch, hk, busLatch, hm, h.pc, h₁, h₂, h₃]
  · have hl := isLr_of_kind hk
    obtain ⟨h₁, h₂⟩ := Decode.of_isLr hl
    simp [execLatch, hk, busLatch, hm, h.pc, hl, h₁, h₂, hf (by simp [Decode.isAtomic, hl]), F3_LW]
  · have hs := isSc_of_kind hk
    obtain ⟨h₁, h₂⟩ := Decode.of_isSc hs
    have h₃ := (Decode.of_isAmo (Decode.isAmo_of_isSc hs)).1
    simp [execLatch, hk, busLatch, hm, h.pc, hs, h₁, h₂, h₃, hf (by simp [Decode.isAtomic, hs]), F3_SW]
  · have ha := isAmoRmw_of_kind hk
    obtain ⟨-, h₁, h₂⟩ := Decode.of_isAmoRmw ha
    simp [execLatch, hk, busLatch, hm, h.pc, ha, h₁, h₂, hf (by simp [Decode.isAtomic, ha]), F3_LW]

/-- The request of S_EXEC is the first access of the instruction. -/
theorem access (mem₀ : Word → Word) (hf : s.fsm = .exec) (hk : Asks A s.instr) :
    (A.makes mem₀ s.instr).take 1 =
      [Isa.portAccess (dmemReqAddr s) (dmemReqWen s) (dmemReqWdata s) (dmemReqWmask s) (dmemReqSize s)] := by
  have hm := h.memAddr hk
  have haddr : dmemReqAddr s = alignWord (A.addr s.instr) := by rw [dmemReqAddr, hf, ← hm]
  have hwen : dmemReqWen s = (Decode.isStore s.instr || Decode.isSc s.instr) := by rw [dmemReqWen, hf]
  have hsize : dmemReqSize s = Isa.size s.instr := by
    rw [dmemReqSize, hf, Isa.size]
    rcases hk with hk | hk | ⟨hk, -⟩ | hk
    · obtain ⟨h₁, h₂, h₃⟩ := Decode.not_atomic_of_access (isAccess_of_kind hk)
      simp [hk, Decode.isAtomic, h₁, h₂, h₃]
    · simp [hk, Decode.isAtomic, isLr_of_kind hk]
    · simp [hk, Decode.isAtomic, isSc_of_kind hk]
    · simp [hk, Decode.isAtomic, isAmoRmw_of_kind hk]
  rw [haddr, hwen, hsize]
  rcases hk with hk | hk | ⟨hk, hhit⟩ | hk
  · cases hs : Decode.isStore s.instr
    · have hl : Decode.isLoad s.instr = true := by simpa [hs] using isAccess_of_kind hk
      have hsc := (Decode.not_atomic_of_access (isAccess_of_kind hk)).2.1
      rw [Arch.makes_read (by simp [hl]), hsc]
      rfl
    · have hd : dmemReqWdata s = Isa.laneData (funct3 s.instr) (A.addr s.instr) (A.rs2 s.instr) := by
        rw [dmemReqWdata, hf, hk, ← hm, ← h.rs2]
        rfl
      have hmask : dmemReqWmask s = Isa.laneMask (funct3 s.instr) (A.addr s.instr) := by
        simp only [dmemReqWmask, hf, hk, hs]
        rw [← hm]
        rfl
      rw [Arch.makes_store hs, Arch.writeAccess, hs, hd, hmask]
      rfl
  · have hl := isLr_of_kind hk
    obtain ⟨hsc, -⟩ := Decode.of_isLr hl
    have hs := (Decode.of_isAmo (Decode.isAmo_of_isLr hl)).2
    rw [Arch.makes_read (by simp [hl]), hs, hsc]
    rfl
  · have hsc := isSc_of_kind hk
    have hs := (Decode.of_isAmo (Decode.isAmo_of_isSc hsc)).2
    have hd : dmemReqWdata s = A.rs2 s.instr := by
      rw [dmemReqWdata, hf, hk, ← h.rs2]
    have hmask : dmemReqWmask s = 0b1111#4 := by rw [dmemReqWmask, hf, hk]
    rw [Arch.makes_sc hsc, hhit, Arch.writeAccess, hs, hsc, hd, hmask]
    rfl
  · have ha := isAmoRmw_of_kind hk
    obtain ⟨hamo, -, hsc⟩ := Decode.of_isAmoRmw ha
    have hs := (Decode.of_isAmo hamo).2
    rw [Arch.makes_amo ha, hs, hsc]
    rfl

end At

/-! ## Between commits -/

/-- The instruction at hand belongs to `A`. -/
structure Base (A : Arch) (s : State) : Prop extends At A s where
  mie : s.csr.mie = 0
  squash : s.fetchSquash = false
  inflight : s.fetchInflight = true → s.fsm = .fetch
  rest : s.fsm ≠ .div → s.divUnit.state = .idle
  done : s.divUnit.done = true → s.divUnit.state = .idle

theorem Base.irq (h : Base A s) (e : Ext) : Csr.irqPending s.csr e = false := Csr.irqPending_of_mie h.mie e

theorem Base.squash_step (h : Base A s) : (step s i).fetchSquash = false := by
  show fetchSquashNext s i = false
  simp [fetchSquashNext, h.irq, h.squash]

theorem Base.inflight_step (h : Base A s) (hn : (step s i).fetchInflight = true) : (step s i).fsm = .fetch :=
  (fetchTidy_step ⟨h.inflight, fun hq => by rw [h.squash] at hq; simp at hq⟩).inflight hn

/-- The divider rests outside of S_DIV. -/
theorem Base.rest_step (h : Base A s) (hn : (step s i).fsm ≠ .div) : (step s i).divUnit.state = .idle := by
  have hn' : fsmNext s i ≠ .div := hn
  have hidle : s.divUnit.state = .idle := by
    by_cases hf : s.fsm = .div
    · refine h.done ?_
      cases hdone : s.divUnit.done
      · simp [fsmNext, hf, hdone] at hn'
      · rfl
    · exact h.rest hf
  have hs : divStart s i.ext = false := by
    cases hs : divStart s i.ext
    · rfl
    · simp only [divStart, Bool.and_eq_true, beq_iff_eq, Option.isNone_iff_eq_none] at hs
      obtain ⟨⟨hf, hx⟩, hk⟩ := hs
      simp [fsmNext, hf, fsmExec, hx, hk] at hn'
  exact (DivUnit.step_of_idle hidle hs).1

/-- A cycle without a commit. -/
theorem Base.quiet (h : Base A s) (hq : (commit s i).valid = false) : Base A (step s i) where
  pc := by
    show pcNext s i = A.pc
    simp [pcNext, hq, h.pc]
  regs := by
    show s.regs.write (commit s i).rdWen _ _ = A.regs
    rw [(commit_quiet hq).1, RegFile.write_false, h.regs]
  mie := by
    have he : (csrIn s i).csrEn = false := by
      cases he : (csrIn s i).csrEn
      · rfl
      · rw [(csrEn_elim he).1] at hq
        simp at hq
    exact (Csr.mie_of_no_write he).trans h.mie
  squash := h.squash_step
  inflight := h.inflight_step
  rest := h.rest_step
  done := DivUnit.step_done_idle _ _

/-- An ordinary instruction commits without a trap. -/
theorem Base.commits {A' : Arch} (h : Base A s)
    (ho : ordinary (commit s i).insn = true) (hpc : (step s i).pc = A'.pc) (hregs : (step s i).regs = A'.regs) :
    Base A' (step s i) where
  pc := hpc
  regs := hregs
  mie := by
    have he : (csrIn s i).csrEn = false := by
      cases he : (csrIn s i).csrEn
      · rfl
      · obtain ⟨-, hw, hc⟩ := csrEn_elim he
        rw [hw] at ho
        simp [ordinary, Decode.isSystem, (isCsr_elim hc).1] at ho
    exact (Csr.mie_of_no_write he).trans h.mie
  squash := h.squash_step
  inflight := h.inflight_step
  rest := h.rest_step
  done := DivUnit.step_done_idle _ _

/-! ## Phases of an instruction -/

section
variable (mem₀ : Word → Word) (c : Nat → Shown) (inp : Nat → In) (A : Arch) (t : Nat) (s : State)

/-- In S_FETCH the fetch in flight asks for the word at the pc. -/
structure Fetching : Prop where
  accesses : accesses c t = A.accesses
  requests : Isa.requests c inp t = []
  link : Isa.linkOf s.resv = A.link
  pending : s.fetchInflight = true →
    ∃ a, Isa.fetches c inp t = [a] ∧ (c a).fetch = some A.pc ∧ Isa.accesses c a = A.accesses

structure Executing : Prop where
  accesses : accesses c t = A.accesses
  requests : Isa.requests c inp t = []
  link : Isa.linkOf s.resv = A.link
  instr : s.instr = A.insn mem₀

/-- S_MEM waits for the first access. -/
structure Accessing : Prop where
  accesses : accesses c t = A.accesses ++ (A.makes mem₀ s.instr).take 1
  requests : ∃ a x, Isa.requests c inp t = [a] ∧ (c a).access = some x ∧ x.addr = alignWord (A.addr s.instr)
  link : Isa.linkOf s.resv = if Decode.isSc s.instr then none else A.link
  instr : s.instr = A.insn mem₀
  asks : Asks A s.instr
  sound : A.sound s.instr = true
  lat : s.lat = busLatch A s.instr

/-- S_AMO_STORE and S_AMO_WAIT are at the store of an AMO. -/
structure Modifying : Prop where
  instr : s.instr = A.insn mem₀
  isAmoRmw : Decode.isAmoRmw s.instr = true
  sound : A.sound s.instr = true
  lat : s.lat = busLatch A s.instr
  old : s.amoOld = A.old mem₀ s.instr

structure Dividing : Prop where
  accesses : accesses c t = A.accesses
  requests : Isa.requests c inp t = []
  link : Isa.linkOf s.resv = A.link
  instr : s.instr = A.insn mem₀
  isDiv : Decode.isDiv s.instr = true
  sound : A.sound s.instr = true
  lat : s.lat.rd = rdField s.instr ∧ s.lat.pc = A.pc ∧ s.lat.instr = s.instr
  unit : (s.divUnit.done = false ∧ DivUnit.Working (Isa.divIn s.instr (A.rs1 s.instr) (A.rs2 s.instr)) s.divUnit) ∨
    (s.divUnit.done = true ∧ s.divUnit.state = .idle ∧
      s.divUnit.result = DivUnit.answer (Isa.divIn s.instr (A.rs1 s.instr) (A.rs2 s.instr)))

/-- Where the instruction of `A` stands. -/
inductive Phase : Prop
  | fetch (hf : s.fsm = .fetch) (h : Fetching c inp A t s)
  | exec (hf : s.fsm = .exec) (h : Executing mem₀ c inp A t s)
  | mem (hf : s.fsm = .mem) (h : Accessing mem₀ c inp A t s)
  | amoStore (hf : s.fsm = .amoStore) (h : Modifying mem₀ A s)
      (hacc : accesses c t = A.accesses ++ [A.readAccess s.instr]) (hreq : Isa.requests c inp t = [])
  | amoWait (hf : s.fsm = .amoWait) (h : Modifying mem₀ A s)
      (hacc : accesses c t = A.accesses ++ A.makes mem₀ s.instr) (hreq : ∃ a, Isa.requests c inp t = [a])
  | div (hf : s.fsm = .div) (h : Dividing mem₀ c inp A t s)

/-- The core performs the instruction of `A`. -/
structure Stands : Prop where
  base : Base A s
  phase : Phase mem₀ c inp A t s

/-- The instruction of `A` retires in cycle `t`. -/
structure Retires : Prop where
  retired : (c t).retired = some (A.retires mem₀ (A.insn mem₀))
  accesses : accesses c t = (A.exec mem₀ (A.insn mem₀)).accesses
  sound : A.sound (A.insn mem₀) = true

/-- What a cycle does for the instruction of `A`. -/
def Moves (s' : State) : Prop :=
  ((c t).retired = none ∧ Stands mem₀ c inp A (t + 1) s') ∨
    (Retires mem₀ c A t ∧ Stands mem₀ c inp (A.exec mem₀ (A.insn mem₀)) (t + 1) s')

end

/-! ## One clock edge -/

section
variable {c : Nat → Shown} {inp : Nat → In} {t : Nat}

theorem retired_none (hc : c t = shows s (inp t)) (hq : (commit s (inp t)).valid = false) : (c t).retired = none := by
  simp [hc, shows, hq]

theorem access_none (hc : c t = shows s (inp t)) (h : dmemReqValid s (inp t).ext = false) : (c t).access = none := by
  simp [hc, shows, dmemAccept, h]

/-- Neither a request nor a response. -/
theorem requests_idle (hs : Isa.Served c mem₀ inp) (h : Isa.requests c inp t = []) (hn : (c t).access = none) :
    Isa.requests c inp (t + 1) = [] := by
  have hr : (inp t).dmemRspValid = false := hs.data.quiet h
  exact (InOrder.outstanding_idle (by simp [hn]) hr).trans h

/-- No answer to a fetch is a fault. -/
theorem fetchTraps_false (hs : Isa.Served c mem₀ inp) (hb : Base A s) : fetchTraps s (inp t) = false := by
  cases hr : rspConsumable s (inp t)
  · simp [fetchTraps, hb.irq, hr]
  · have hv : (inp t).ifetchRspValid = true := by
      simp only [rspConsumable, Bool.and_eq_true] at hr
      exact hr.1.1
    simp [fetchTraps, hb.irq, hs.fetchClean t hv]

theorem fetching_step (h : Fetching c inp A t s) (hc : c t = shows s (inp t)) (hs : Isa.Served c mem₀ inp)
    (hone : Isa.OneFetch c inp) (hb : Base A s) (hf : s.fsm = .fetch) : Moves mem₀ c inp A t (step s (inp t)) := by
  have hq : (commit s (inp t)).valid = false := (fetch_commits hf).1.trans (fetchTraps_false hs hb)
  have hn : (c t).access = none := access_none hc (by simp [dmemReqValid, hf])
  have hacc : accesses c (t + 1) = A.accesses := (Isa.accesses_quiet hn).trans h.accesses
  have hreq := requests_idle hs h.requests hn
  have hlink : Isa.linkOf (step s (inp t)).resv = A.link := by rw [resv_fetch hf, h.link]
  refine .inl ⟨retired_none hc hq, hb.quiet hq, ?_⟩
  cases hr : rspConsumable s (inp t)
  · have hf' : (step s (inp t)).fsm = .fetch := by
      show fsmNext s (inp t) = .fetch
      simp [fsmNext, hf, hr]
    refine .fetch hf' ⟨hacc, hreq, hlink, fun hin => ?_⟩
    have hlen := hone (t + 1)
    rcases inflight_cases hin with ⟨-, ha⟩ | ⟨hin, hv⟩
    · have hfetch : (c t).fetch = some s.pc := by simp [hc, shows, ha]
      refine ⟨t, InOrder.outstanding_only hlen (by simp [hfetch]), ?_, h.accesses⟩
      rw [hfetch, hb.pc]
    · -- a second request would be a second fetch on the bus
      obtain ⟨a, ho, hfetch, hbefore⟩ := h.pending hin
      refine ⟨a, ?_, hfetch, hbefore⟩
      cases hi : (c t).fetch.isSome
      · exact (InOrder.outstanding_idle hi hv).trans ho
      · have ho' : Isa.fetches c inp (t + 1) = [a, t] := by
          show (if _ then _ else Isa.fetches c inp t) ++ _ = _
          simp [ho, hi, hv]
        rw [ho'] at hlen
        simp at hlen
  · have hr' := hr
    simp only [rspConsumable, Bool.and_eq_true] at hr'
    obtain ⟨⟨hv, hin⟩, -⟩ := hr'
    obtain ⟨a, ho, hfetch, hbefore⟩ := h.pending hin
    obtain ⟨u, x, hau, hut, hx, hd⟩ := hs.fetch.only ho hv
    have hf' : (step s (inp t)).fsm = .exec := by
      show fsmNext s (inp t) = .exec
      simp [fsmNext, hf, hr, hb.irq, hs.fetchClean t hv]
    refine .exec hf' ⟨hacc, hreq, hlink, ?_⟩
    rw [(enter_exec hf hf').2.2.2.2, hd]
    rw [hfetch, Option.some.injEq] at hx
    rw [← hx, Arch.insn, Isa.accesses_between (hbefore.trans h.accesses.symm) hau hut, h.accesses]

/-- Outside of S_FETCH no fetch is in flight behind the edge. -/
theorem inflight_none (hb : Base A s) (hf : s.fsm ≠ .fetch) : (step s i).fetchInflight = false := by
  cases hn : (step s i).fetchInflight
  · rfl
  · rcases inflight_cases hn with ⟨-, ha⟩ | ⟨hin, -⟩
    · simp only [ifetchAccept, Bool.and_eq_true] at ha
      exact absurd (request_elim ha.1).1 hf
    · exact absurd (hb.inflight hin) hf

/-- The instruction commits, and S_FETCH is entered for the next one. -/
theorem retire (wen : Bool) (hc : c t = shows s (inp t)) (hb : Base A s) (hi : s.instr = A.insn mem₀)
    (hk : commit s (inp t) = .retired A.pc s.instr wen (rdField s.instr) (A.result mem₀ s.instr))
    (hw : (wen && rdField s.instr != 0#5) = Decode.writesRd s.instr) (ho : ordinary s.instr = true)
    (hsound : A.sound s.instr = true) (hpc : pcNext s (inp t) = (A.exec mem₀ s.instr).pc)
    (hf : (step s (inp t)).fsm = .fetch) (hnf : s.fsm ≠ .fetch)
    (hacc : accesses c t = A.accesses ++ A.makes mem₀ s.instr) (hn : (c t).access = none)
    (hreq : Isa.requests c inp (t + 1) = [])
    (hlink : Isa.linkOf (step s (inp t)).resv = (A.exec mem₀ s.instr).link) :
    Moves mem₀ c inp A t (step s (inp t)) := by
  rw [hi] at hpc hacc hlink hsound
  have hret : (c t).retired = some (A.retires mem₀ (A.insn mem₀)) := by
    rw [hc, shows, hk, hi]
    rw [hi] at hw
    simp only [Commit.retired, hw, if_true, Arch.retires]
  have hregs : (step s (inp t)).regs = (A.exec mem₀ (A.insn mem₀)).regs := by
    show s.regs.write (commit s (inp t)).rdWen _ _ = A.regs.write _ _ _
    rw [hk, hb.regs, hi]
    rw [hi] at hw
    simp only [Commit.retired, hw]
  refine .inr ⟨⟨hret, hacc, hsound⟩, hb.commits (by rw [hk]; exact ho) hpc hregs, .fetch hf ⟨?_, hreq, hlink, ?_⟩⟩
  · exact (Isa.accesses_quiet hn).trans hacc
  · intro hin
    rw [inflight_none hb hnf] at hin
    simp at hin

/-! ### S_EXEC -/

/-- A legal word that is ordinary performs without an exception. -/
theorem sound_of_exec (h : At A s) (hx : execTrap s i.ext = none) (ho : ordinary s.instr = true) :
    A.sound s.instr = true := by
  have hsys : Decode.isSystem s.instr = false := by
    simp only [ordinary, Bool.and_eq_true, Bool.not_eq_true'] at ho
    exact ho.1
  have henv : (Decode.isEcall s.instr || Decode.isEbreak s.instr) = false := by
    simp [Decode.isEcall, Decode.isEbreak, Decode.isPriv, hsys]
  have hcsr : Decode.isCsr s.instr = false := by simp [Decode.isCsr, hsys]
  have hp : pipelineTrap s = none := by
    rw [pipelineTrap_late, illegal_eq]
    rw [execTrap_late, henv, hcsr] at hx
    simp only [Decode.illegalCsr, hcsr]
    cases hill : illegalOpcode s.instr (mode s)
    · simpa [hill] using hx
    · simp [hill] at hx
  have hs := (CorePipeline.trapInfo_isa (fetchedWord s.pc s.instr) (mode s) (rs1Data s) (rs2Data s) (rs1Data s)
    (rs2Data s) rfl rfl ho s.csr.privMode).mp hp
  rw [h.rs1, h.rs2] at hs
  rw [Arch.sound, ← h.pc]
  exact hs

theorem execTrap_none (hc : c t = shows s (inp t)) (hf : s.fsm = .exec)
    (hp : ∀ r, (c t).retired = some r → r.trap = false ∧ ordinary r.insn = true) :
    execTrap s (inp t).ext = none := by
  cases hx : execTrap s (inp t).ext
  · rfl
  · have hr : (c t).retired = some ⟨s.pc, s.instr, false, 0, 0, true⟩ := by
      simp [hc, shows, commit, hf, commitExec, hx, Commit.trapped]
    have ht := (hp _ hr).1
    simp at ht

/-- The request of S_EXEC waits for the bus, or the bus takes it. -/
theorem asking_step (h : Executing mem₀ c inp A t s) (hc : c t = shows s (inp t)) (hs : Isa.Served c mem₀ inp)
    (hb : Base A s) (hf : s.fsm = .exec) (hx : execTrap s (inp t).ext = none) (hk : Asks A s.instr) :
    Moves mem₀ c inp A t (step s (inp t)) := by
  have hhit : kind s.instr = .sc → scHit s = true := by
    intro hsc
    rw [hb.toAt.scHit h.link hsc]
    rcases hk with hk | hk | ⟨-, hk⟩ | hk
    · rw [hsc] at hk
      simp at hk
    · rw [hsc] at hk
      simp at hk
    · exact hk
    · rw [hsc] at hk
      simp at hk
  have hreq : execRequests s (inp t).ext = true := by
    rcases hk with hk | hk | ⟨hk, -⟩ | hk <;> simp [execRequests, hx, hk]
    exact hhit hk
  have hq : (commit s (inp t)).valid = false := by
    rcases hk with hk | hk | ⟨hk, -⟩ | hk <;> simp [commit, hf, commitExec, hx, hk, Commit.none]
    simp [hhit hk]
  have hinstr : (step s (inp t)).instr = s.instr := by
    show instrNext s (inp t) = s.instr
    simp [instrNext, hf]
  refine .inl ⟨retired_none hc hq, hb.quiet hq, ?_⟩
  cases hr : (inp t).dmemReqReady
  · have hn : (c t).access = none := by simp [hc, shows, dmemAccept, hr]
    have hf' : (step s (inp t)).fsm = .exec := by
      show fsmNext s (inp t) = .exec
      rcases hk with hk | hk | ⟨hk, -⟩ | hk <;> simp [fsmNext, hf, fsmExec, hx, hk, hr]
      exact hhit hk
    have hresv : (step s (inp t)).resv = s.resv := by
      show resvNext s (inp t) = s.resv
      rcases hk with hk | hk | ⟨hk, -⟩ | hk <;> simp [resvNext, hf, hx, hk, hr]
      simp [hhit hk]
    exact .exec hf' ⟨(Isa.accesses_quiet hn).trans h.accesses, requests_idle hs h.requests hn, by rw [hresv, h.link],
      hinstr.trans h.instr⟩
  · have hv : dmemReqValid s (inp t).ext = true := by simp [dmemReqValid, hf, hreq]
    have hacc : (c t).access =
        some (Isa.portAccess (dmemReqAddr s) (dmemReqWen s) (dmemReqWdata s) (dmemReqWmask s) (dmemReqSize s)) := by
      simp [hc, shows, dmemAccept, hv, hr]
    have hport := hb.toAt.access mem₀ hf hk
    have hf' : (step s (inp t)).fsm = .mem := by
      show fsmNext s (inp t) = .mem
      rcases hk with hk | hk | ⟨hk, -⟩ | hk <;> simp [fsmNext, hf, fsmExec, hx, hk, hr]
      exact hhit hk
    have hlat : (step s (inp t)).lat = busLatch A s.instr := by
      rw [← hb.toAt.latch hk]
      show latNext s (inp t) = execLatch s
      simp [latNext, hf, hreq, hr]
    refine .mem hf' ⟨?_, ⟨t, _, ?_, hacc, ?_⟩, ?_, hinstr.trans h.instr, hinstr ▸ hk, ?_, hinstr ▸ hlat⟩
    · rw [Isa.accesses_more hacc, h.accesses, hinstr, hport]
    · have ho : Isa.requests c inp (t + 1) = if (c t).access.isSome then [t] else [] :=
        InOrder.outstanding_issue h.requests
      simpa [hacc] using ho
    · rw [hinstr]
      exact @Arch.makes_addr mem₀ _ _ _ (List.mem_of_mem_take (by rw [hport]; exact List.mem_singleton_self _))
    · show Isa.linkOf (resvNext s (inp t)) = if Decode.isSc (step s (inp t)).instr then none else A.link
      rw [hinstr]
      rcases hk with hk | hk | ⟨hk, -⟩ | hk
      · have hsc := (Decode.not_atomic_of_access (isAccess_of_kind hk)).2.1
        simp [resvNext, hf, hx, hk, hsc, h.link]
      · have hsc := (Decode.of_isLr (isLr_of_kind hk)).1
        simp [resvNext, hf, hx, hk, hsc, h.link]
      · simp [resvNext, hf, hx, hk, hr, isSc_of_kind hk, Isa.linkOf]
      · have hsc := (Decode.of_isAmoRmw (isAmoRmw_of_kind hk)).2.2
        simp [resvNext, hf, hx, hk, hsc, h.link]
    · rw [hinstr]
      exact sound_of_exec hb.toAt hx hk.ordinary

/-- An instruction that S_EXEC commits itself. -/
theorem single_step (h : Executing mem₀ c inp A t s) (hc : c t = shows s (inp t)) (hs : Isa.Served c mem₀ inp)
    (hb : Base A s) (hf : s.fsm = .exec) (hx : execTrap s (inp t).ext = none) (hk : kind s.instr = .single)
    (ho : ordinary s.instr = true) : Moves mem₀ c inp A t (step s (inp t)) := by
  obtain ⟨hl, hst, hat, hd⟩ := of_single hk
  have hcsr : Decode.isCsr s.instr = false := by
    simp only [ordinary, Bool.and_eq_true, Bool.not_eq_true'] at ho
    simp [Decode.isCsr, ho.1]
  have hamo : Decode.isLr s.instr = false ∧ Decode.isSc s.instr = false ∧ Decode.isAmoRmw s.instr = false := by
    simpa [Decode.isAtomic, Bool.or_eq_false_iff, and_assoc] using hat
  have hsound := sound_of_exec hb.toAt hx ho
  have haw : Decode.isAmoW s.instr = false := by
    simp only [Arch.sound, Isa.sound, Isa.legal, Decode.illegalOpcode, hat, Bool.and_eq_true] at hsound
    cases haw : Decode.isAmoW s.instr
    · rfl
    · have hop : opcode s.instr = OP_AMO := by
        simp only [Decode.isAmoW, Decode.isAmo, Bool.and_eq_true, beq_iff_eq] at haw
        exact haw.1
      simp [Decode.isLui, Decode.isAuipc, Decode.isJal, Decode.isJalr, Decode.isBranch, Decode.isLoad, Decode.isStore,
        Decode.isOpImm, Decode.isOp, Decode.isMisc, Decode.isSystem, hop, OP_AMO, OP_LUI, OP_AUIPC, OP_JAL, OP_JALR,
        OP_BRANCH, OP_LOAD, OP_STORE, OP_OP_IMM, OP_OP, OP_MISC_MEM, OP_SYSTEM] at hsound
  have hres : arithWb s (inp t).ext = A.result mem₀ s.instr := by
    rw [arithWb_isa hl hst haw hcsr hd, hb.toAt.rs1, hb.toAt.rs2, hb.pc]
    simp [Arch.result, hl, hst, hamo]
  have hn : (c t).access = none := access_none hc (by simp [dmemReqValid, hf, execRequests, hx, hk])
  refine retire (singleWbEn s) hc hb h.instr ?_ ?_ ho hsound ?_ ?_ (by simp [hf]) ?_ hn
    (requests_idle hs h.requests hn) ?_
  · simp only [commit, hf, commitExec, hx, hk, hres, hb.pc]
  · simp [singleWbEn, Decode.writesRd, hl, hat, hcsr]
  · have hv : (commit s (inp t)).valid = true ∧ (commit s (inp t)).trap = false := by
      simp [commit, hf, commitExec, hx, hk, Commit.retired]
    simp only [pcNext, hv.1, hv.2, hf, if_true, Bool.false_eq_true, if_false]
    rw [execPc_isa hk, hb.toAt.rs1, hb.toAt.rs2, hb.pc]
    rfl
  · show fsmNext s (inp t) = .fetch
    simp [fsmNext, hf, fsmExec, hx, hk]
  · rw [h.accesses, Arch.makes_none hl hst hat, List.append_nil]
  · show Isa.linkOf (resvNext s (inp t)) = _
    simp [resvNext, hf, hx, hk, h.link, Arch.exec, hamo]

/-- An SC without its link commits at once. -/
theorem scMiss_step (h : Executing mem₀ c inp A t s) (hc : c t = shows s (inp t)) (hs : Isa.Served c mem₀ inp)
    (hb : Base A s) (hf : s.fsm = .exec) (hx : execTrap s (inp t).ext = none) (hk : kind s.instr = .sc)
    (hmiss : A.scHit s.instr = false) : Moves mem₀ c inp A t (step s (inp t)) := by
  have hsc := isSc_of_kind hk
  have hat : Decode.isAtomic s.instr = true := by simp [Decode.isAtomic, hsc]
  obtain ⟨hlr, ha⟩ := Decode.of_isSc hsc
  obtain ⟨hl, hst⟩ := Decode.of_isAmo (Decode.isAmo_of_isSc hsc)
  have ho : ordinary s.instr = true := ordinary_of_opcode (.inr (.inr (.inl (Decode.opcode_of_isAtomic hat))))
  have hh : scHit s = false := (hb.toAt.scHit h.link hk).trans hmiss
  have hn : (c t).access = none := access_none hc (by simp [dmemReqValid, hf, execRequests, hx, hk, hh])
  refine retire true hc hb h.instr ?_ ?_ ho (sound_of_exec hb.toAt hx ho) ?_ ?_ (by simp [hf]) ?_ hn
    (requests_idle hs h.requests hn) ?_
  · simp [commit, hf, commitExec, hx, hk, hh, hb.pc, Arch.result, hl, hst, hlr, ha, hsc, hmiss]
  · simp [Decode.writesRd, hat]
  · have hv : (commit s (inp t)).valid = true ∧ (commit s (inp t)).trap = false := by
      simp [commit, hf, commitExec, hx, hk, hh, Commit.retired]
    simp only [pcNext, hv.1, hv.2, hf, if_true, Bool.false_eq_true, if_false]
    rw [execPc, hk, Arch.exec, nextPc_of_straight (.inl hat), hb.pc]
  · show fsmNext s (inp t) = .fetch
    simp [fsmNext, hf, fsmExec, hx, hk, hh]
  · rw [h.accesses, Arch.makes_sc hsc, hmiss]
    simp
  · show Isa.linkOf (resvNext s (inp t)) = _
    simp [resvNext, hf, hx, hk, hh, Arch.exec, hlr, hsc, Isa.linkOf]

theorem divStart_step (h : Executing mem₀ c inp A t s) (hc : c t = shows s (inp t)) (hs : Isa.Served c mem₀ inp)
    (hb : Base A s) (hf : s.fsm = .exec) (hx : execTrap s (inp t).ext = none) (hk : kind s.instr = .div) :
    Moves mem₀ c inp A t (step s (inp t)) := by
  have hd := isDiv_of_kind hk
  have hq : (commit s (inp t)).valid = false := by simp [commit, hf, commitExec, hx, hk, Commit.none]
  have hn : (c t).access = none := access_none hc (by simp [dmemReqValid, hf, execRequests, hx, hk])
  have hstart : divStart s (inp t).ext = true := by simp [divStart, hf, hx, hk]
  have hinstr : (step s (inp t)).instr = s.instr := by
    show instrNext s (inp t) = s.instr
    simp [instrNext, hf]
  have hlat : (step s (inp t)).lat = execLatch s := by
    show latNext s (inp t) = execLatch s
    simp [latNext, hf, hstart]
  have hin : divIn s (inp t).ext = Isa.divIn s.instr (A.rs1 s.instr) (A.rs2 s.instr) := by
    simp [divIn, Isa.divIn, hstart, hb.toAt.rs1, hb.toAt.rs2]
  have ho : ordinary s.instr = true := ordinary_of_opcode (.inr (.inr (.inr (Decode.opcode_of_isDiv hd))))
  refine .inl ⟨retired_none hc hq, hb.quiet hq, .div ?_ ⟨(Isa.accesses_quiet hn).trans h.accesses,
    requests_idle hs h.requests hn, ?_, hinstr.trans h.instr, hinstr ▸ hd,
    hinstr ▸ sound_of_exec hb.toAt hx ho, ?_, ?_⟩⟩
  · show fsmNext s (inp t) = .div
    simp [fsmNext, hf, fsmExec, hx, hk]
  · show Isa.linkOf (resvNext s (inp t)) = A.link
    simp [resvNext, hf, hx, hk, h.link]
  · rw [hlat, hinstr]
    simp [execLatch, hk, hb.pc]
  · have hidle := hb.rest (by simp [hf])
    have hst : (divIn s (inp t).ext).start = true := hstart
    rw [hinstr, ← hin]
    exact .inl ⟨(DivUnit.step_started hidle hst).2, DivUnit.working_of_start hidle hst⟩

theorem executing_step (h : Executing mem₀ c inp A t s) (hc : c t = shows s (inp t)) (hs : Isa.Served c mem₀ inp)
    (hp : ∀ r, (c t).retired = some r → r.trap = false ∧ ordinary r.insn = true) (hb : Base A s)
    (hf : s.fsm = .exec) : Moves mem₀ c inp A t (step s (inp t)) := by
  have hx := execTrap_none hc hf hp
  -- what commits in S_EXEC is ordinary
  have ho : (commit s (inp t)).valid = true → ordinary s.instr = true := by
    intro hv
    have hi : (commit s (inp t)).insn = s.instr := by
      simp only [commit, hf, commitExec, hx]
      cases kind s.instr <;> simp only [Commit.none, Commit.retired]
      split_ifs <;> rfl
    have hr := hp _ (show (c t).retired = some _ by rw [hc]; exact if_pos hv)
    rw [← hi]
    exact hr.2
  have hsys : (kind s.instr = .mret ∨ kind s.instr = .sret) → False := by
    intro hk
    have hord := ho (by rcases hk with hk | hk <;> simp [commit, hf, commitExec, hx, hk, Commit.retired])
    simp [ordinary, isSystem_of_kind hk] at hord
  cases hk : kind s.instr
  case mret => exact (hsys (.inl hk)).elim
  case sret => exact (hsys (.inr hk)).elim
  case loadStore => exact asking_step h hc hs hb hf hx (.inl hk)
  case lr => exact asking_step h hc hs hb hf hx (.inr (.inl hk))
  case sc =>
    cases hh : A.scHit s.instr
    · exact scMiss_step h hc hs hb hf hx hk hh
    · exact asking_step h hc hs hb hf hx (.inr (.inr (.inl ⟨hk, hh⟩)))
  case amo => exact asking_step h hc hs hb hf hx (.inr (.inr (.inr hk)))
  case div => exact divStart_step h hc hs hb hf hx hk
  case single =>
    exact single_step h hc hs hb hf hx hk (ho (by simp [commit, hf, commitExec, hx, hk, Commit.retired]))

/-! ### Behind S_EXEC -/

theorem nextPc_of_lat (hv : (commit s i).valid = true ∧ (commit s i).trap = false) (hf : s.fsm ≠ .exec)
    (hl : s.lat.pc = A.pc) (hw : Decode.isAtomic s.instr = true ∨ Decode.isLoad s.instr = true ∨
      Decode.isStore s.instr = true ∨ Decode.isDiv s.instr = true) :
    pcNext s i = (A.exec mem₀ s.instr).pc := by
  simp only [pcNext, hv.1, hv.2, if_true, Bool.false_eq_true, if_false, if_neg hf]
  rw [hl, Arch.exec, nextPc_of_straight hw]

theorem Asks.straight {w : Word} (h : Asks A w) : Decode.isAtomic w = true ∨ Decode.isLoad w = true ∨
    Decode.isStore w = true ∨ Decode.isDiv w = true := by
  rcases h.opcode with h | h | h
  · exact .inr (.inl (by simp [Decode.isLoad, h]))
  · exact .inr (.inr (.inl (by simp [Decode.isStore, h])))
  · exact .inl h

/-- The data that S_MEM is answered with. -/
theorem Accessing.data (h : Accessing mem₀ c inp A t s) (hs : Isa.Served c mem₀ inp)
    (hr : (inp t).dmemRspValid = true) :
    (inp t).dmemRspRdata = contents mem₀ (A.accesses ++ (A.makes mem₀ s.instr).take 1) (A.addr s.instr) := by
  obtain ⟨a, x, ho, hx, haddr⟩ := h.requests
  obtain ⟨y, hy, hd⟩ := hs.data.only ho hr
  rw [hx, Option.some.injEq] at hy
  rw [hd, ← hy, haddr, Isa.contents_alignWord, h.accesses]

/-- The result of a load, a store or an LR. -/
theorem loadValue_isa {w x : Word} (hk : Asks A w) (ha : Decode.isAmoRmw w = false) (hsc : Decode.isSc w = false)
    (hx : x = contents mem₀ (A.accesses ++ A.makes mem₀ w) (A.addr w)) :
    Isa.loadValue (funct3 w) (A.addr w) x = A.result mem₀ w := by
  rw [hx, Arch.result]
  rcases hk with hk | hk | ⟨hk, -⟩ | hk
  · rw [if_pos (isAccess_of_kind hk)]
  · have hlr := isLr_of_kind hk
    obtain ⟨hl, hst⟩ := Decode.of_isAmo (Decode.isAmo_of_isLr hlr)
    have haw := Decode.isAmoW_of_isAtomic (w := w) (by simp [Decode.isAtomic, hlr])
    simp only [Decode.isAmoW, Bool.and_eq_true, beq_iff_eq] at haw
    rw [Arch.makes_read (by simp [hlr]), Arch.readAccess, Isa.contents_read, haw.2, hl, hst, hlr]
    rfl
  · rw [isSc_of_kind hk] at hsc
    simp at hsc
  · rw [isAmoRmw_of_kind hk] at ha
    simp at ha

theorem writesRd_isa {w : Word} (hk : Asks A w) (ha : Decode.isAmoRmw w = false) (hsc : Decode.isSc w = false) :
    ((Decode.isLoad w || Decode.isLr w) && rdField w != 0#5) = Decode.writesRd w := by
  rcases hk with hk | hk | ⟨hk, -⟩ | hk
  · have hls := isAccess_of_kind hk
    cases hst : Decode.isStore w
    · rw [hst, Bool.or_false] at hls
      simp [Decode.writesRd, hls]
    · have hl : Decode.isLoad w = false := by
        cases hl : Decode.isLoad w
        · rfl
        · rw [Decode.isStore_of_isLoad hl] at hst
          simp at hst
      rw [Decode.writesRd_of_isStore hst, hl, (Decode.not_atomic_of_access hls).1]
      rfl
  · simp [Decode.writesRd, Decode.isAtomic, isLr_of_kind hk]
  · rw [isSc_of_kind hk] at hsc
    simp at hsc
  · rw [isAmoRmw_of_kind hk] at ha
    simp at ha

/-- Only an AMO makes a second access. -/
theorem Asks.makes_one {w : Word} (hk : Asks A w) (ha : Decode.isAmoRmw w = false) :
    (A.makes mem₀ w).take 1 = A.makes mem₀ w := by
  rcases hk with hk | hk | ⟨hk, hhit⟩ | hk
  · have hls := isAccess_of_kind hk
    cases hst : Decode.isStore w
    · rw [hst, Bool.or_false] at hls
      rw [Arch.makes_read (by simp [hls])]
      rfl
    · rw [Arch.makes_store hst]
      rfl
  · rw [Arch.makes_read (by simp [isLr_of_kind hk])]
    rfl
  · rw [Arch.makes_sc (isSc_of_kind hk), hhit]
    rfl
  · rw [isAmoRmw_of_kind hk] at ha
    simp at ha

/-- The answer to the only access of an instruction. -/
theorem answered_step (h : Accessing mem₀ c inp A t s) (hc : c t = shows s (inp t)) (hs : Isa.Served c mem₀ inp)
    (hb : Base A s) (hf : s.fsm = .mem) (hr : (inp t).dmemRspValid = true) (ha : Decode.isAmoRmw s.instr = false) :
    Moves mem₀ c inp A t (step s (inp t)) := by
  obtain ⟨a, x, ho, -, -⟩ := h.requests
  have hn : (c t).access = none := access_none hc (by simp [dmemReqValid, hf])
  have hfail : dmemRspFails (inp t) = false := by simp [dmemRspFails, hs.dataClean t hr]
  have hreq : Isa.requests c inp (t + 1) = [] := InOrder.outstanding_return ho (by simp [hn]) hr
  have hlat := h.lat
  have hrmw : s.lat.isRmw = false := by
    rw [hlat]
    exact ha
  have hdata := h.data hs hr
  have hacc := h.accesses
  rw [h.asks.makes_one ha] at hacc hdata
  have hv : (commit s (inp t)).valid = true ∧ (commit s (inp t)).trap = false := by
    simp only [commit, hf, commitMem, hr, hfail, hrmw, if_true, Bool.false_eq_true, if_false]
    cases s.lat.isSc <;> exact ⟨rfl, rfl⟩
  have hf' : (step s (inp t)).fsm = .fetch := by
    show fsmNext s (inp t) = .fetch
    simp [fsmNext, hf, hr, hrmw]
  have hpc : pcNext s (inp t) = (A.exec mem₀ s.instr).pc :=
    nextPc_of_lat hv (by simp [hf]) (by rw [hlat]; rfl) h.asks.straight
  have hlink : Isa.linkOf (step s (inp t)).resv = (A.exec mem₀ s.instr).link := by
    have hl := h.link
    have hresv : (step s (inp t)).resv =
        if Decode.isLr s.instr then ⟨true, (A.addr s.instr).extractLsb' 2 30⟩ else s.resv := by
      show resvNext s (inp t) = _
      simp only [resvNext, hf, hr, hfail, ha, if_true, Bool.false_eq_true, if_false, hlat, busLatch]
    rw [hresv, Arch.exec]
    cases hlr : Decode.isLr s.instr
    · simpa [ha] using hl
    · simp [Isa.linkOf]
  cases hsc : Decode.isSc s.instr
  · have hk : commit s (inp t) = .retired A.pc s.instr (Decode.isLoad s.instr || Decode.isLr s.instr)
        (rdField s.instr) (A.result mem₀ s.instr) := by
      rw [← loadValue_isa h.asks ha hsc hdata]
      simp only [commit, hf, commitMem, hr, hfail, if_true, Bool.false_eq_true, if_false, hlat, busLatch, ha, hsc,
        Bool.or_false, loadResult, loadAligned_isa]
    exact retire _ hc hb h.instr hk (writesRd_isa h.asks ha hsc) h.asks.ordinary h.sound hpc hf' (by simp [hf]) hacc hn
      hreq hlink
  · obtain ⟨hlr, -⟩ := Decode.of_isSc hsc
    obtain ⟨hl, hst⟩ := Decode.of_isAmo (Decode.isAmo_of_isSc hsc)
    have hhit : A.scHit s.instr = true := by
      rcases h.asks with hk | hk | ⟨-, hh⟩ | hk
      · rw [(Decode.not_atomic_of_access (isAccess_of_kind hk)).2.1] at hsc
        simp at hsc
      · rw [isLr_of_kind hk] at hlr
        simp at hlr
      · exact hh
      · rw [isAmoRmw_of_kind hk] at ha
        simp at ha
    have hk : commit s (inp t) = .retired A.pc s.instr true (rdField s.instr) (A.result mem₀ s.instr) := by
      simp [commit, hf, commitMem, hr, hfail, hlat, busLatch, ha, hsc, Arch.result, hl, hst, hlr, hhit]
    refine retire _ hc hb h.instr hk ?_ h.asks.ordinary h.sound hpc hf' (by simp [hf]) hacc hn hreq hlink
    simp [Decode.writesRd, Decode.isAtomic, hsc]

/-- An AMO goes on with its store, any other access commits. -/
theorem accessing_step (h : Accessing mem₀ c inp A t s) (hc : c t = shows s (inp t)) (hs : Isa.Served c mem₀ inp)
    (hb : Base A s) (hf : s.fsm = .mem) : Moves mem₀ c inp A t (step s (inp t)) := by
  have hn : (c t).access = none := access_none hc (by simp [dmemReqValid, hf])
  have hinstr : (step s (inp t)).instr = s.instr := by
    show instrNext s (inp t) = s.instr
    simp [instrNext, hf]
  obtain ⟨a, x, ho, hx, haddr⟩ := h.requests
  cases hr : (inp t).dmemRspValid
  · have hq : (commit s (inp t)).valid = false := by simp [commit, hf, commitMem, hr, Commit.none]
    have hlat : (step s (inp t)).lat = s.lat := by
      show latNext s (inp t) = s.lat
      simp [latNext, hf, hr]
    have hresv : (step s (inp t)).resv = s.resv := by
      show resvNext s (inp t) = s.resv
      simp [resvNext, hf, hr]
    refine .inl ⟨retired_none hc hq, hb.quiet hq, .mem ?_ ⟨?_, ⟨a, x, ?_, hx, hinstr ▸ haddr⟩, ?_,
      hinstr.trans h.instr, hinstr ▸ h.asks, hinstr ▸ h.sound, ?_⟩⟩
    · show fsmNext s (inp t) = .mem
      simp [fsmNext, hf, hr]
    · rw [Isa.accesses_quiet hn, hinstr, h.accesses]
    · exact (InOrder.outstanding_idle (by simp [hn]) hr).trans ho
    · rw [hresv, hinstr, h.link]
    · rw [hlat, hinstr, h.lat]
  cases ha : Decode.isAmoRmw s.instr
  · exact answered_step h hc hs hb hf hr ha
  · have hfail : dmemRspFails (inp t) = false := by simp [dmemRspFails, hs.dataClean t hr]
    have hlat := h.lat
    have hrmw : s.lat.isRmw = true := by
      rw [hlat]
      exact ha
    have hq : (commit s (inp t)).valid = false := by simp [commit, hf, commitMem, hr, hfail, hrmw, Commit.none]
    have hread : (A.makes mem₀ s.instr).take 1 = [A.readAccess s.instr] := by
      rw [Arch.makes_amo ha]
      rfl
    have hdata := h.data hs hr
    have hacc := h.accesses
    rw [hread] at hacc hdata
    refine .inl ⟨retired_none hc hq, hb.quiet hq, .amoStore ?_ ⟨hinstr.trans h.instr, hinstr ▸ ha, hinstr ▸ h.sound,
      ?_, ?_⟩ ?_ (InOrder.outstanding_return ho (by simp [hn]) hr)⟩
    · show fsmNext s (inp t) = .amoStore
      simp [fsmNext, hf, hr, hfail, hrmw]
    · rw [hinstr, ← hlat]
      show latNext s (inp t) = s.lat
      simp [latNext, hf, hr, hfail, hrmw]
    · rw [hinstr, Arch.old, ← Isa.contents_read (alignWord (A.addr s.instr)) (Isa.size s.instr), ← Arch.readAccess,
        ← hdata]
      show amoOldNext s (inp t) = (inp t).dmemRspRdata
      simp [amoOldNext, hf, hr, hfail, hrmw]
    · rw [Isa.accesses_quiet hn, hinstr, hacc]

/-! ### The store of an AMO -/

theorem amoStore_step (h : Modifying mem₀ A s) (hacc : accesses c t = A.accesses ++ [A.readAccess s.instr])
    (hreq : Isa.requests c inp t = []) (hc : c t = shows s (inp t)) (hs : Isa.Served c mem₀ inp) (hb : Base A s)
    (hf : s.fsm = .amoStore) : Moves mem₀ c inp A t (step s (inp t)) := by
  have hq : (commit s (inp t)).valid = false := by simp [commit, hf, Commit.none]
  have hinstr : (step s (inp t)).instr = s.instr := by
    show instrNext s (inp t) = s.instr
    simp [instrNext, hf]
  have hold : (step s (inp t)).amoOld = s.amoOld := by
    show amoOldNext s (inp t) = s.amoOld
    simp [amoOldNext, hf]
  have hlat : (step s (inp t)).lat = s.lat := by
    show latNext s (inp t) = s.lat
    simp [latNext, hf]
  have hm : Modifying mem₀ A (step s (inp t)) := by
    refine ⟨hinstr.trans h.instr, hinstr ▸ h.isAmoRmw, hinstr ▸ h.sound, ?_, ?_⟩
    · rw [hlat, hinstr, h.lat]
    · rw [hold, hinstr, h.old]
  refine .inl ⟨retired_none hc hq, hb.quiet hq, ?_⟩
  cases hr : (inp t).dmemReqReady
  · have hn : (c t).access = none := by simp [hc, shows, dmemAccept, hr]
    refine .amoStore ?_ hm ?_ (requests_idle hs hreq hn)
    · show fsmNext s (inp t) = .amoStore
      simp [fsmNext, hf, hr]
    · rw [Isa.accesses_quiet hn, hinstr, hacc]
  · obtain ⟨hamo, -, hsc⟩ := Decode.of_isAmoRmw h.isAmoRmw
    have hst := (Decode.of_isAmo hamo).2
    have haddr : dmemReqAddr s = alignWord (A.addr s.instr) := by
      simp only [dmemReqAddr, hf, h.lat, busLatch]
    have hdata : dmemReqWdata s = Isa.amoValue (amoFunct5 s.instr) (A.old mem₀ s.instr) (A.rs2 s.instr) := by
      rw [dmemReqWdata, hf, ← h.old, ← hb.toAt.rs2]
      exact amoResult_isa h.isAmoRmw
    have hmask : dmemReqWmask s = 0b1111#4 ∧ dmemReqSize s = 0b10#2 ∧ dmemReqWen s = true := by
      simp only [dmemReqWmask, dmemReqSize, dmemReqWen, hf, and_self]
    have hsize : Isa.size s.instr = 0b10#2 := by simp [Isa.size, Decode.isAtomic, h.isAmoRmw]
    have hx : (c t).access = some (A.writeAccess mem₀ s.instr) := by
      have hport : (c t).access =
          some (Isa.portAccess (dmemReqAddr s) (dmemReqWen s) (dmemReqWdata s) (dmemReqWmask s) (dmemReqSize s)) := by
        simp [hc, shows, dmemAccept, dmemReqValid, hf, hr]
      rw [hport, haddr, hdata, hmask.1, hmask.2.1, hmask.2.2, Arch.writeAccess, hst, hsc, hsize]
      rfl
    refine .amoWait ?_ hm ?_ ⟨t, ?_⟩
    · show fsmNext s (inp t) = .amoWait
      simp [fsmNext, hf, hr]
    · rw [Isa.accesses_more hx, hacc, hinstr, Arch.makes_amo h.isAmoRmw, List.append_assoc]
      rfl
    · have ho : Isa.requests c inp (t + 1) = if (c t).access.isSome then [t] else [] :=
        InOrder.outstanding_issue hreq
      simpa [hx] using ho

theorem amoWait_step (h : Modifying mem₀ A s) (hacc : accesses c t = A.accesses ++ A.makes mem₀ s.instr)
    (hreq : ∃ a, Isa.requests c inp t = [a]) (hc : c t = shows s (inp t)) (hs : Isa.Served c mem₀ inp) (hb : Base A s)
    (hf : s.fsm = .amoWait) : Moves mem₀ c inp A t (step s (inp t)) := by
  have hn : (c t).access = none := access_none hc (by simp [dmemReqValid, hf])
  obtain ⟨a, ho⟩ := hreq
  have hat : Decode.isAtomic s.instr = true := by simp [Decode.isAtomic, h.isAmoRmw]
  cases hr : (inp t).dmemRspValid
  · have hq : (commit s (inp t)).valid = false := by simp [commit, hf, commitAmoWait, hr, Commit.none]
    have hinstr : (step s (inp t)).instr = s.instr := by
      show instrNext s (inp t) = s.instr
      simp [instrNext, hf]
    have hold : (step s (inp t)).amoOld = s.amoOld := by
      show amoOldNext s (inp t) = s.amoOld
      simp [amoOldNext, hf]
    have hlat : (step s (inp t)).lat = s.lat := by
      show latNext s (inp t) = s.lat
      simp [latNext, hf, hr]
    refine .inl ⟨retired_none hc hq, hb.quiet hq, .amoWait ?_ ⟨hinstr.trans h.instr, hinstr ▸ h.isAmoRmw,
      hinstr ▸ h.sound, ?_, ?_⟩ ?_ ⟨a, (InOrder.outstanding_idle (by simp [hn]) hr).trans ho⟩⟩
    · show fsmNext s (inp t) = .amoWait
      simp [fsmNext, hf, hr]
    · rw [hlat, hinstr, h.lat]
    · rw [hold, hinstr, h.old]
    · rw [Isa.accesses_quiet hn, hinstr, hacc]
  · have hfail : dmemRspFails (inp t) = false := by simp [dmemRspFails, hs.dataClean t hr]
    obtain ⟨hamo, hlr, hsc⟩ := Decode.of_isAmoRmw h.isAmoRmw
    obtain ⟨hl, hst⟩ := Decode.of_isAmo hamo
    have hlat := h.lat
    have hk : commit s (inp t) = .retired A.pc s.instr true (rdField s.instr) (A.result mem₀ s.instr) := by
      simp [commit, hf, commitAmoWait, hr, hfail, hlat, busLatch, Arch.result, hl, hst, h.isAmoRmw, h.old]
    have hv : (commit s (inp t)).valid = true ∧ (commit s (inp t)).trap = false := by
      rw [hk]
      exact ⟨rfl, rfl⟩
    have hord : ordinary s.instr = true :=
      ordinary_of_opcode (.inr (.inr (.inl (Decode.opcode_of_isAtomic hat))))
    refine retire _ hc hb h.instr hk ?_ hord h.sound
      (nextPc_of_lat hv (by simp [hf]) (by rw [hlat]; rfl) (.inl hat)) ?_ (by simp [hf]) hacc hn
      (InOrder.outstanding_return ho (by simp [hn]) hr) ?_
    · simp [Decode.writesRd, hat]
    · show fsmNext s (inp t) = .fetch
      simp [fsmNext, hf, hr]
    · show Isa.linkOf (resvNext s (inp t)) = _
      simp [resvNext, hf, hr, Arch.exec, hlr, h.isAmoRmw, Isa.linkOf]

/-! ### The divider -/

theorem dividing_step (h : Dividing mem₀ c inp A t s) (hc : c t = shows s (inp t)) (hs : Isa.Served c mem₀ inp)
    (hb : Base A s) (hf : s.fsm = .div) : Moves mem₀ c inp A t (step s (inp t)) := by
  have hn : (c t).access = none := access_none hc (by simp [dmemReqValid, hf])
  have hreq := requests_idle hs h.requests hn
  have hresv : (step s (inp t)).resv = s.resv := by
    show resvNext s (inp t) = s.resv
    simp [resvNext, hf]
  obtain ⟨hl, hst, hlr, hsc, ham⟩ := Decode.not_bus_of_isDiv h.isDiv
  rcases h.unit with ⟨hd, hwork⟩ | ⟨hd, -, hres⟩
  · have hq : (commit s (inp t)).valid = false := by simp [commit, hf, commitDiv, hd, Commit.none]
    have hinstr : (step s (inp t)).instr = s.instr := by
      show instrNext s (inp t) = s.instr
      simp [instrNext, hf]
    have hlat : (step s (inp t)).lat = s.lat := by
      show latNext s (inp t) = s.lat
      simp [latNext, hf]
    refine .inl ⟨retired_none hc hq, hb.quiet hq, .div ?_ ⟨(Isa.accesses_quiet hn).trans h.accesses, hreq, ?_,
      hinstr.trans h.instr, hinstr ▸ h.isDiv, hinstr ▸ h.sound, ?_, ?_⟩⟩
    · show fsmNext s (inp t) = .div
      simp [fsmNext, hf, hd]
    · rw [hresv, h.link]
    · rw [hlat, hinstr]
      exact h.lat
    · rw [hinstr]
      rcases DivUnit.working_step (j := divIn s (inp t).ext) hwork with ⟨hd', hres⟩ | hw
      · exact .inr ⟨hd', DivUnit.step_done_idle _ _ hd', hres⟩
      · exact .inl hw
  · have hat : Decode.isAtomic s.instr = false := by simp [Decode.isAtomic, hlr, hsc, ham]
    have hk : commit s (inp t) = .retired A.pc s.instr true (rdField s.instr) (A.result mem₀ s.instr) := by
      simp [commit, hf, commitDiv, hd, h.lat, hres, Arch.result, hl, hst, hlr, hsc, ham, Isa.arith, h.isDiv]
    have hv : (commit s (inp t)).valid = true ∧ (commit s (inp t)).trap = false := by
      rw [hk]
      exact ⟨rfl, rfl⟩
    have hop := Decode.opcode_of_isDiv h.isDiv
    refine retire _ hc hb h.instr hk ?_ (ordinary_of_opcode (.inr (.inr (.inr hop)))) h.sound
      (nextPc_of_lat hv (by simp [hf]) h.lat.2.1 (.inr (.inr (.inr h.isDiv)))) ?_ (by simp [hf]) ?_ hn hreq ?_
    · simp [Decode.writesRd, Decode.isOp, hop]
    · show fsmNext s (inp t) = .fetch
      simp [fsmNext, hf, hd]
    · rw [h.accesses, Arch.makes_none hl hst hat, List.append_nil]
    · rw [hresv, h.link]
      simp [Arch.exec, hlr, hsc, ham]

/-- In every cycle the instruction at hand goes on, or it retires as the instruction set has it. -/
theorem stands_step (h : Stands mem₀ c inp A t s) (hc : c t = shows s (inp t)) (hs : Isa.Served c mem₀ inp)
    (hone : Isa.OneFetch c inp)
    (hp : ∀ r, (c t).retired = some r → r.trap = false ∧ ordinary r.insn = true) :
    Moves mem₀ c inp A t (step s (inp t)) := by
  rcases h.phase with ⟨hf, hph⟩ | ⟨hf, hph⟩ | ⟨hf, hph⟩ | ⟨hf, hph, hacc, hreq⟩ | ⟨hf, hph, hacc, hreq⟩ | ⟨hf, hph⟩
  · exact fetching_step hph hc hs hone h.base hf
  · exact executing_step hph hc hs hp h.base hf
  · exact accessing_step hph hc hs h.base hf
  · exact amoStore_step hph hacc hreq hc hs h.base hf
  · exact amoWait_step hph hacc hreq hc hs h.base hf
  · exact dividing_step hph hc hs h.base hf

end

/-! ## Runs -/

variable {pc : Word} {regs : RegFile} {inp : Nat → In} {T t : Nat}

theorem stands_reset : Stands mem₀ (shown pc regs inp) inp ⟨pc, regs, none, []⟩ 0 (run pc regs inp 0) where
  base := ⟨⟨rfl, rfl⟩, rfl, rfl, fun h => by simp [run, Sync.run, reset] at h, fun _ => rfl, fun _ => rfl⟩
  phase := .fetch rfl ⟨rfl, rfl, rfl, fun h => by simp [run, Sync.run, reset] at h⟩

/-- Before cycle `T` the core performs the instructions of the instruction set, one behind the other. -/
theorem performs_run (hs : Isa.Served (shown pc regs inp) mem₀ inp) (hone : Isa.OneFetch (shown pc regs inp) inp)
    (hp : Isa.Plain (shown pc regs inp) T) (ht : t ≤ T) :
    ∃ k, Stands mem₀ (shown pc regs inp) inp (Arch.run mem₀ ⟨pc, regs, none, []⟩ k) t (run pc regs inp t) ∧
      retirements (shown pc regs inp) t = Arch.trace mem₀ ⟨pc, regs, none, []⟩ k ∧
      ∀ j, j < k → (Arch.run mem₀ ⟨pc, regs, none, []⟩ j).sound ((Arch.run mem₀ ⟨pc, regs, none, []⟩ j).insn mem₀) ∧
        ∃ u, u < t ∧ Isa.Performs mem₀ ⟨pc, regs, none, []⟩ (shown pc regs inp) j u := by
  induction t with
  | zero => exact ⟨0, stands_reset, rfl, fun j hj => absurd hj (Nat.not_lt_zero j)⟩
  | succ t ih =>
      obtain ⟨k, hst, hret, hall⟩ := ih (by omega)
      rcases stands_step hst rfl hs hone (hp t (by omega)) with ⟨hn, hst'⟩ | ⟨hr, hst'⟩
      · refine ⟨k, hst', ?_, fun j hj => ?_⟩
        · simp [retirements, hn, hret]
        · obtain ⟨hsound, u, hu, hpu⟩ := hall j hj
          exact ⟨hsound, u, by omega, hpu⟩
      · refine ⟨k + 1, hst', ?_, fun j hj => ?_⟩
        · simp [retirements, hr.retired, hret, Arch.trace]
        · rcases Nat.lt_succ_iff_lt_or_eq.mp hj with hj | rfl
          · obtain ⟨hsound, u, hu, hpu⟩ := hall j hj
            exact ⟨hsound, u, by omega, hpu⟩
          · exact ⟨hr.sound, t, by omega, hr.retired, hret, hr.accesses⟩

end QinglongCore.CoreMulticycle
