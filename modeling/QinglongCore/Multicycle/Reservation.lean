import QinglongCore.Multicycle.Lemmas.Fetch
import QinglongCore.Pipeline.Reservation

/-!
# The reservation of the multicycle core

S_EXEC, S_MEM and S_AMO_WAIT clear the reservation on a trap. S_FETCH, which takes interrupts and fetch faults,
does not: an LR before the trap and an SC behind it can succeed together.
-/

namespace QinglongCore.CoreMulticycle

open Isa (Retired ResvCycle ResvDisciplined LinkedAt)

variable {s : State} {i : In}

/-- The word address of the access that commits or is requested in this cycle. -/
def accessWord (s : State) : BitVec 30 :=
  if s.fsm = .exec then (memAddr s).extractLsb' 2 30 else s.lat.addr.extractLsb' 2 30

def retired (s : State) (i : In) : Option Retired :=
  if (commit s i).valid then
    some
      { trap := (commit s i).trap, insn := (commit s i).insn, addr := accessWord s, rdData := (commit s i).rdData }
  else none

def resvCycle (pc : Word) (regs : RegFile) (inp : Nat → In) (t : Nat) : ResvCycle :=
  let s := run pc regs inp t
  { commit := retired s (inp t)
    scStore :=
      if dmemAccept s (inp t) && s.fsm == .exec && Decode.isSc s.instr then some (accessWord s) else none
    resvValid := s.resv.valid }

/-- An interrupt, or the answer to the fetch in flight is a fault. -/
def fetchTraps (s : State) (i : In) : Bool :=
  Csr.irqPending s.csr i.ext || (rspConsumable s i && (i.ifetchRspFault || i.ifetchRspPagefault))

/-- A trap of S_FETCH comes upon a reservation. -/
def trapKeepsResv (s : State) (i : In) : Bool := s.fsm == .fetch && s.resv.valid && fetchTraps s i

/-! ## Atomics in S_EXEC -/

section
variable {w : Word}

theorem early_of_atomic (h : Decode.isAtomic w = true) :
    Decode.isMret w = false ∧ Decode.isSret w = false ∧ Decode.isLoad w = false ∧ Decode.isStore w = false := by
  have hop := Decode.opcode_of_isAtomic h
  have h₁ : OP_AMO ≠ OP_SYSTEM := by decide
  have h₂ : OP_AMO ≠ OP_LOAD := by decide
  have h₃ : OP_AMO ≠ OP_STORE := by decide
  simp [Decode.isMret, Decode.isSret, Decode.isPriv, Decode.isSystem, Decode.isLoad, Decode.isStore, hop, h₁, h₂, h₃]

theorem kind_of_atomic (h : Decode.isAtomic w = true) :
    kind w = if Decode.isLr w then .lr else if Decode.isSc w then .sc else .amo := by
  obtain ⟨h₁, h₂, h₃, h₄⟩ := early_of_atomic h
  simp only [Decode.isAtomic, Bool.or_eq_true] at h
  cases hl : Decode.isLr w
  · cases hs : Decode.isSc w
    · have ha : Decode.isAmoRmw w = true := by simpa [hl, hs] using h
      simp [kind, h₁, h₂, h₃, h₄, hl, hs, ha]
    · simp [kind, h₁, h₂, h₃, h₄, hl, hs]
  · simp [kind, h₁, h₂, h₃, h₄, hl]

theorem isLr_of_kind (h : kind w = .lr) : Decode.isLr w = true := by
  unfold kind at h
  split_ifs at h
  assumption

theorem isSc_of_kind (h : kind w = .sc) : Decode.isSc w = true := by
  unfold kind at h
  split_ifs at h
  assumption

theorem isAmoRmw_of_kind (h : kind w = .amo) : Decode.isAmoRmw w = true := by
  unfold kind at h
  split_ifs at h
  assumption

/-- Only the three kinds of atomics have an event of their own. -/
theorem not_atomic_of_kind (h₁ : kind w ≠ .lr) (h₂ : kind w ≠ .sc) (h₃ : kind w ≠ .amo) :
    Decode.isLr w = false ∧ Decode.isSc w = false ∧ Decode.isAmoRmw w = false := by
  have hn : Decode.isAtomic w = false := by
    cases h : Decode.isAtomic w
    · rfl
    · have hk := kind_of_atomic h
      split_ifs at hk
      · exact absurd hk h₁
      · exact absurd hk h₂
      · exact absurd hk h₃
  simpa [Decode.isAtomic, Bool.or_eq_false_iff, and_assoc] using hn

end

/-! ## What waits behind S_EXEC -/

/-- The latched flags are those of the latched instruction, in the states that read them. -/
structure Latched (s : State) : Prop where
  mem : s.fsm = .mem → s.lat.isLr = Decode.isLr s.lat.instr ∧ s.lat.isSc = Decode.isSc s.lat.instr ∧
    s.lat.isRmw = Decode.isAmoRmw s.lat.instr
  amo : s.fsm = .amoStore ∨ s.fsm = .amoWait → Decode.isAmoRmw s.lat.instr = true
  div : s.fsm = .div → Decode.isAtomic s.lat.instr = false

theorem execRequests_of_mem (hf : s.fsm = .exec) (hn : (step s i).fsm = .mem) :
    (execTrap s i.ext).isSome = false ∧ i.dmemReqReady = true ∧ (step s i).lat = execLatch s ∧
      (kind s.instr = .loadStore ∨ kind s.instr = .lr ∨ (kind s.instr = .sc ∧ scHit s = true) ∨
        kind s.instr = .amo) := by
  have hn' : fsmNext s i = .mem := hn
  simp only [fsmNext, hf, fsmExec] at hn'
  have ht : execTrap s i.ext = none := by
    cases ht : execTrap s i.ext
    · rfl
    · simp [ht] at hn'
  have hlat : execRequests s i.ext = true → i.dmemReqReady = true → (step s i).lat = execLatch s := by
    intro hreq hr
    show latNext s i = execLatch s
    simp [latNext, hf, hreq, hr]
  simp only [ht, Option.isSome_none, Bool.false_eq_true, if_false] at hn' ⊢
  cases hk : kind s.instr <;> simp only [hk, reduceCtorEq] at hn'
  case loadStore =>
    have hr : i.dmemReqReady = true := by simpa using hn'
    exact ⟨trivial, hr, hlat (by simp [execRequests, ht, hk]) hr, .inl rfl⟩
  case lr =>
    have hr : i.dmemReqReady = true := by simpa using hn'
    exact ⟨trivial, hr, hlat (by simp [execRequests, ht, hk]) hr, .inr (.inl rfl)⟩
  case sc =>
    cases hh : scHit s
    · simp [hh] at hn'
    · have hr : i.dmemReqReady = true := by simpa [hh] using hn'
      exact ⟨trivial, hr, hlat (by simp [execRequests, ht, hk, hh]) hr, .inr (.inr (.inl ⟨rfl, rfl⟩))⟩
  case amo =>
    have hr : i.dmemReqReady = true := by simpa using hn'
    exact ⟨trivial, hr, hlat (by simp [execRequests, ht, hk]) hr, .inr (.inr (.inr rfl))⟩

theorem fsmExec_div (h : fsmExec s i = .div) : execTrap s i.ext = none ∧ kind s.instr = .div := by
  unfold fsmExec at h
  cases ht : execTrap s i.ext
  · cases hk : kind s.instr <;> simp only [ht, hk] at h <;> grind
  · simp [ht] at h

theorem fsmExec_not_amo : fsmExec s i ≠ .amoStore ∧ fsmExec s i ≠ .amoWait := by
  unfold fsmExec
  cases kind s.instr <;> grind

theorem enters_mem (hn : (step s i).fsm = .mem) :
    s.fsm = .exec ∨ (s.fsm = .mem ∧ i.dmemRspValid = false) := by
  have hn' : fsmNext s i = .mem := hn
  unfold fsmNext at hn'
  cases hf : s.fsm <;> simp only [hf] at hn' <;> grind

theorem enters_amo (hn : (step s i).fsm = .amoStore ∨ (step s i).fsm = .amoWait) :
    (s.fsm = .mem ∧ i.dmemRspValid = true ∧ dmemRspFails i = false ∧ s.lat.isRmw = true) ∨
      s.fsm = .amoStore ∨ (s.fsm = .amoWait ∧ i.dmemRspValid = false) := by
  have hn' : fsmNext s i = .amoStore ∨ fsmNext s i = .amoWait := hn
  have hx := fsmExec_not_amo (s := s) (i := i)
  unfold fsmNext at hn'
  cases hf : s.fsm <;> simp only [hf] at hn' <;> grind

theorem enters_div (hn : (step s i).fsm = .div) :
    (s.fsm = .exec ∧ kind s.instr = .div ∧ (step s i).lat.instr = s.instr) ∨
      (s.fsm = .div ∧ (step s i).lat = s.lat) := by
  have hn' : fsmNext s i = .div := hn
  cases hf : s.fsm
  case exec =>
    simp only [fsmNext, hf] at hn'
    obtain ⟨ht, hk⟩ := fsmExec_div hn'
    refine .inl ⟨rfl, hk, ?_⟩
    show (latNext s i).instr = s.instr
    simp [latNext, hf, divStart, ht, hk, execLatch]
  case div => exact .inr ⟨rfl, by show latNext s i = s.lat; simp [latNext, hf]⟩
  all_goals simp only [fsmNext, hf] at hn'; grind

theorem latched_step (h : Latched s) : Latched (step s i) where
  mem hn := by
    rcases enters_mem hn with hf | ⟨hf, hr⟩
    · obtain ⟨-, -, hlat, hk⟩ := execRequests_of_mem hf hn
      rw [hlat]
      rcases hk with hk | hk | ⟨hk, -⟩ | hk
      · obtain ⟨h₁, h₂, h₃⟩ := not_atomic_of_kind (w := s.instr) (by simp [hk]) (by simp [hk]) (by simp [hk])
        simp [execLatch, hk, h₁, h₂, h₃]
      · have hl := isLr_of_kind hk
        obtain ⟨h₁, h₂⟩ := Decode.of_isLr hl
        simp [execLatch, hk, hl, h₁, h₂]
      · have hs := isSc_of_kind hk
        obtain ⟨h₁, h₂⟩ := Decode.of_isSc hs
        simp [execLatch, hk, hs, h₁, h₂]
      · have ha := isAmoRmw_of_kind hk
        obtain ⟨-, h₁, h₂⟩ := Decode.of_isAmoRmw ha
        simp [execLatch, hk, ha, h₁, h₂]
    · have hlat : (step s i).lat = s.lat := by show latNext s i = s.lat; simp [latNext, hf, hr]
      rw [hlat]
      exact h.mem hf
  amo hn := by
    rcases enters_amo hn with ⟨hf, hr, hfails, hrmw⟩ | hf | ⟨hf, hr⟩
    · have hlat : (step s i).lat = s.lat := by show latNext s i = s.lat; simp [latNext, hf, hr, hfails, hrmw]
      rw [hlat, ← (h.mem hf).2.2]
      exact hrmw
    · have hlat : (step s i).lat = s.lat := by show latNext s i = s.lat; simp [latNext, hf]
      rw [hlat]
      exact h.amo (.inl hf)
    · have hlat : (step s i).lat = s.lat := by show latNext s i = s.lat; simp [latNext, hf, hr]
      rw [hlat]
      exact h.amo (.inr hf)
  div hn := by
    rcases enters_div hn with ⟨-, hk, hlat⟩ | ⟨hf, hlat⟩
    · rw [hlat, Decode.isAtomic]
      obtain ⟨h₁, h₂, h₃⟩ := not_atomic_of_kind (w := s.instr) (by simp [hk]) (by simp [hk]) (by simp [hk])
      simp [h₁, h₂, h₃]
    · rw [hlat]
      exact h.div hf

/-! ## The reservation behind the edge -/

theorem resv_fetch (hf : s.fsm = .fetch) : (step s i).resv = s.resv := by
  show resvNext s i = s.resv
  simp [resvNext, hf]

/-- A trap outside S_FETCH clears the reservation. -/
theorem resv_of_trap (hf : s.fsm ≠ .fetch) (ht : (commit s i).trap = true) : (step s i).resv.valid = false := by
  show (resvNext s i).valid = false
  cases hs : s.fsm
  case fetch => exact absurd hs hf
  case exec =>
    cases hx : execTrap s i.ext
    · simp only [commit, hs, commitExec, hx] at ht
      cases hk : kind s.instr <;> simp only [hk] at ht <;> (try split_ifs at ht) <;>
        simp [Commit.retired, Commit.none] at ht
    · simp [resvNext, hs, hx]
  case mem =>
    cases hr : i.dmemRspValid
    · simp [commit, hs, commitMem, hr, Commit.none] at ht
    · cases hfail : dmemRspFails i
      · cases hrmw : s.lat.isRmw <;> cases hsc : s.lat.isSc <;>
          simp [commit, hs, commitMem, hr, hfail, hrmw, hsc, Commit.retired, Commit.none] at ht
      · simp [resvNext, hs, hr, hfail]
  case amoWait =>
    cases hr : i.dmemRspValid
    · simp [commit, hs, commitAmoWait, hr, Commit.none] at ht
    · simp [resvNext, hs, hr]
  case amoStore => simp [commit, hs, Commit.none] at ht
  case div =>
    simp only [commit, hs, commitDiv] at ht
    split_ifs at ht <;> simp [Commit.retired, Commit.none] at ht

/-- S_EXEC keeps the reservation valid: what it commits has no say in it. -/
theorem exec_keeps (hf : s.fsm = .exec) (hx : execTrap s i.ext = none) (hr : (step s i).resv.valid = true) :
    (retired s i).bind Retired.event = none ∧ (step s i).resv = s.resv := by
  have hr' : (resvNext s i).valid = true := hr
  have hsc : ¬(kind s.instr = .sc ∧ (scHit s = true → i.dmemReqReady = true)) := by
    intro hsc
    simp only [resvNext, hf, hx, Option.isSome_none, Bool.false_eq_true, if_false, if_pos hsc] at hr'
  refine ⟨?_, by show resvNext s i = s.resv; simp [resvNext, hf, hx, hsc]⟩
  cases hk : kind s.instr
  case sc =>
    have hh : scHit s = true := by
      cases hh : scHit s
      · exact absurd ⟨hk, by simp [hh]⟩ hsc
      · rfl
    simp [retired, commit, hf, commitExec, hx, hk, hh, Commit.none]
  case loadStore | lr | amo | div => simp [retired, commit, hf, commitExec, hx, hk, Commit.none]
  all_goals
    obtain ⟨h₁, h₂, h₃⟩ := not_atomic_of_kind (w := s.instr) (by simp [hk]) (by simp [hk]) (by simp [hk])
    simp [retired, commit, hf, commitExec, hx, hk, Commit.retired, Retired.event, h₁, h₂, h₃]

/-- What a state other than S_FETCH does to the reservation it leaves valid: an LR commits and sets it, or it
stays and nothing commits that has a say in it. -/
theorem resv_cases (h : Latched s) (hsc : s.fsm = .mem → s.lat.isSc = true → s.resv.valid = false)
    (hf : s.fsm ≠ .fetch) (hr : (step s i).resv.valid = true) :
    ((retired s i).bind Retired.event = some (.linked (step s i).resv.addr)) ∨
      ((retired s i).bind Retired.event = none ∧ (step s i).resv = s.resv) := by
  have hr' : (resvNext s i).valid = true := hr
  cases hs : s.fsm
  case fetch => exact absurd hs hf
  case exec =>
    right
    cases hx : execTrap s i.ext
    · exact exec_keeps hs hx hr
    · simp [resvNext, hs, hx] at hr'
  case mem =>
    obtain ⟨hl, hsc', hrmw'⟩ := h.mem hs
    cases hrsp : i.dmemRspValid
    · exact .inr ⟨by simp [retired, commit, hs, commitMem, hrsp, Commit.none],
        by show resvNext s i = s.resv; simp [resvNext, hs, hrsp]⟩
    cases hfail : dmemRspFails i
    case true => simp [resvNext, hs, hrsp, hfail] at hr'
    cases hrmw : s.lat.isRmw
    case true =>
      exact .inr ⟨by simp [retired, commit, hs, commitMem, hrsp, hfail, hrmw, Commit.none],
        by show resvNext s i = s.resv; simp [resvNext, hs, hrsp, hfail, hrmw]⟩
    cases hsc₁ : s.lat.isSc
    case true =>
      have hlr : s.lat.isLr = false := by
        rw [hl]
        exact (Decode.of_isSc (hsc' ▸ hsc₁)).1
      have hv := hsc hs hsc₁
      simp [resvNext, hs, hrsp, hfail, hrmw, hlr, hv] at hr'
    cases hlr : s.lat.isLr
    · have h₁ : Decode.isLr s.lat.instr = false := hl ▸ hlr
      have h₂ : Decode.isSc s.lat.instr = false := hsc' ▸ hsc₁
      have h₃ : Decode.isAmoRmw s.lat.instr = false := hrmw' ▸ hrmw
      refine .inr ⟨?_, by show resvNext s i = s.resv; simp [resvNext, hs, hrsp, hfail, hrmw, hlr]⟩
      simp [retired, commit, hs, commitMem, hrsp, hfail, hrmw, hsc₁, Commit.retired, Retired.event, h₁, h₂, h₃]
    · have h₁ : Decode.isLr s.lat.instr = true := hl ▸ hlr
      have hn : (step s i).resv = ⟨true, s.lat.addr.extractLsb' 2 30⟩ := by
        show resvNext s i = _
        simp [resvNext, hs, hrsp, hfail, hrmw, hlr]
      refine .inl ?_
      rw [hn]
      simp [retired, commit, hs, commitMem, hrsp, hfail, hrmw, hsc₁, Commit.retired, Retired.event, h₁, accessWord]
  case amoStore =>
    right
    exact ⟨by simp [retired, commit, hs, Commit.none], by show resvNext s i = s.resv; simp [resvNext, hs]⟩
  case amoWait =>
    right
    cases hrsp : i.dmemRspValid
    · exact ⟨by simp [retired, commit, hs, commitAmoWait, hrsp, Commit.none],
        by show resvNext s i = s.resv; simp [resvNext, hs, hrsp]⟩
    · simp [resvNext, hs, hrsp] at hr'
  case div =>
    right
    refine ⟨?_, by show resvNext s i = s.resv; simp [resvNext, hs]⟩
    have hn := h.div hs
    simp only [Decode.isAtomic, Bool.or_eq_false_iff] at hn
    cases hd : s.divUnit.done
    · simp [retired, commit, hs, commitDiv, hd, Commit.none]
    · simp [retired, commit, hs, commitDiv, hd, Commit.retired, Retired.event, hn]

/-- S_FETCH commits nothing but traps. -/
theorem fetch_commits (hf : s.fsm = .fetch) :
    (commit s i).valid = fetchTraps s i ∧ (commit s i).trap = fetchTraps s i := by
  simp only [commit, hf, commitFetch, fetchTraps]
  cases Csr.irqPending s.csr i.ext
  · cases rspConsumable s i && (i.ifetchRspFault || i.ifetchRspPagefault) <;> exact ⟨rfl, rfl⟩
  · exact ⟨rfl, rfl⟩

/-- An SC waits in S_MEM for the store it has a link for. -/
theorem sc_enters (hf : s.fsm = .exec) (hn : (step s i).fsm = .mem) (hsc : (step s i).lat.isSc = true) :
    scHit s = true ∧ (step s i).lat.addr = memAddr s ∧ (step s i).resv.valid = false ∧ (commit s i).valid = false := by
  obtain ⟨hx, hrdy, hlat, hk⟩ := execRequests_of_mem hf hn
  rw [hlat] at hsc ⊢
  rcases hk with hk | hk | ⟨hk, hh⟩ | hk
  case inr.inr.inl =>
    have hx' : execTrap s i.ext = none := by simpa using hx
    refine ⟨hh, by simp [execLatch, hk], ?_, by simp [commit, hf, commitExec, hx', hk, hh, Commit.none]⟩
    show (resvNext s i).valid = false
    simp [resvNext, hf, hx', hk, hrdy]
  all_goals simp [execLatch, hk] at hsc

/-! ## Runs -/

variable {pc : Word} {regs : RegFile} {inp : Nat → In} {t : Nat}

theorem event_of_quiet (h : (commit (run pc regs inp t) (inp t)).valid = false) :
    (resvCycle pc regs inp t).event = none :=
  Isa.event_of_no_commit (c := resvCycle pc regs inp) (by simp [resvCycle, retired, h])

/-- The reservation is that of the last LR, and an SC in S_MEM has used it up. -/
structure Reserved (pc : Word) (regs : RegFile) (inp : Nat → In) (t : Nat) : Prop where
  latched : Latched (run pc regs inp t)
  linked : (run pc regs inp t).resv.valid = true →
    LinkedAt (resvCycle pc regs inp) t (run pc regs inp t).resv.addr
  sc : (run pc regs inp t).fsm = .mem → (run pc regs inp t).lat.isSc = true →
    (run pc regs inp t).resv.valid = false ∧
      LinkedAt (resvCycle pc regs inp) t ((run pc regs inp t).lat.addr.extractLsb' 2 30)

theorem linked_step (h : Reserved pc regs inp t) (hk : trapKeepsResv (run pc regs inp t) (inp t) = false)
    (hr : (run pc regs inp (t + 1)).resv.valid = true) :
    LinkedAt (resvCycle pc regs inp) (t + 1) (run pc regs inp (t + 1)).resv.addr := by
  by_cases hf : (run pc regs inp t).fsm = .fetch
  · have he : (run pc regs inp (t + 1)).resv = (run pc regs inp t).resv := resv_fetch hf
    rw [he] at hr ⊢
    have hq : (commit (run pc regs inp t) (inp t)).valid = false := by
      rw [(fetch_commits hf).1]
      simpa [trapKeepsResv, hf, hr] using hk
    exact Isa.linkedAt_keep (h.linked hr) (event_of_quiet hq)
  · rcases resv_cases h.latched (fun hm hsc => (h.sc hm hsc).1) hf hr with hev | ⟨hev, he⟩
    · exact Isa.linkedAt_now hev
    · have he' : (run pc regs inp (t + 1)).resv = (run pc regs inp t).resv := he
      rw [he'] at hr ⊢
      exact Isa.linkedAt_keep (h.linked hr) hev

theorem sc_step (h : Reserved pc regs inp t) (hm : (run pc regs inp (t + 1)).fsm = .mem)
    (hsc : (run pc regs inp (t + 1)).lat.isSc = true) :
    (run pc regs inp (t + 1)).resv.valid = false ∧
      LinkedAt (resvCycle pc regs inp) (t + 1) ((run pc regs inp (t + 1)).lat.addr.extractLsb' 2 30) := by
  rcases enters_mem (s := run pc regs inp t) (i := inp t) hm with hf | ⟨hf, hrsp⟩
  · obtain ⟨hh, haddr, hr, hq⟩ := sc_enters hf hm hsc
    simp only [scHit, Bool.and_eq_true, beq_iff_eq] at hh
    have haddr' : (run pc regs inp (t + 1)).lat.addr = memAddr (run pc regs inp t) := haddr
    refine ⟨hr, ?_⟩
    rw [haddr', ← hh.2]
    exact Isa.linkedAt_keep (h.linked hh.1) (event_of_quiet hq)
  · -- the SC waits for its response, and nothing commits
    have hlat : (run pc regs inp (t + 1)).lat = (run pc regs inp t).lat := by
      show latNext _ _ = _
      simp [latNext, hf, hrsp]
    have hresv : (run pc regs inp (t + 1)).resv = (run pc regs inp t).resv := by
      show resvNext _ _ = _
      simp [resvNext, hf, hrsp]
    rw [hlat] at hsc ⊢
    rw [hresv]
    obtain ⟨hr, hl⟩ := h.sc hf hsc
    exact ⟨hr, Isa.linkedAt_keep hl (event_of_quiet (by simp [commit, hf, commitMem, hrsp, Commit.none]))⟩

theorem latched_reset : Latched (reset pc regs) := by
  constructor <;> simp [reset]

theorem reserved_run (hk : ∀ t, trapKeepsResv (run pc regs inp t) (inp t) = false) (t : Nat) :
    Reserved pc regs inp t := by
  induction t with
  | zero => exact ⟨latched_reset, by simp [run, reset], by simp [run, reset]⟩
  | succ t ih => exact ⟨latched_step ih.latched, linked_step ih (hk t), sc_step ih⟩

/-! ## The discipline -/

theorem stores_linked (h : Reserved pc regs inp t) {a : BitVec 30} (hst : (resvCycle pc regs inp t).scStore = some a) :
    LinkedAt (resvCycle pc regs inp) t a := by
  obtain ⟨⟨⟨hacc, hf⟩, hsc⟩, rfl⟩ : ((dmemAccept (run pc regs inp t) (inp t) = true ∧
      (run pc regs inp t).fsm = .exec) ∧ Decode.isSc (run pc regs inp t).instr = true) ∧
        accessWord (run pc regs inp t) = a := by
    simpa [resvCycle] using hst
  have hk : kind (run pc regs inp t).instr = .sc := by
    rw [kind_of_atomic (by simp [Decode.isAtomic, hsc]), (Decode.of_isSc hsc).1, hsc]
    rfl
  have hh : scHit (run pc regs inp t) = true := by
    simp only [dmemAccept, dmemReqValid, hf, execRequests, hk, Bool.and_eq_true] at hacc
    exact hacc.1.2
  simp only [scHit, Bool.and_eq_true, beq_iff_eq] at hh
  rw [accessWord, if_pos hf, ← hh.2]
  exact h.linked hh.1

theorem retired_elim {r : Retired} (h : retired s i = some r) :
    (commit s i).valid = true ∧
      { trap := (commit s i).trap, insn := (commit s i).insn, addr := accessWord s
        rdData := (commit s i).rdData } = r := by
  simpa [retired] using h

/-- Only an SC that has got the answer to its store writes 0. -/
theorem zero_elim (h : Latched s) {r : Retired} (hr : retired s i = some r) (ht : r.trap = false)
    (hsc : Decode.isSc r.insn = true) (hz : r.rdData = 0) :
    s.fsm = .mem ∧ s.lat.isSc = true ∧ r.addr = s.lat.addr.extractLsb' 2 30 := by
  obtain ⟨hv, rfl⟩ := retired_elim hr
  have ht' : (commit s i).trap = false := ht
  have hsc' : Decode.isSc (commit s i).insn = true := hsc
  have hz' : (commit s i).rdData = 0 := hz
  cases hs : s.fsm
  case fetch =>
    rw [(fetch_commits hs).2, ← (fetch_commits hs).1, hv] at ht'
    simp at ht'
  case exec =>
    cases hx : execTrap s i.ext
    case some => simp [commit, hs, commitExec, hx, Commit.trapped] at ht'
    have hk : kind s.instr = .sc := by
      have hi : (commit s i).insn = s.instr := by
        simp only [commit, hs, commitExec, hx]
        cases kind s.instr <;> simp only [Commit.none, Commit.retired]
        split_ifs <;> rfl
      rw [hi] at hsc'
      rw [kind_of_atomic (by simp [Decode.isAtomic, hsc']), (Decode.of_isSc hsc').1, hsc']
      rfl
    cases hh : scHit s
    · simp [commit, hs, commitExec, hx, hk, hh, Commit.retired] at hz'
    · simp [commit, hs, commitExec, hx, hk, hh, Commit.none] at hv
  case mem =>
    obtain ⟨-, hflag, -⟩ := h.mem hs
    cases hrsp : i.dmemRspValid
    · simp [commit, hs, commitMem, hrsp, Commit.none] at hv
    cases hfail : dmemRspFails i
    case true => simp [commit, hs, commitMem, hrsp, hfail, Commit.trapped] at ht'
    cases hrmw : s.lat.isRmw
    case true => simp [commit, hs, commitMem, hrsp, hfail, hrmw, Commit.none] at hv
    cases hlat : s.lat.isSc
    · simp [commit, hs, commitMem, hrsp, hfail, hrmw, hlat, Commit.retired, ← hflag] at hsc'
    · exact ⟨rfl, rfl, by simp [accessWord, hs]⟩
  case amoStore => simp [commit, hs, Commit.none] at hv
  case amoWait =>
    have hamo := h.amo (.inr hs)
    cases hrsp : i.dmemRspValid
    · simp [commit, hs, commitAmoWait, hrsp, Commit.none] at hv
    · cases hfail : dmemRspFails i
      · simp [commit, hs, commitAmoWait, hrsp, hfail, Commit.retired, (Decode.of_isAmoRmw hamo).2.2] at hsc'
      · simp [commit, hs, commitAmoWait, hrsp, hfail, Commit.trapped] at ht'
  case div =>
    have hdiv := h.div hs
    simp only [Decode.isAtomic, Bool.or_eq_false_iff] at hdiv
    cases hd : s.divUnit.done
    · simp [commit, hs, commitDiv, hd, Commit.none] at hv
    · simp [commit, hs, commitDiv, hd, Commit.retired, hdiv] at hsc'

theorem resvDisciplined_of_clear (hk : ∀ t, trapKeepsResv (run pc regs inp t) (inp t) = false) :
    ResvDisciplined (resvCycle pc regs inp) where
  stores t a := stores_linked (reserved_run hk t)
  writes t r h ht hsc hz := by
    obtain ⟨hm, hlat, ha⟩ := zero_elim (reserved_run hk t).latched h ht hsc hz
    rw [ha]
    exact ((reserved_run hk t).sc hm hlat).2
  traps t r h ht := by
    obtain ⟨-, rfl⟩ := retired_elim h
    have ht' : (commit (run pc regs inp t) (inp t)).trap = true := ht
    show (run pc regs inp (t + 1)).resv.valid = false
    by_cases hf : (run pc regs inp t).fsm = .fetch
    · have he : (run pc regs inp (t + 1)).resv = (run pc regs inp t).resv := resv_fetch hf
      rw [(fetch_commits hf).2] at ht'
      rw [he]
      simpa [trapKeepsResv, hf, ht'] using hk t
    · exact resv_of_trap hf ht'

theorem not_disciplined_of_keep (hk : trapKeepsResv (run pc regs inp t) (inp t) = true) :
    ¬ ResvDisciplined (resvCycle pc regs inp) := by
  intro h
  simp only [trapKeepsResv, Bool.and_eq_true, beq_iff_eq] at hk
  obtain ⟨⟨hf, hr⟩, ht⟩ := hk
  have hc : (commit (run pc regs inp t) (inp t)).valid = true ∧ (commit (run pc regs inp t) (inp t)).trap = true := by
    rw [(fetch_commits hf).1, (fetch_commits hf).2]
    exact ⟨ht, ht⟩
  have hclear : (run pc regs inp (t + 1)).resv.valid = false := h.traps t _ (if_pos hc.1) hc.2
  have he : (run pc regs inp (t + 1)).resv = (run pc regs inp t).resv := resv_fetch hf
  rw [he, hr] at hclear
  simp at hclear

/-- The pipelined core always keeps the discipline, the multicycle core in the runs in which no trap of S_FETCH
meets a reservation. -/
theorem resvDisciplined_iff (pc : Word) (regs : RegFile) (inpP : Nat → CorePipeline.In) (inpM : Nat → In) :
    (ResvDisciplined (CorePipeline.resvCycle pc regs inpP) ∧ ResvDisciplined (resvCycle pc regs inpM)) ↔
      ∀ t, trapKeepsResv (run pc regs inpM t) (inpM t) = false := by
  constructor
  · rintro ⟨-, h⟩ t
    cases hk : trapKeepsResv (run pc regs inpM t) (inpM t)
    · rfl
    · exact absurd h (not_disciplined_of_keep hk)
  · intro hk
    exact ⟨CorePipeline.resvDisciplined pc regs inpP, resvDisciplined_of_clear hk⟩

/-- LR.W is fetched at the reset address, the fetch behind it faults, and the handler begins with SC.W to the same
word. The data bus takes and answers at once. -/
def faultBehindLr (t : Nat) : In :=
  { CorePipeline.In.quiet with
    ifetchReqReady := t == 0 || t == 4 || t == 6
    ifetchRspValid := t == 1 || t == 5 || t == 7
    ifetchRspData := if t = 1 then 0x1000A2AF#32 else 0x1820A32F#32
    ifetchRspFault := t == 5
    dmemReqReady := true
    dmemRspValid := t == 3 || t == 9 }

/-- The SC of cycle 8 stores, though the trap of cycle 5 has come after the LR. -/
theorem not_resvDisciplined : ¬ ∀ pc regs inpP inpM,
    ResvDisciplined (CorePipeline.resvCycle pc regs inpP) ∧ ResvDisciplined (resvCycle pc regs inpM) := by
  intro h
  have hl := (h RESET_PC (fun _ => 0x40000000) (fun _ => CorePipeline.In.quiet) faultBehindLr).2.stores 8 0x10000000
    (by decide +kernel)
  exact absurd hl (by unfold LinkedAt; decide +kernel)

end QinglongCore.CoreMulticycle
