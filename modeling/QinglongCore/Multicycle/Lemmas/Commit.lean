import QinglongCore.Csr.Lemmas.Edges
import QinglongCore.Multicycle.Exceptions

/-!
# Cycles without a commit

The CSR file of the multicycle core takes a command only from an instruction that commits.
-/

namespace QinglongCore.CoreMulticycle

variable {s : State} {e : Ext} {i : In}

theorem commit_quiet (h : (commit s i).valid = false) : (commit s i).rdWen = false ∧ (commit s i).trap = false := by
  have key : ∀ k : Commit, (k = .none s.pc s.instr ∨ k.valid = true) → k.valid = false →
      k.rdWen = false ∧ k.trap = false := by
    rintro k (rfl | hk) hv
    · exact ⟨rfl, rfl⟩
    · rw [hk] at hv
      simp at hv
  refine key _ ?_ h
  unfold commit
  cases s.fsm
  case fetch =>
    dsimp only
    unfold commitFetch
    split_ifs <;> simp [Commit.trapped]
  case exec =>
    dsimp only
    unfold commitExec
    cases execTrap s i.ext
    · cases kind s.instr <;> simp [Commit.retired]
      cases scHit s <;> simp
    · simp [Commit.trapped]
  case mem =>
    dsimp only
    unfold commitMem
    split_ifs <;> simp [Commit.trapped, Commit.retired]
  case amoStore => exact .inl rfl
  case amoWait =>
    dsimp only
    unfold commitAmoWait
    split_ifs <;> simp [Commit.trapped, Commit.retired]
  case div =>
    dsimp only
    unfold commitDiv
    split_ifs <;> simp [Commit.retired]

/-- A CSR instruction commits where it writes. -/
theorem csrEn_elim (h : (csrIn s i).csrEn = true) :
    (commit s i).valid = true ∧ (commit s i).insn = s.instr ∧ Decode.isCsr s.instr = true := by
  simp only [csrIn, Bool.and_eq_true, beq_iff_eq, Option.isNone_iff_eq_none] at h
  obtain ⟨⟨hf, hc⟩, hx⟩ := h
  obtain ⟨ho, h3⟩ := isCsr_elim hc
  have hk : kind s.instr = .single := by
    have hat := Decode.not_atomic_of_opcode (w := s.instr) (by rw [ho]; decide)
    simp only [Decode.isAtomic, Bool.or_eq_false_iff] at hat
    simp [kind, Decode.isMret, Decode.isSret, Decode.isPriv, h3, Decode.isLoad, Decode.isStore, hat, Decode.isDiv,
      Decode.isMuldiv, Decode.isOp, ho, OP_SYSTEM, OP_LOAD, OP_STORE, OP_OP]
  simp [commit, hf, commitExec, hx, hk, Commit.retired, hc]

theorem doMret_elim (h : doMret s i.ext = true) : (commit s i).valid = true := by
  simp only [doMret, Bool.and_eq_true, beq_iff_eq, Option.isNone_iff_eq_none] at h
  obtain ⟨⟨hf, hm⟩, hx⟩ := h
  simp [commit, hf, commitExec, hx, kind, hm, Commit.retired]

theorem doSret_elim (h : doSret s i.ext = true) : (commit s i).valid = true := by
  simp only [doSret, Bool.and_eq_true, beq_iff_eq, Option.isNone_iff_eq_none] at h
  obtain ⟨⟨hf, hr⟩, hx⟩ := h
  cases hm : Decode.isMret s.instr <;> simp [commit, hf, commitExec, hx, kind, hm, hr, Commit.retired]

/-- Without a commit the CSR file only counts. -/
theorem csr_of_quiet (h : (commit s i).valid = false) : (step s i).csr = Csr.tick s.csr i.ext (csrIn s i) := by
  show Csr.step s.csr i.ext (csrIn s i) = _
  have quiet : ∀ {b : Bool}, (b = true → (commit s i).valid = true) → b = false := by
    intro b hb
    cases b
    · rfl
    · rw [hb rfl] at h
      simp at h
  have ht : (csrIn s i).trapTake = false := (commit_quiet h).2
  have hm : (csrIn s i).mret = false := quiet doMret_elim
  have hr : (csrIn s i).sret = false := quiet doSret_elim
  have hw : Csr.doWrite s.csr i.ext (csrIn s i) = false := by
    rw [Csr.doWrite, quiet fun he => (csrEn_elim he).1]
    rfl
  simp [Csr.step, ht, hm, hr, hw]

theorem pc_of_quiet (h : (commit s i).valid = false) : (step s i).pc = s.pc := by
  show pcNext s i = s.pc
  simp [pcNext, h]

end QinglongCore.CoreMulticycle
