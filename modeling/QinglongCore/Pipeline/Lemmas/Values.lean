import QinglongCore.Isa.Machine
import QinglongCore.Pipeline.Lemmas.Successor

/-!
# What EX computes

With the operands that it is given, EX computes the values of the instruction set and raises its exceptions.
-/

namespace QinglongCore.CorePipeline

variable (id : IfId) (m : Decode.Mode) (d₁ d₂ a b : Word)

/-- A DIV/REM word takes the result of the divider, any other instruction computes its own. -/
theorem arithWb_isa (dv : Word) : (IdEx.ofId id m d₁ d₂).arithWb a b dv =
    if Decode.isDiv id.instr then dv else Isa.arith id.instr id.pc a b := by
  have hd : (IdEx.ofId id m d₁ d₂).ctrl.isDiv = Decode.isDiv id.instr := rfl
  unfold IdEx.arithWb Isa.arith
  rw [hd]
  cases Decode.isDiv id.instr
  · rfl
  · rfl

/-! ## Exceptions -/

/-- The mode has no say in what is legal outside of SYSTEM. -/
theorem illegal_of_ordinary {w : Word} (h : Isa.ordinary w = true) : Decode.illegal w m = !Isa.legal w := by
  simp only [Isa.ordinary, Bool.and_eq_true, Bool.not_eq_true'] at h
  simp [Decode.illegal, Decode.illegalPriv, Decode.illegalCsr, Decode.isCsr, h.1, Isa.legal]

theorem misalignedTarget_isa :
    ((IdEx.ofId id m d₁ d₂).misalignedTarget a b).isSome = Isa.strays id.instr id.pc a b := by
  have hb : (IdEx.ofId id m d₁ d₂).takeBranch a b =
      (Decode.isBranch id.instr && Isa.branchTaken (funct3 id.instr) a b) := by
    cases hb : Decode.isBranch id.instr
    · simp [IdEx.takeBranch, IdEx.ofId, Ctrl.ofId, hb]
    · rw [IdEx.takeBranch, branchTaken_eq id m d₁ d₂ a b hb]
      simp [IdEx.ofId, Ctrl.ofId, hb]
  have hjalr : (IdEx.ofId id m d₁ d₂).takeJalr = Decode.isJalr id.instr := rfl
  have hjal : (IdEx.ofId id m d₁ d₂).takeJal = Decode.isJal id.instr := rfl
  have hjalrT : (IdEx.ofId id m d₁ d₂).jalrTarget a = (a + Decode.imm id.instr) &&& ~~~1#32 := rfl
  have hjalT : (IdEx.ofId id m d₁ d₂).jalTarget = id.pc + Decode.imm id.instr := rfl
  have hbT : (IdEx.ofId id m d₁ d₂).branchTarget = id.pc + Decode.imm id.instr := rfl
  have hmis (x : Word) : IdEx.misaligned x = Isa.misaligned x := rfl
  unfold IdEx.misalignedTarget Isa.strays Isa.nextPc
  rw [hb, hjalr, hjal, hjalrT, hjalT, hbT]
  simp only [hmis]
  obtain ⟨hr, hl⟩ := control_disjoint id.instr
  cases h₁ : Decode.isJalr id.instr
  · cases h₂ : Decode.isJal id.instr
    · cases h₃ : Decode.isBranch id.instr && Isa.branchTaken (funct3 id.instr) a b
      · simp
      · cases hx : Isa.misaligned (id.pc + Decode.imm id.instr) <;> simp [hx]
    · cases hx : Isa.misaligned (id.pc + Decode.imm id.instr) <;> simp [hl h₂, hx]
  · generalize (a + Decode.imm id.instr) &&& ~~~1#32 = x
    cases hx : Isa.misaligned x <;> simp [hr h₁, hx]

theorem lsMisaligned_isa : (IdEx.ofId id m d₁ d₂).lsMisaligned a = Isa.straddles id.instr a := by
  have hat : (IdEx.ofId id m d₁ d₂).isAtomic = Decode.isAtomic id.instr := rfl
  have hls : (IdEx.ofId id m d₁ d₂).ctrl.isLoad = Decode.isLoad id.instr := rfl
  have hst : (IdEx.ofId id m d₁ d₂).ctrl.isStore = Decode.isStore id.instr := rfl
  have hf : (IdEx.ofId id m d₁ d₂).funct3 = funct3 id.instr := rfl
  have haddr : (IdEx.ofId id m d₁ d₂).lsAddr a = Isa.lsAddr id.instr a := rfl
  have hv : (IdEx.ofId id m d₁ d₂).valid = true := rfl
  have hmis (x : Word) : IdEx.misaligned x = Isa.misaligned x := rfl
  unfold IdEx.lsMisaligned Isa.straddles Isa.size
  rw [hat, hls, hst, hf, haddr, hv]
  simp only [hmis]
  cases h₁ : Decode.isAtomic id.instr
  · cases h₂ : Decode.isLoad id.instr || Decode.isStore id.instr
    · simp
    · generalize funct3 id.instr = f
      have h₃ : F3_LH ≠ F3_LB ∧ F3_LH ≠ F3_LBU ∧ F3_LHU ≠ F3_LB ∧ F3_LHU ≠ F3_LBU ∧ F3_LW ≠ F3_LH ∧ F3_LW ≠ F3_LHU := by
        decide
      have h₄ : F3_SB = F3_LB ∧ F3_SH = F3_LH ∧ F3_SW = F3_LW := by decide
      grind
  · simp

theorem straddles_elim {w : Word} (h : Isa.straddles w a = true) :
    (Decode.isLoad w || Decode.isLr w) = true ∨ (Decode.isStore w || Decode.isSc w || Decode.isAmoRmw w) = true := by
  unfold Isa.straddles Decode.isAtomic at h
  grind

theorem trapInfo_isa (hq : id.irq = false) (hf : (id.fault || id.pagefault) = false)
    (ho : Isa.ordinary id.instr = true) (p : BitVec 2) :
    (IdEx.ofId id m d₁ d₂).trapInfo a b p = none ↔ Isa.sound id.instr id.pc a b = true := by
  have hill : (IdEx.ofId id m d₁ d₂).ctrl.illegal = !Isa.legal id.instr := illegal_of_ordinary m ho
  have hsys : Decode.isEcall id.instr = false ∧ Decode.isEbreak id.instr = false := by
    simp only [Isa.ordinary, Bool.and_eq_true, Bool.not_eq_true'] at ho
    simp [Decode.isEcall, Decode.isEbreak, Decode.isPriv, ho.1]
  have hec : (IdEx.ofId id m d₁ d₂).ctrl.isEcall = false := hsys.1
  have heb : (IdEx.ofId id m d₁ d₂).ctrl.isEbreak = false := hsys.2
  have hv : (IdEx.ofId id m d₁ d₂).valid = true := rfl
  have hirq : (IdEx.ofId id m d₁ d₂).ctrl.irq = false := hq
  rw [Bool.or_eq_false_iff] at hf
  have hff : (IdEx.ofId id m d₁ d₂).ctrl.fetchFault = false := hf.1
  have hfp : (IdEx.ofId id m d₁ d₂).ctrl.fetchPagefault = false := hf.2
  have hflags : ((IdEx.ofId id m d₁ d₂).ctrl.isLoad || (IdEx.ofId id m d₁ d₂).ctrl.isLr) =
        (Decode.isLoad id.instr || Decode.isLr id.instr) ∧
      ((IdEx.ofId id m d₁ d₂).ctrl.isStore || (IdEx.ofId id m d₁ d₂).ctrl.isSc ||
          (IdEx.ofId id m d₁ d₂).ctrl.isAmoRmw) =
        (Decode.isStore id.instr || Decode.isSc id.instr || Decode.isAmoRmw id.instr) := ⟨rfl, rfl⟩
  have hmt := misalignedTarget_isa id m d₁ d₂ a b
  unfold IdEx.trapInfo Isa.sound
  rw [hv, hirq, hff, hfp, hill, hec, heb, hflags.1, hflags.2, lsMisaligned_isa, ho]
  cases Isa.legal id.instr
  · simp
  cases ht : (IdEx.ofId id m d₁ d₂).misalignedTarget a b
  · rw [ht] at hmt
    rw [← hmt]
    cases hs : Isa.straddles id.instr a
    · simp
    · rcases straddles_elim a hs with h | h
      · simp [h]
      · cases Decode.isLoad id.instr || Decode.isLr id.instr <;> simp [h]
  · rw [ht] at hmt
    rw [← hmt]
    simp

end QinglongCore.CorePipeline
