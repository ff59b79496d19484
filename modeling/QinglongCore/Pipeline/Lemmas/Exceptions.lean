import QinglongCore.Isa.Privileged
import QinglongCore.Pipeline.IllegalWords
import QinglongCore.Pipeline.Lemmas.Values

/-!
# The exceptions of a hart in EX

EX raises the exceptions of the hart, with their causes and trap values, and WB goes to the handler of the hart.
-/

namespace QinglongCore

/-! ## Exceptions of a class of words -/

namespace Isa

variable {w pc a b c v : Word} {m : Decode.Mode}

/-- Outside of SYSTEM and FENCE.I a word raises no exception if it is sound. -/
theorem exception_ordinary (ho : ordinary w = true) : exception m w pc a b = none ↔ sound w pc a b = true := by
  have hill := CorePipeline.illegal_of_ordinary m ho
  have ho' := ho
  simp only [ordinary, Bool.and_eq_true, Bool.not_eq_true'] at ho'
  have hec : Decode.isEcall w = false := by simp [Decode.isEcall, Decode.isPriv, ho'.1]
  have heb : Decode.isEbreak w = false := by simp [Decode.isEbreak, Decode.isPriv, ho'.1]
  unfold exception sound
  rw [hill, hec, heb, ho]
  cases legal w
  · simp
  · cases strays w pc a b <;> cases straddles w a <;> simp

/-- The mode matters to serialised words only. -/
theorem exception_mode (h : Decode.isSerial w = false) (m m' : Decode.Mode) :
    exception m w pc a b = exception m' w pc a b := by
  have hec : Decode.isEcall w = false := by
    cases hec : Decode.isEcall w
    · rfl
    · simp [Decode.isSerial, hec] at h
  unfold exception
  rw [Decode.illegal_mode h m m', hec]
  rfl

theorem exception_of_isDiv (h : Decode.isDiv w = true) : exception m w pc a b = none := by
  obtain ⟨h₁, h₂, h₃, h₄, h₅, h₆, -⟩ := Decode.of_isDiv h m
  obtain ⟨h₇, h₈, h₉, h₁₀, h₁₁⟩ := Decode.not_bus_of_isDiv h
  simp [exception, strays, straddles, Decode.isAtomic, h₁, h₂, h₃, h₄, h₅, h₆, h₇, h₈, h₉, h₁₀, h₁₁]

theorem ecallCause_cases (p : BitVec 2) :
    ecallCause p = CAUSE_ECALL_FROM_U ∨ ecallCause p = CAUSE_ECALL_FROM_S ∨ ecallCause p = CAUSE_ECALL_FROM_M := by
  unfold ecallCause
  split_ifs
  · exact .inl rfl
  · exact .inr (.inl rfl)
  · exact .inr (.inr rfl)

/-- Exceptions, unlike interrupts, have causes without the top bit. -/
theorem exception_cause (h : exception m w pc a b = some (c, v)) : c.msb = false := by
  unfold exception at h
  split_ifs at h <;> simp only [Option.some.injEq, Prod.mk.injEq] at h
  case pos => rw [← h.1]; decide
  all_goals rw [← h.1]
  · rcases ecallCause_cases m.priv with he | he | he <;> rw [he] <;> decide
  all_goals decide

end Isa

/-! ## Causes and handlers of interrupts -/

namespace Csr

theorem irqCause_cases (s : State) (e : Ext) : irqCause s e ∈ [CAUSE_IRQ_MEI, CAUSE_IRQ_MSI, CAUSE_IRQ_MTI,
    CAUSE_IRQ_SEI, CAUSE_IRQ_SSI, CAUSE_IRQ_STI] := by
  unfold irqCause
  split_ifs <;> simp

theorem irqCause_msb (s : State) (e : Ext) : (irqCause s e).msb = true := by
  have h := irqCause_cases s e
  simp only [List.mem_cons, List.not_mem_nil, or_false] at h
  rcases h with h | h | h | h | h | h <;> rw [h] <;> decide

end Csr

namespace CorePipeline

theorem vectored_of_exception {tvec cause : Word} (h : cause.msb = false) :
    vectored tvec cause = Isa.trapVector tvec cause := by
  simp [vectored, Isa.trapVector, h]

theorem vectored_of_irq (tvec : Word) (s : Csr.State) (e : Ext) :
    vectored tvec (Csr.irqCause s e) = Isa.trapVector tvec (Csr.irqCause s e) := by
  have hmsb := Csr.irqCause_msb s e
  have hoff : 0#26 ++ (Csr.irqCause s e).extractLsb' 0 4 ++ 0#2 = Csr.irqCause s e <<< 2 := by
    have h := Csr.irqCause_cases s e
    simp only [List.mem_cons, List.not_mem_nil, or_false] at h
    rcases h with h | h | h | h | h | h <;> rw [h] <;> decide
  unfold vectored Isa.trapVector
  rw [hmsb, hoff]
  cases tvec.getLsbD 0 <;> simp

/-! ## EX -/

variable (id : IfId) (m : Decode.Mode) (d₁ d₂ a b : Word)

/-- A control transfer to a misaligned target names its target. -/
theorem misalignedTarget_eq : (IdEx.ofId id m d₁ d₂).misalignedTarget a b =
    if Isa.strays id.instr id.pc a b then some (Isa.nextPc id.instr id.pc a b) else none := by
  have hs := misalignedTarget_isa id m d₁ d₂ a b
  cases hx : (IdEx.ofId id m d₁ d₂).misalignedTarget a b with
  | none =>
      rw [hx] at hs
      rw [← hs]
      rfl
  | some x =>
      rw [hx] at hs
      rw [← hs]
      obtain ⟨hr, hl⟩ := control_disjoint id.instr
      -- each of the three targets is the successor of its control transfer
      have hb : (IdEx.ofId id m d₁ d₂).takeBranch a b = true →
          Isa.nextPc id.instr id.pc a b = (IdEx.ofId id m d₁ d₂).branchTarget := by
        intro ht
        have hbr : Decode.isBranch id.instr = true := by
          simp only [IdEx.takeBranch, Bool.and_eq_true] at ht
          exact ht.1.2
        rw [IdEx.takeBranch, branchTaken_eq id m d₁ d₂ a b hbr] at ht
        have hjr : Decode.isJalr id.instr = false := by
          cases hjr : Decode.isJalr id.instr
          · rfl
          · rw [(hr hjr).2] at hbr
            simp at hbr
        simp only [Bool.and_eq_true] at ht
        rw [Isa.nextPc, hjr, hbr, ht.2, Bool.true_and, Bool.or_true]
        rfl
      have hjal : (IdEx.ofId id m d₁ d₂).takeJal = true →
          Isa.nextPc id.instr id.pc a b = (IdEx.ofId id m d₁ d₂).jalTarget := by
        intro ht
        have hj : Decode.isJal id.instr = true := ht
        have hjr : Decode.isJalr id.instr = false := by
          cases hjr : Decode.isJalr id.instr
          · rfl
          · rw [(hr hjr).1] at hj
            simp at hj
        rw [Isa.nextPc, hjr, hj]
        rfl
      have hjalr : (IdEx.ofId id m d₁ d₂).takeJalr = true →
          Isa.nextPc id.instr id.pc a b = (IdEx.ofId id m d₁ d₂).jalrTarget a := by
        intro ht
        have hj : Decode.isJalr id.instr = true := ht
        rw [Isa.nextPc, hj]
        rfl
      unfold IdEx.misalignedTarget at hx
      rw [Option.isSome_some, if_pos rfl, ← hx]
      split_ifs at hx ⊢ with h₁ h₂ h₃
      · rw [hb (by simp only [Bool.and_eq_true] at h₁; exact h₁.1)]
      · rw [hjalr (by simp only [Bool.and_eq_true] at h₂; exact h₂.1)]
      · rw [hjal (by simp only [Bool.and_eq_true] at h₃; exact h₃.1)]

/-- What EX raises for a fetched word is the exception of the instruction set. -/
theorem trapInfo_eq (hq : id.irq = false) (hf : (id.fault || id.pagefault) = false) (m' : Decode.Mode)
    (hi : Decode.illegal id.instr m = Decode.illegal id.instr m') :
    (IdEx.ofId id m d₁ d₂).trapInfo a b m'.priv = Isa.exception m' id.instr id.pc a b := by
  have hv : (IdEx.ofId id m d₁ d₂).valid = true := rfl
  have hirq : (IdEx.ofId id m d₁ d₂).ctrl.irq = false := hq
  rw [Bool.or_eq_false_iff] at hf
  have hff : (IdEx.ofId id m d₁ d₂).ctrl.fetchFault = false := hf.1
  have hfp : (IdEx.ofId id m d₁ d₂).ctrl.fetchPagefault = false := hf.2
  have hill : (IdEx.ofId id m d₁ d₂).ctrl.illegal = Decode.illegal id.instr m' := hi
  have hload : ((IdEx.ofId id m d₁ d₂).ctrl.isLoad || (IdEx.ofId id m d₁ d₂).ctrl.isLr) =
      (Decode.isLoad id.instr || Decode.isLr id.instr) := rfl
  have hstore : ((IdEx.ofId id m d₁ d₂).ctrl.isStore || (IdEx.ofId id m d₁ d₂).ctrl.isSc ||
      (IdEx.ofId id m d₁ d₂).ctrl.isAmoRmw) =
      (Decode.isStore id.instr || Decode.isSc id.instr || Decode.isAmoRmw id.instr) := rfl
  have haddr : (IdEx.ofId id m d₁ d₂).lsAddr a = Isa.lsAddr id.instr a := rfl
  have hec : (IdEx.ofId id m d₁ d₂).ctrl.isEcall = Decode.isEcall id.instr := rfl
  have heb : (IdEx.ofId id m d₁ d₂).ctrl.isEbreak = Decode.isEbreak id.instr := rfl
  have hins : (IdEx.ofId id m d₁ d₂).instr = id.instr := rfl
  unfold IdEx.trapInfo Isa.exception
  rw [hv, hirq, hff, hfp, hill, hec, heb, hins, misalignedTarget_eq, lsMisaligned_isa, hload, hstore, haddr]
  cases Isa.strays id.instr id.pc a b
  · cases hs : Isa.straddles id.instr a
    · simp [Isa.ecallCause]
    · rcases straddles_elim a hs with h | h
      · simp [Isa.ecallCause, h]
      · cases Decode.isLoad id.instr || Decode.isLr id.instr <;> simp [Isa.ecallCause, h]
  · simp [Isa.ecallCause]

end CorePipeline

end QinglongCore
