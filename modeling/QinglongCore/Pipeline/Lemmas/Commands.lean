import QinglongCore.Csr.Lemmas.Edges
import QinglongCore.Pipeline.Lemmas.Exceptions
import QinglongCore.Pipeline.Lemmas.Passage

/-!
# What an instruction commits

WB holds an instruction or a trap of the hart; then its commands leave the registers and CSRs of the hart behind, and
fetch goes on where the hart does.
-/

namespace QinglongCore

/-! ## The command ports of the CSR file -/

namespace Csr

/-- The ports count only together with their enables. -/
theorem step_congr {s : State} {e : Ext} {i j : In} (hen : i.csrEn = j.csrEn)
    (hcsr : i.csrEn = true → i.csrOp = j.csrOp ∧ i.csrAddr = j.csrAddr ∧ i.csrRs1OrImm = j.csrRs1OrImm ∧
      i.csrWdata = j.csrWdata)
    (htake : i.trapTake = j.trapTake)
    (htrap : i.trapTake = true → i.trapPc = j.trapPc ∧ i.trapCause = j.trapCause ∧ i.trapTval = j.trapTval)
    (hret : i.mret = j.mret ∧ i.sret = j.sret ∧ i.retire = j.retire) : step s e i = step s e j := by
  obtain ⟨en, op, a, r, d, tt, tp, tc, tv, mr, sr, re⟩ := i
  obtain ⟨en', op', a', r', d', tt', tp', tc', tv', mr', sr', re'⟩ := j
  obtain ⟨h₁, h₂, h₃⟩ := hret
  simp only at hen hcsr htake htrap h₁ h₂ h₃
  subst hen htake h₁ h₂ h₃
  have hwrites : ∀ (o o' : BitVec 3) (x x' : BitVec 12) (y y' : BitVec 5) (z z' p p' q q' v v' : Word),
      step s e ⟨false, o, x, y, z, tt, p, q, v, mr, sr, re⟩ =
        step s e ⟨false, o', x', y', z', tt, p, q, v, mr, sr, re⟩ := by
    intros
    simp [step, tick, doWrite, trapToS, trapS, trapM]
  have htraps : ∀ (p p' q q' v v' : Word), tt = false →
      step s e ⟨en, op, a, r, d, tt, p, q, v, mr, sr, re⟩ = step s e ⟨en, op, a, r, d, tt, p', q', v', mr, sr, re⟩ := by
    rintro p p' q q' v v' rfl
    rfl
  cases htt : tt
  · rw [htt] at htraps
    rw [htraps tp tp' tc tc' tv tv' rfl]
    cases hen : en
    · rw [htt] at hwrites
      exact hwrites _ _ _ _ _ _ _ _ tp' tp' tc' tc' tv' tv'
    · obtain ⟨rfl, rfl, rfl, rfl⟩ := hcsr hen
      rfl
  · obtain ⟨rfl, rfl, rfl⟩ := htrap htt
    cases hen : en
    · rw [htt] at hwrites
      exact hwrites _ _ _ _ _ _ _ _ tp tp tc tc tv tv
    · obtain ⟨rfl, rfl, rfl, rfl⟩ := hcsr hen
      rfl

end Csr

namespace Isa

/-! ## Words of SYSTEM and FENCE.I -/

variable {mem₀ : Word → Word} {w : Word} {A : Arch} {h : Hart} {m : Moment}

theorem opcode_of_not_ordinary (ho : ordinary w = false) : opcode w = OP_SYSTEM ∨ opcode w = OP_MISC_MEM := by
  simp only [ordinary, Decode.isSystem, Decode.isMisc, Bool.and_eq_false_iff, Bool.not_eq_false', Bool.and_eq_true,
    beq_iff_eq] at ho
  exact ho.imp id And.left

theorem bus_of_not_ordinary (ho : ordinary w = false) : Decode.isLoad w = false ∧ Decode.isStore w = false ∧
    Decode.isLr w = false ∧ Decode.isSc w = false ∧ Decode.isAmoRmw w = false ∧ Decode.isDiv w = false := by
  rcases opcode_of_not_ordinary ho with h | h <;>
    simp [Decode.isLoad, Decode.isStore, Decode.isLr, Decode.isSc, Decode.isAmoRmw, Decode.isAmoW, Decode.isAmo,
      Decode.isDiv, Decode.isMuldiv, Decode.isOp, h, OP_SYSTEM, OP_MISC_MEM, OP_LOAD, OP_STORE, OP_AMO, OP_OP]

theorem makes_of_not_ordinary (ho : ordinary w = false) : A.makes mem₀ w = [] := by
  obtain ⟨h₁, h₂, h₃, h₄, h₅, -⟩ := bus_of_not_ordinary ho
  exact Arch.makes_none h₁ h₂ (by simp [Decode.isAtomic, h₃, h₄, h₅])

theorem nextPc_of_not_ordinary (ho : ordinary w = false) (pc a b : Word) : nextPc w pc a b = pc + 4 := by
  rcases opcode_of_not_ordinary ho with h | h <;>
    simp [nextPc, Decode.isJalr, Decode.isJal, Decode.isBranch, h, OP_SYSTEM, OP_MISC_MEM, OP_JAL, OP_JALR, OP_BRANCH]

/-- Of these only CSR instructions write a register. -/
theorem writesRd_of_not_ordinary (ho : ordinary w = false) (hc : Decode.isCsr w = false) :
    Decode.writesRd w = false := by
  obtain ⟨h₁, -, h₃, h₄, h₅, -⟩ := bus_of_not_ordinary ho
  rcases opcode_of_not_ordinary ho with h | h <;>
    simp [Decode.writesRd, Decode.isLui, Decode.isAuipc, Decode.isJal, Decode.isJalr, Decode.isOpImm, Decode.isOp,
      Decode.isAtomic, hc, h₁, h₃, h₄, h₅, h, OP_SYSTEM, OP_MISC_MEM, OP_LUI, OP_AUIPC, OP_JAL, OP_JALR, OP_OP_IMM,
      OP_OP]

theorem exec_of_not_ordinary (ho : ordinary w = false) :
    (A.exec mem₀ w).link = A.link ∧ (A.exec mem₀ w).accesses = A.accesses := by
  obtain ⟨-, -, h₃, h₄, h₅, -⟩ := bus_of_not_ordinary ho
  simp [Arch.exec, h₃, h₄, h₅, makes_of_not_ordinary ho]

/-- An ordinary word is no command. -/
theorem commands_of_ordinary (ho : ordinary w = true) : Decode.isMret w = false ∧ Decode.isSret w = false ∧
    Decode.isCsr w = false ∧ isFenceI w = false ∧ Decode.isSfence w = false := by
  simp only [ordinary, Bool.and_eq_true, Bool.not_eq_true'] at ho
  simp [Decode.isMret, Decode.isSret, Decode.isPriv, Decode.isCsr, Decode.isSfence, isFenceI, ho.1, ho.2]

/-- CSR instructions, returns and fences exclude each other. -/
theorem commands_of_isCsr (hc : Decode.isCsr w = true) : Decode.isMret w = false ∧ Decode.isSret w = false ∧
    isFenceI w = false ∧ Decode.isSfence w = false := by
  simp only [Decode.isCsr, Decode.isSystem, Bool.and_eq_true, beq_iff_eq, bne_iff_ne] at hc
  simp [Decode.isMret, Decode.isSret, Decode.isPriv, Decode.isSfence, isFenceI, Decode.isMisc, hc.1, hc.2, OP_SYSTEM,
    OP_MISC_MEM]

namespace Hart

/-! ## Steps of the hart -/

theorem next_of_trap {cause tval : Word} (ht : h.trap mem₀ m.interrupt = some (cause, tval)) :
    (h.next mem₀ m).arch = { h.arch with
      pc := trapVector (if Csr.trapToS h.csr (h.command mem₀ m) then h.csr.stvec else h.csr.mtvec) cause
      link := none } := by
  unfold next
  rw [ht]

theorem next_of_no_trap (ht : h.trap mem₀ m.interrupt = none) :
    (h.next mem₀ m).arch = h.performed mem₀ m (h.insn mem₀) := by
  unfold next
  rw [ht]

/-- Without an interrupt in front of it, a sound instruction does what it does without CSRs. -/
theorem next_of_sound (hi : m.interrupt = none) (hs : h.arch.sound (h.insn mem₀) = true) :
    (h.next mem₀ m).arch = h.arch.exec mem₀ (h.insn mem₀) := by
  have ho : ordinary (h.insn mem₀) = true := by
    simp only [Arch.sound, sound, Bool.and_eq_true] at hs
    exact hs.1.1.1
  have ht : h.trap mem₀ m.interrupt = none := by
    rw [hi]
    exact (exception_ordinary ho).mpr hs
  obtain ⟨h₁, h₂, h₃, h₄, h₅⟩ := commands_of_ordinary ho
  rw [next_of_no_trap ht]
  simp [performed, h₁, h₂, h₃, h₄, h₅]

theorem targets_of_csrNow {c : Csr.State} {n : BitVec 64} (hc : h.csrNow n = c) :
    h.csr.mepc = c.mepc ∧ h.csr.sepc = c.sepc ∧ h.csr.mtvec = c.mtvec ∧ h.csr.stvec = c.stvec := by
  subst hc
  exact ⟨rfl, rfl, rfl, rfl⟩

/-- Where everything is fetched afresh, no access is made and the reservation is lost. -/
theorem next_of_refetch (hr : ((h.trap mem₀ m.interrupt).isSome || refetches (h.insn mem₀)) = true) :
    (h.next mem₀ m).arch.accesses = h.arch.accesses ∧ (h.next mem₀ m).arch.link = none ∧
      (h.next mem₀ m).seen = h.arch.accesses := by
  have hseen : (h.next mem₀ m).seen = h.arch.accesses := by
    unfold next
    rw [hr]
    rfl
  cases ht : h.trap mem₀ m.interrupt with
  | some x =>
      rw [next_of_trap ht]
      exact ⟨rfl, rfl, hseen⟩
  | none =>
      rw [ht, Option.isSome_none, Bool.false_or] at hr
      rw [next_of_no_trap ht, performed]
      simp only [refetches, Bool.or_eq_true, Bool.and_eq_true, beq_iff_eq] at hr
      split_ifs with hm hs hc hsatp hf
      · exact ⟨rfl, rfl, hseen⟩
      · exact ⟨rfl, rfl, hseen⟩
      · exact ⟨rfl, rfl, hseen⟩
      · obtain ⟨-, -, h₃, h₄⟩ := commands_of_isCsr hc
        simp [hm, hs, hsatp, h₃, h₄] at hr
      · exact ⟨rfl, rfl, hseen⟩
      · simp only [Bool.or_eq_true, not_or] at hf
        simp [hm, hs, hc, hf] at hr

/-- Otherwise the hart goes on to the successor of the instruction. -/
theorem next_onward (hr : ((h.trap mem₀ m.interrupt).isSome || refetches (h.insn mem₀)) = false) :
    (h.next mem₀ m).arch.accesses = (h.arch.exec mem₀ (h.insn mem₀)).accesses ∧
      (h.next mem₀ m).arch.link = (h.arch.exec mem₀ (h.insn mem₀)).link ∧
      (h.next mem₀ m).arch.pc = (h.arch.exec mem₀ (h.insn mem₀)).pc ∧ (h.next mem₀ m).seen = h.seen := by
  have hseen : (h.next mem₀ m).seen = h.seen := by
    unfold next
    rw [hr]
    rfl
  simp only [Bool.or_eq_false_iff, Option.isSome_eq_false_iff, Option.isNone_iff_eq_none, refetches,
    Bool.and_eq_false_iff] at hr
  obtain ⟨ht, ⟨⟨⟨hm, hs⟩, hf⟩, hv⟩, hsatp⟩ := hr
  rw [next_of_no_trap ht, performed, hm, hs, hf, hv]
  cases hc : Decode.isCsr (h.insn mem₀)
  · exact ⟨rfl, rfl, rfl, hseen⟩
  · have ho : ordinary (h.insn mem₀) = false := by
      cases ho : ordinary (h.insn mem₀)
      · rfl
      · rw [(commands_of_ordinary ho).2.2.1] at hc
        simp at hc
    have hne : csrField (h.insn mem₀) ≠ CSR_SATP := by simpa [hc] using hsatp
    obtain ⟨hl, ha⟩ := @exec_of_not_ordinary mem₀ _ h.arch ho
    rw [hl, ha]
    refine ⟨rfl, ?_, (nextPc_of_not_ordinary ho _ _ _).symm, hseen⟩
    simp [hne]

end Hart

end Isa

namespace CorePipeline

open Isa (Arch Hart Moment ordinary refetches)

variable {mem₀ : Word → Word} {A : Arch} {h : Hart} {w : Word} {m : ExMem} {s : State} {x : MemWb} {e : Ext}
  {irq : Option Ext}

/-! ## MEM/WB -/

/-- MEM/WB holds the instruction of `A`, with its result or its command. -/
structure Committing (mem₀ : Word → Word) (A : Arch) (x : MemWb) : Prop where
  pc : x.pc = A.pc
  instr : x.instr = A.insn mem₀
  rd : x.rd = rdField (A.insn mem₀)
  rdWen : x.rdWen = Decode.writesRd (A.insn mem₀)
  trap : x.trap = false
  isMret : x.isMret = Decode.isMret (A.insn mem₀)
  isSret : x.isSret = Decode.isSret (A.insn mem₀)
  isCsr : x.isCsr = Decode.isCsr (A.insn mem₀)
  result : Decode.isCsr (A.insn mem₀) = false → x.result = A.result mem₀ (A.insn mem₀)
  csr : Decode.isCsr (A.insn mem₀) = true → x.csrAddr = csrField (A.insn mem₀) ∧ x.csrOp = funct3 (A.insn mem₀) ∧
    x.csrRs1imm = rs1Field (A.insn mem₀) ∧ x.csrWdata =
      if (funct3 (A.insn mem₀)).getLsbD 2 then (rs1Field (A.insn mem₀)).setWidth 32 else A.rs1 (A.insn mem₀)

/-- MEM/WB holds a trap. -/
structure Raises (x : MemWb) (pc cause tval : Word) : Prop where
  trap : x.trap = true
  pc : x.pc = pc
  cause : x.cause = cause
  tval : x.tval = tval

theorem Retiring.committing (hx : Retiring mem₀ A x) (ho : ordinary (A.insn mem₀) = true) : Committing mem₀ A x := by
  obtain ⟨h₁, h₂, h₃, -, -⟩ := Isa.commands_of_ordinary ho
  refine ⟨hx.pc, hx.instr, hx.rd, hx.rdWen, hx.trap, hx.isMret.trans h₁.symm, hx.isSret.trans h₂.symm,
    hx.isCsr.trans h₃.symm, fun _ => hx.result, fun hc => ?_⟩
  rw [h₃] at hc
  simp at hc

theorem Entered.command (hm : Entered mem₀ A w m) : m.isMret = Decode.isMret w ∧ m.isSret = Decode.isSret w ∧
    m.isCsr = Decode.isCsr w ∧ m.csrAddr = csrField w ∧ m.csrOp = QinglongCore.funct3 w ∧ m.csrRs1imm = rs1Field w ∧
      (Decode.isDiv w = false →
        m.csrWdata = if (QinglongCore.funct3 w).getLsbD 2 then (rs1Field w).setWidth 32 else A.rs1 w) := by
  obtain ⟨id, md, d₁, d₂, x, y, dv, hit, ph, ls, rfl, -, hw, hops, -⟩ := hm.fields
  subst hw
  refine ⟨Bool.and_true _, Bool.and_true _, Bool.and_true _, rfl, rfl, rfl, fun hd => ?_⟩
  rw [← (hops hd).1]
  rfl

/-- An instruction of SYSTEM, or a FENCE.I, leaves MEM with its command. -/
theorem Entered.committing (hm : Entered mem₀ A (A.insn mem₀) m) (ho : ordinary (A.insn mem₀) = false) (b : MemBus) :
    Committing mem₀ A (MemWb.ofMem m b) := by
  obtain ⟨hpc, hi, hrd, hwen⟩ := hm.word
  obtain ⟨hb, hres⟩ := hm.result (Isa.makes_of_not_ordinary ho)
  obtain ⟨hmret, hsret, hcsr, haddr, hop, hrs1, hdata⟩ := hm.command
  have hdiv := (Isa.bus_of_not_ordinary ho).2.2.2.2.2
  constructor <;>
    simp [MemWb.ofMem, MemWb.payload, hb, hpc, hi, hrd, hwen, hres, hm.valid.2, hmret, hsret, hcsr, haddr, hop, hrs1,
      hdata hdiv]

/-! ## The commands of WB -/

/-- The commands of WB are those of the hart. -/
structure Commands (mem₀ : Word → Word) (h : Hart) (m : Moment) (s : State) : Prop where
  trap : s.wb.trap = (h.trap mem₀ m.interrupt).isSome
  regs : s.regs.write (rfWen s) s.wb.rd (wbCommitRdData s m.ext) = (h.next mem₀ m).arch.regs
  csr : Csr.step s.csr m.ext (csrIn s) = (h.next mem₀ m).csr
  redirect : wbRedirect s = ((h.trap mem₀ m.interrupt).isSome || refetches (h.insn mem₀))
  target : wbRedirect s = true → wbRedirectPc s = (h.next mem₀ m).arch.pc

section
variable (hv : s.wb.valid = true) (hcsr : h.csrNow s.csr.mcycle = s.csr)

include hv

theorem Committing.redirect (hx : Committing mem₀ A s.wb) : wbRedirect s = refetches (A.insn mem₀) := by
  have hf : wbIsFenceI s = Isa.isFenceI (A.insn mem₀) := by
    simp [wbIsFenceI, Isa.isFenceI, Decode.isMisc, hv, hx.trap, hx.instr]
  have hs : wbIsSfence s = Decode.isSfence (A.insn mem₀) := by
    simp [wbIsSfence, Decode.isSfence, Decode.isSystem, hv, hx.trap, hx.instr]
  have hc : wbIsCsrwSatp s = (Decode.isCsr (A.insn mem₀) && csrField (A.insn mem₀) == CSR_SATP) := by
    simp [wbIsCsrwSatp, wbIsCsrOp, Decode.isCsr, Decode.isSystem, hv, hx.trap, hx.instr]
  simp [wbRedirect, refetches, hv, hx.trap, hx.isMret, hx.isSret, hf, hs, hc]

include hcsr

/-- The registers behind an instruction without a trap. -/
theorem Committing.regs (hx : Committing mem₀ h.arch s.wb) (hregs : s.regs = h.arch.regs)
    (ht : h.trap mem₀ irq = none) : s.regs.write (rfWen s) s.wb.rd (wbCommitRdData s e) =
      (h.next mem₀ ⟨e, s.csr.mcycle, irq⟩).arch.regs := by
  have hz : (Decode.writesRd (h.insn mem₀) && rdField (h.insn mem₀) != 0#5) = Decode.writesRd (h.insn mem₀) := by
    rw [Decode.writesRd, Bool.and_assoc, Bool.and_self]
  have hwen : rfWen s = Decode.writesRd (h.insn mem₀) := by
    rw [rfWen, hv, hx.rdWen, hx.trap, hx.rd, Bool.true_and, Bool.not_false, Bool.and_true]
    exact hz
  rw [Hart.next_of_no_trap ht, hwen, hx.rd, hregs, wbCommitRdData, hx.isCsr]
  cases hc : Decode.isCsr (h.insn mem₀)
  · have hc' : Decode.isCsr (h.arch.insn mem₀) = false := hc
    rw [hc', if_neg (by simp), hx.result hc']
    cases ho : ordinary (h.insn mem₀)
    · have hexec : (h.arch.exec mem₀ (h.insn mem₀)).regs = h.arch.regs := by
        rw [Arch.exec, Isa.writesRd_of_not_ordinary ho hc, RegFile.write_false]
      rw [Isa.writesRd_of_not_ordinary ho hc, RegFile.write_false, Hart.performed, hc]
      simp only [Bool.false_eq_true, if_false]
      split_ifs
      · rfl
      · rfl
      · rfl
      · exact hexec.symm
    · obtain ⟨h₁, h₂, h₃, h₄, h₅⟩ := Isa.commands_of_ordinary ho
      rw [Hart.performed, h₁, h₂, h₃, h₄, h₅]
      rfl
  · have hc' : Decode.isCsr (h.arch.insn mem₀) = true := hc
    obtain ⟨h₁, h₂, -, -⟩ := Isa.commands_of_isCsr hc
    rw [hc', if_pos rfl, csrRdata, (hx.csr hc').1, Hart.performed, h₁, h₂, hc, hcsr]
    rfl

theorem Committing.csrStep (hx : Committing mem₀ h.arch s.wb) (ht : h.trap mem₀ irq = none) :
    Csr.step s.csr e (csrIn s) = (h.next mem₀ ⟨e, s.csr.mcycle, irq⟩).csr := by
  have hcmd : h.command mem₀ ⟨e, s.csr.mcycle, irq⟩ =
      { csrEn := Decode.isCsr (h.insn mem₀), csrOp := funct3 (h.insn mem₀), csrAddr := csrField (h.insn mem₀)
        csrRs1OrImm := rs1Field (h.insn mem₀), csrWdata := h.csrOperand (h.insn mem₀)
        trapTake := false, trapPc := 0, trapCause := 0, trapTval := 0
        mret := Decode.isMret (h.insn mem₀), sret := Decode.isSret (h.insn mem₀), retire := true } := by
    unfold Hart.command
    rw [ht]
  show _ = Csr.step (h.csrNow s.csr.mcycle) e (h.command mem₀ ⟨e, s.csr.mcycle, irq⟩)
  rw [hcsr, hcmd]
  have hen : (csrIn s).csrEn = Decode.isCsr (h.insn mem₀) := by
    show (s.wb.valid && s.wb.isCsr && !s.wb.trap) = _
    rw [hv, hx.isCsr, hx.trap, Bool.true_and, Bool.not_false, Bool.and_true]
    rfl
  refine Csr.step_congr hen (fun hc => ?_) ?_ (fun hc => ?_) ⟨?_, ?_, ?_⟩
  · rw [hen] at hc
    obtain ⟨h₁, h₂, h₃, h₄⟩ := hx.csr hc
    exact ⟨h₂, h₁, h₃, h₄⟩
  · show (s.wb.valid && s.wb.trap) = false
    rw [hx.trap, Bool.and_false]
  · have hc' : (s.wb.valid && s.wb.trap) = true := hc
    rw [hx.trap, Bool.and_false] at hc'
    simp at hc'
  · show (s.wb.valid && s.wb.isMret && !s.wb.trap) = _
    rw [hv, hx.isMret, hx.trap, Bool.true_and, Bool.not_false, Bool.and_true]
    rfl
  · show (s.wb.valid && s.wb.isSret && !s.wb.trap) = _
    rw [hv, hx.isSret, hx.trap, Bool.true_and, Bool.not_false, Bool.and_true]
    rfl
  · show (s.wb.valid && !s.wb.trap) = true
    rw [hv, hx.trap]
    rfl

/-- Where a return or a fence goes. -/
theorem Committing.target (hx : Committing mem₀ h.arch s.wb) (ht : h.trap mem₀ irq = none)
    (hw : wbRedirect s = true) : wbRedirectPc s = (h.next mem₀ ⟨e, s.csr.mcycle, irq⟩).arch.pc := by
  have hr := hw
  rw [hx.redirect hv] at hr
  obtain ⟨hmepc, hsepc, -, -⟩ := Hart.targets_of_csrNow hcsr
  have hi : h.arch.insn mem₀ = h.insn mem₀ := rfl
  rw [Hart.next_of_no_trap ht, wbRedirectPc, hx.trap, hx.isMret, hx.isSret, hi, Hart.performed]
  cases hm : Decode.isMret (h.insn mem₀)
  · cases hs : Decode.isSret (h.insn mem₀)
    · have hf : (wbIsFenceI s || wbIsSfence s || wbIsCsrwSatp s) = true := by
        simpa [wbRedirect, hv, hx.trap, hx.isMret, hx.isSret, hi, hm, hs] using hw
      simp only [hf, hx.pc, Bool.false_and, Bool.false_eq_true, if_false, if_true]
      cases hc : Decode.isCsr (h.insn mem₀)
      · rw [hi, refetches, hm, hs, hc, Bool.false_and, Bool.or_false] at hr
        simp only [Bool.false_or] at hr
        rw [hr]
        rfl
      · rfl
    · simp [hsepc]
  · simp [hmepc]

theorem Committing.commands (hx : Committing mem₀ h.arch s.wb) (hregs : s.regs = h.arch.regs)
    (ht : h.trap mem₀ irq = none) : Commands mem₀ h ⟨e, s.csr.mcycle, irq⟩ s where
  trap := by
    rw [hx.trap, ht]
    rfl
  regs := hx.regs hv hcsr hregs ht
  csr := hx.csrStep hv hcsr ht
  redirect := by
    rw [hx.redirect hv, ht]
    rfl
  target hw := hx.target hv hcsr ht hw

/-! ## Traps -/

variable {pc cause tval : Word}

omit hv hcsr in
/-- The handler of the hart is that of the core. -/
theorem vectored_of_trap (ht : h.trap mem₀ irq = some (cause, tval)) (tvec : Word) :
    vectored tvec cause = Isa.trapVector tvec cause := by
  cases irq with
  | some e =>
      simp only [Hart.trap, Option.some.injEq, Prod.mk.injEq] at ht
      rw [← ht.1]
      exact vectored_of_irq tvec h.csr e
  | none => exact vectored_of_exception (Isa.exception_cause ht)

theorem Raises.commands (hx : Raises s.wb h.arch.pc cause tval) (hregs : s.regs = h.arch.regs)
    (ht : h.trap mem₀ irq = some (cause, tval)) : Commands mem₀ h ⟨e, s.csr.mcycle, irq⟩ s := by
  have hcmd : h.command mem₀ ⟨e, s.csr.mcycle, irq⟩ =
      { csrEn := false, csrOp := 0, csrAddr := 0, csrRs1OrImm := 0, csrWdata := 0
        trapTake := true, trapPc := h.arch.pc, trapCause := cause, trapTval := tval
        mret := false, sret := false, retire := false } := by
    unfold Hart.command
    rw [ht]
  have htoS : Csr.trapToS s.csr (csrIn s) = Csr.trapToS h.csr (h.command mem₀ ⟨e, s.csr.mcycle, irq⟩) := by
    rw [hcmd]
    show (s.wb.valid && s.wb.trap && s.csr.privMode != PRV_M && Csr.delegated s.csr s.wb.cause) = _
    rw [hv, hx.trap, hx.cause, ← hcsr]
    rfl
  have hfences : wbIsFenceI s = false ∧ wbIsSfence s = false ∧ wbIsCsrwSatp s = false := by
    simp [wbIsFenceI, wbIsSfence, wbIsCsrwSatp, wbIsCsrOp, hx.trap]
  refine ⟨by rw [hx.trap, ht]; rfl, ?_, ?_, ?_, fun _ => ?_⟩
  · rw [Hart.next_of_trap ht, rfWen, hx.trap, Bool.not_true, Bool.and_false, Bool.false_and, RegFile.write_false]
    exact hregs
  · show _ = Csr.step (h.csrNow s.csr.mcycle) e (h.command mem₀ ⟨e, s.csr.mcycle, irq⟩)
    rw [hcsr, hcmd]
    refine Csr.step_congr ?_ (fun hc => ?_) ?_ (fun _ => ?_) ⟨?_, ?_, ?_⟩
    · show (s.wb.valid && s.wb.isCsr && !s.wb.trap) = false
      simp [hx.trap]
    · have hc' : (s.wb.valid && s.wb.isCsr && !s.wb.trap) = true := hc
      simp [hx.trap] at hc'
    · show (s.wb.valid && s.wb.trap) = true
      rw [hv, hx.trap]
      rfl
    · exact ⟨hx.pc, hx.cause, hx.tval⟩
    · show (s.wb.valid && s.wb.isMret && !s.wb.trap) = false
      simp [hx.trap]
    · show (s.wb.valid && s.wb.isSret && !s.wb.trap) = false
      simp [hx.trap]
    · show (s.wb.valid && !s.wb.trap) = false
      simp [hx.trap]
  · simp [wbRedirect, hv, hx.trap, ht]
  · obtain ⟨-, -, hmtvec, hstvec⟩ := Hart.targets_of_csrNow hcsr
    rw [Hart.next_of_trap ht, wbRedirectPc, hx.trap, hfences.1, hfences.2.1, hfences.2.2, htoS, hx.cause, hstvec,
      hmtvec, vectored_of_trap ht, vectored_of_trap ht]
    cases Csr.trapToS h.csr (h.command mem₀ ⟨e, s.csr.mcycle, irq⟩) <;> simp

end

end CorePipeline

end QinglongCore
