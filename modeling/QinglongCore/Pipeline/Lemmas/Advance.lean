import QinglongCore.Pipeline.Lemmas.Abreast

/-!
# The pipeline keeps abreast of the hart

What leaves MEM enters WB as the next step of the hart, and what leaves EX enters MEM as the one behind it.
-/

namespace QinglongCore.CorePipeline

open Isa (Access Arch Hart Moment Shown accesses ordinary refetches)

variable {mem₀ : Word → Word} {pc : Word} {regs : RegFile} {inp : Nat → In} {c : Nat → Shown} {t : Nat} {s : State}
  {h : Hart} {irq : Option Ext}

/-! ## MEM -/

theorem Entered.no_bus {A : Arch} {w : Word} {m : ExMem} (hm : Entered mem₀ A w m) (ho : ordinary w = false) :
    m.hasBusOp = false := by
  obtain ⟨h₁, h₂, h₃, h₄, h₅⟩ := hm.flags
  obtain ⟨g₁, g₂, g₃, g₄, g₅, -⟩ := Isa.bus_of_not_ordinary ho
  simp [ExMem.hasBusOp, h₁, h₂, h₃, h₄, h₅, g₁, g₂, g₃, g₄, g₅]

namespace AtMem

variable (ha : AtMem mem₀ c inp h irq t s) (hsp : Spaced s) (hc : c t = shows s (inp t)) (hs : Isa.Served c mem₀ inp)
  (hw : wbRedirect s = false) (hv : s.mem.valid = true)

include ha hsp hc hs hw hv

theorem leaves (hst : stallMem s = false) (hf : s.bus.busFault = false ∧ s.bus.busPagefault = false) :
    AtWb mem₀ h irq (MemWb.ofMem s.mem s.bus) ∧
      ((MemWb.ofMem s.mem s.bus).trap && (MemWb.ofMem s.mem s.bus).cause.msb) = (s.mem.trap && s.mem.cause.msb) ∧
      Resting c inp (if (MemWb.ofMem s.mem s.bus).trap then h.arch else h.arch.exec mem₀ (h.insn mem₀)) (t + 1)
        (step s (inp t)) := by
  cases ha with
  | trap ht htrap hpc hcause htval hr =>
      obtain ⟨ht', hcause', htval'⟩ := ofMem_of_trap (hsp.mem_origin hv) htrap s.bus
      refine ⟨.trap ht ⟨ht', (ofMem_pc _ _).trans hpc, hcause'.trans hcause, htval'.trans htval⟩, ?_, ?_⟩
      · rw [ht', hcause', htrap]
      · rw [ht', if_pos rfl]
        exact hr.quiet hc hs hw ((hsp.mem_origin hv).trap_no_bus htrap)
  | passing ht ho hp =>
      have hl : s.mem.lsPending = false := by
        have hst' := hst
        rw [stallMem_of_ordinary (by rw [hp.entered.word.2.1]; exact ho), hv] at hst'
        exact hst'
      have hx := (hp.retiring hl ho hf).committing ho
      refine ⟨.insn ht hx, ?_, ?_⟩
      · rw [hx.trap, hp.entered.valid.2, Bool.false_and, Bool.false_and]
      · rw [hx.trap, if_neg (by simp)]
        exact hp.leaves hsp hc hs hw hst ho
  | system ht ho hm hr =>
      have hx := hm.committing ho s.bus
      obtain ⟨hlink, hacc⟩ := @Isa.exec_of_not_ordinary mem₀ _ h.arch ho
      refine ⟨.insn ht hx, ?_, ?_⟩
      · rw [hx.trap, hm.valid.2, Bool.false_and, Bool.false_and]
      · rw [hx.trap, if_neg (by simp)]
        exact (hr.quiet hc hs hw (hm.no_bus ho)).of_eq hacc hlink

/-- Only an instruction without a trap waits in MEM. -/
theorem holds (hst : stallMem s = true) : s.mem.trap = false ∧ AtMem mem₀ c inp h irq (t + 1) (step s (inp t)) := by
  cases ha with
  | trap ht htrap hpc hcause htval hr =>
      rw [hsp.stallMem_of_trap hv htrap] at hst
      simp at hst
  | passing ht ho hp => exact ⟨hp.entered.valid.2, .passing ht ho (passing_hold hp hc hs hw hst ho)⟩
  | system ht ho hm hr =>
      have hq : (inp t).dmemRspValid = false := hs.data.quiet hr.requests
      have hm' : (step s (inp t)).mem = s.mem := by
        rw [step_mem, memNext_of_stall hw hst]
        simp [memHold, memRspThisCycle, hq]
      refine ⟨hm.valid.2, .system ht ho ?_ (hr.quiet hc hs hw (hm.no_bus ho))⟩
      rw [hm']
      exact hm

end AtMem

/-! ## Into WB -/

theorem memIrq_of_no_trap (ht : (run pc regs inp t).mem.trap = false) : memIrq pc regs inp t = none := by
  simp [memIrq, ht]

namespace Abreast

variable (ha : Abreast mem₀ pc regs inp t) (hs : Isa.Served (shown pc regs inp) mem₀ inp)

include ha hs

/-- What leaves MEM is the next step of the hart, and leaves no access behind. -/
theorem leaves (hk : (hart mem₀ pc regs inp (t + 1)).Coherent mem₀) (hw : wbRedirect (run pc regs inp t) = false)
    (hst : stallMem (run pc regs inp t) = false) : (run pc regs inp (t + 1)).wb.valid = (run pc regs inp t).mem.valid ∧
      ((run pc regs inp t).mem.valid = true →
        AtWb mem₀ (hart mem₀ pc regs inp (t + 1)) (moment pc regs inp (t + 1)).interrupt (run pc regs inp (t + 1)).wb ∧
        (hart mem₀ pc regs inp (t + 1)).Due (moment pc regs inp (t + 1)).interrupt) ∧
      Resting (shown pc regs inp) inp (left mem₀ pc regs inp (t + 1)) (t + 1) (run pc regs inp (t + 1)) := by
  cases hv : (run pc regs inp t).mem.valid
  · have hwb : (run pc regs inp (t + 1)).wb.valid = false := wbNext_empty (.inl hv)
    refine ⟨hwb, by simp, ?_⟩
    rw [left_of_no_wb hwb]
    exact ((ha.rest hv).idle rfl hs hw hv).of_eq ha.level.left_accesses.symm (ha.level.left_link hw).symm
  · obtain ⟨hat, hdue⟩ := ha.mem hv hk
    obtain ⟨hwb, hirq, hrest⟩ := hat.leaves (spaced_run t) rfl hs hw hv hst ha.level.orderly.faults
    have he : (run pc regs inp (t + 1)).wb = MemWb.ofMem (run pc regs inp t).mem (run pc regs inp t).bus :=
      wbNext_of_mem hw hv hst
    have hv' : (run pc regs inp (t + 1)).wb.valid = true := by rw [he, ofMem_valid]
    have hint : (moment pc regs inp (t + 1)).interrupt = memIrq pc regs inp t := by
      have hsub : t + 1 - 4 = t - 3 := by omega
      have htake : irqTrapWb (run pc regs inp (t + 1)) =
          ((run pc regs inp t).mem.trap && (run pc regs inp t).mem.cause.msb) := by
        rw [irqTrapWb, trapTakeWb, hv', Bool.true_and, he]
        exact hirq
      simp only [moment, memIrq, htake, hsub]
    rw [hint, he]
    refine ⟨ofMem_valid _ _, fun _ => ⟨hwb, hdue⟩, ?_⟩
    rw [left, hv', he]
    cases htrap : (MemWb.ofMem (run pc regs inp t).mem (run pc regs inp t).bus).trap
    · rw [htrap] at hrest
      exact hrest
    · rw [htrap] at hrest
      exact hrest

/-- Behind a redirect nothing is in flight. -/
theorem drains (hc : wbRedirect (run pc regs inp t) = true → exDivStall (run pc regs inp t) = false)
    (hw : wbRedirect (run pc regs inp t) = true) : Drained (run pc regs inp (t + 1)) ∧
      Resting (shown pc regs inp) inp (left mem₀ pc regs inp (t + 1)) (t + 1) (run pc regs inp (t + 1)) := by
  have hd : Drained (run pc regs inp (t + 1)) := (spaced_run t).drained_of_redirect hw (hc hw)
  have hm := ha.level.orderly.unfaulted.mem_empty (spaced_run t) hw
  refine ⟨hd, ?_⟩
  rw [left_of_no_wb hd.wb]
  exact (ha.rest hm).redirected rfl hs hw hm ha.level.left_accesses.symm (ha.level.redirected hw).2.1

theorem level_step (hk : (hart mem₀ pc regs inp (t + 1)).Coherent mem₀)
    (hc : wbRedirect (run pc regs inp t) = true → exDivStall (run pc regs inp t) = false) :
    Level mem₀ pc regs inp (t + 1) where
  orderly := ha.level.orderly.step hs hc
  current := by
    cases hw : wbRedirect (run pc regs inp t)
    · rw [ha.level.seen_next hw]
      exact ha.level.current.step (spaced_run t) ha.level.orderly.fetches rfl hs
    · obtain ⟨hd, hrest⟩ := ha.drains hs hc hw
      have hseen := (ha.level.redirected hw).2.2
      rw [left_of_no_wb hd.wb] at hrest
      rw [hseen, ← hrest.accesses]
      exact hd.current
  registers := ha.level.regs_next
  csrs := ha.level.csr_next
  head := by
    cases hw : wbRedirect (run pc regs inp t)
    · rw [← ha.level.behind hw]
      exact headPc_step hw (inp t)
    · have hpc : (run pc regs inp (t + 1)).fetch.pc = _ := step_fetch_pc_of_redirect hw
      rw [(ha.drains hs hc hw).1.headPc, hpc, (ha.level.redirected hw).1]
  wb hv := by
    obtain ⟨hw, hm, hst, -⟩ := wbNext_valid hv
    obtain ⟨-, hwb, hrest⟩ := ha.leaves hs hk hw hst
    exact ⟨(hwb hm).1, (hwb hm).2, hrest.accesses⟩

end Abreast

/-! ## Into MEM -/

/-- The instruction in EX is what the hart does behind MEM. -/
structure Entering (mem₀ : Word → Word) (pc : Word) (regs : RegFile) (inp : Nat → In) (t : Nat) : Prop where
  level : Level mem₀ pc regs inp t
  next : Level mem₀ pc regs inp (t + 1)
  valid : (run pc regs inp t).ex.valid = true
  moves : stallEx (run pc regs inp t) = false
  goesOn : wbRedirect (run pc regs inp t) = false
  mem : (run pc regs inp (t + 1)).mem = memAdvance (run pc regs inp t)
  wb : (run pc regs inp (t + 1)).wb.valid = (run pc regs inp t).mem.valid
  rest : Resting (shown pc regs inp) inp (left mem₀ pc regs inp (t + 1)) (t + 1) (run pc regs inp (t + 1))

namespace Entering

variable (he : Entering mem₀ pc regs inp t)

include he

theorem onward : wbRedirect (run pc regs inp (t + 1)) = false := by
  cases hw : wbRedirect (run pc regs inp (t + 1))
  · rfl
  · have hm := he.next.orderly.unfaulted.mem_empty (spaced_run (t + 1)) hw
    rw [he.mem] at hm
    simp at hm

/-- With MEM and WB empty the hart has not moved. -/
theorem hart_eq (hm : (run pc regs inp t).mem.valid = false) (hw : (run pc regs inp t).wb.valid = false) :
    hart mem₀ pc regs inp (t + 2) = hart mem₀ pc regs inp t := by
  rw [hart_succ_of_idle (he.wb.trans hm), hart_succ_of_idle hw]

theorem pc_eq : (run pc regs inp t).ex.pc = (hart mem₀ pc regs inp (t + 2)).arch.pc := by
  have hb : behindPc (run pc regs inp (t + 1)) = afterMem (run pc regs inp t) :=
    behindPc_step he.goesOn (stallMem_false_of_stallEx he.moves)
  rw [← he.next.behind he.onward, hb, afterMem, if_pos he.valid]

theorem regs_eq : settled (run pc regs inp t) = (hart mem₀ pc regs inp (t + 2)).arch.regs := by
  have hm : (run pc regs inp (t + 1)).mem.valid = true := by rw [he.mem, memAdvance_valid]
  have h₁ : afterWb (run pc regs inp (t + 1)) = settled (run pc regs inp t) :=
    afterWb_step (serialAlone_run t) (spaced_run t) he.valid
  have h₂ : (run pc regs inp (t + 1 + 1)).regs = afterWb (run pc regs inp (t + 1)) :=
    step_regs (serialAlone_run (t + 1)) (spaced_run (t + 1)) (.inr hm)
  rw [← he.next.regs_next, h₂, h₁]

theorem resting : Resting (shown pc regs inp) inp (hart mem₀ pc regs inp (t + 2)).arch (t + 1)
    (run pc regs inp (t + 1)) :=
  he.rest.of_eq he.next.left_accesses.symm (he.next.left_link he.onward).symm

/-- Beside an instruction in EX nothing in MEM touches the reservation. -/
theorem link_eq : Isa.linkOf (run pc regs inp t).resv = (hart mem₀ pc regs inp (t + 2)).arch.link := by
  have hresv : (run pc regs inp (t + 1)).resv = (run pc regs inp t).resv := by
    show resvNext (run pc regs inp t) (inp t) = _
    cases hm : (run pc regs inp t).mem.valid
    · simp [resvNext, he.goesOn, hm, memRspThisCycle]
    · have hb := ((spaced_run t).mem_origin hm).div_no_bus ((spaced_run t).ex_mem he.valid hm)
      simp only [ExMem.hasBusOp, Bool.or_eq_false_iff] at hb
      simp [resvNext, he.goesOn, hb]
  rw [← hresv, he.resting.link]

/-- The word in EX is the one that the hart finds in memory. -/
theorem instr_eq (hk : (hart mem₀ pc regs inp (t + 2)).Coherent mem₀)
    (hq : (run pc regs inp t).ex.ctrl.irq = false) :
    (run pc regs inp t).ex.instr = (hart mem₀ pc regs inp (t + 2)).insn mem₀ := by
  obtain ⟨l, h₁, h₂, hw⟩ := he.level.current.words.ex he.valid hq
  rw [hw, he.pc_eq]
  refine hk l ?_ ?_
  · rw [he.next.seen_next he.onward, he.level.seen_next he.goesOn]
    exact h₁
  · rw [← he.resting.accesses]
    exact h₂.trans (Isa.accesses_prefix (Nat.le_succ t))

theorem operands (hi : (run pc regs inp t).ex.instr = (hart mem₀ pc regs inp (t + 2)).insn mem₀)
    (hd : Decode.isDiv ((hart mem₀ pc regs inp (t + 2)).insn mem₀) = false) :
    exRs1Fwd (run pc regs inp t) =
        (hart mem₀ pc regs inp (t + 2)).arch.rs1 ((hart mem₀ pc regs inp (t + 2)).insn mem₀) ∧
      exRs2Fwd (run pc regs inp t) =
        (hart mem₀ pc regs inp (t + 2)).arch.rs2 ((hart mem₀ pc regs inp (t + 2)).insn mem₀) := by
  have hdec := (spaced_run t).ex_decoded he.valid
  obtain ⟨h₁, h₂⟩ := hdec.rs_fields
  have hns := (he.level.orderly.path.owned.idle (by rw [hdec.isDiv, hi, hd]; simp)).1
  have hf := he.level.orderly.path.held.forwarded (spaced_run t) he.valid hns
  rw [Prod.mk.injEq, he.regs_eq, h₁, h₂, hi] at hf
  exact hf

/-- A serialised word enters MEM in the mode of the hart. -/
theorem mode_eq (hser : (run pc regs inp t).ex.ctrl.isSerial = true) :
    mode (run pc regs inp t) = (hart mem₀ pc regs inp (t + 2)).mode := by
  obtain ⟨hm, hw⟩ := (serialAlone_run t).ex he.valid hser
  rw [he.hart_eq hm hw, mode, ← he.level.csrs]
  rfl

/-- EX raises what the hart raises. -/
theorem exception_eq (hi : (run pc regs inp t).ex.instr = (hart mem₀ pc regs inp (t + 2)).insn mem₀)
    (hq : (run pc regs inp t).ex.ctrl.irq = false) :
    exTrapInfo (run pc regs inp t) = (hart mem₀ pc regs inp (t + 2)).trap mem₀ none := by
  have hdec := (spaced_run t).ex_decoded he.valid
  have hpc := he.pc_eq
  have hops := he.operands hi
  have hnow := (legalNow_run t).illegal_ex (spaced_run t) he.valid
  have hf := he.level.orderly.unfaulted.ex he.valid
  have hmode := he.mode_eq
  show exTrapInfo (run pc regs inp t) = Isa.exception (hart mem₀ pc regs inp (t + 2)).mode
    ((hart mem₀ pc regs inp (t + 2)).insn mem₀) (hart mem₀ pc regs inp (t + 2)).arch.pc _ _
  cases hd : Decode.isDiv ((hart mem₀ pc regs inp (t + 2)).insn mem₀)
  · obtain ⟨ha, hb⟩ := hops hd
    obtain ⟨id, md, d₁, d₂, hx, -⟩ := hdec
    rw [hx] at hpc hi hq hnow hf hmode
    have hw : id.instr = (hart mem₀ pc regs inp (t + 2)).insn mem₀ := hi
    have hp : id.pc = (hart mem₀ pc regs inp (t + 2)).arch.pc := hpc
    have htrap : exTrapInfo (run pc regs inp t) = Isa.exception (mode (run pc regs inp t)) id.instr id.pc
        (exRs1Fwd (run pc regs inp t)) (exRs2Fwd (run pc regs inp t)) := by
      rw [exTrapInfo, hx]
      exact trapInfo_eq id md d₁ d₂ _ _ hq hf (mode (run pc regs inp t)) hnow
    rw [htrap, ha, hb, hw, hp]
    cases hser : Decode.isSerial ((hart mem₀ pc regs inp (t + 2)).insn mem₀)
    · exact Isa.exception_mode hser _ _
    · rw [hmode (by rw [← hw] at hser; exact hser)]
  · rw [Isa.exception_of_isDiv hd]
    exact hdec.trapInfo_of_div (by rw [hi]; exact hd) hf _ _ _

theorem ready (hi : (run pc regs inp t).ex.instr = (hart mem₀ pc regs inp (t + 2)).insn mem₀)
    (ht : exTrapInfo (run pc regs inp t) = none) :
    Ready mem₀ (hart mem₀ pc regs inp (t + 2)).arch (run pc regs inp t) := by
  have hdec := (spaced_run t).ex_decoded he.valid
  obtain ⟨h₁, h₂⟩ := hdec.rs_fields
  refine ⟨hdec, he.pc_eq, hi, ht, fun hd => he.operands hi hd, fun hd => ?_⟩
  have hl : (run pc regs inp t).div.doneLatched = true := by
    have hd' : Decode.isDiv ((hart mem₀ pc regs inp (t + 2)).insn mem₀) = true := hd
    have hst := he.moves
    rw [(spaced_run t).stallEx_of_ex he.valid] at hst
    simpa [exDivStall, he.valid, hdec.isDiv, hi, hd'] using hst
  rw [he.level.orderly.divides.latched hl, he.level.orderly.path.held.latched hl, he.regs_eq, h₁, h₂, hi]
  rfl

/-- An interrupt bubble enters MEM as the interrupt that the hart takes. -/
theorem interrupted (hq : (run pc regs inp t).ex.ctrl.irq = true) :
    AtMem mem₀ (shown pc regs inp) inp (hart mem₀ pc regs inp (t + 2)) (memIrq pc regs inp (t + 1)) (t + 1)
        (run pc regs inp (t + 1)) ∧ (hart mem₀ pc regs inp (t + 2)).Due (memIrq pc regs inp (t + 1)) := by
  obtain ⟨⟨hm, hw⟩, hpend, hcause⟩ := he.level.orderly.preempts.ex he.valid hq
  have hrest := he.resting
  have hpc := he.pc_eq
  rw [he.hart_eq hm hw] at hrest hpc ⊢
  have hinfo : exTrapInfo (run pc regs inp t) = some ((run pc regs inp t).ex.irqCause, 0) := by
    simp [exTrapInfo, IdEx.trapInfo, he.valid, hq]
  have hmem : (run pc regs inp (t + 1)).mem.trap = true ∧
      (run pc regs inp (t + 1)).mem.cause = Csr.irqCause (run pc regs inp t).csr (inp (t - 2)).ext ∧
      (run pc regs inp (t + 1)).mem.tval = 0 := by
    rw [he.mem, memAdvance, ExMem.ofEx, hinfo]
    exact ⟨rfl, hcause, rfl⟩
  have hsub : t + 1 - 3 = t - 2 := by omega
  have hirq : memIrq pc regs inp (t + 1) = some (inp (t - 2)).ext := by
    rw [memIrq, hmem.1, hmem.2.1, Csr.irqCause_msb, hsub]
    rfl
  have hsame : Csr.irqCause (run pc regs inp t).csr (inp (t - 2)).ext =
      Csr.irqCause (hart mem₀ pc regs inp t).csr (inp (t - 2)).ext := by
    rw [← he.level.csrs]
    rfl
  rw [hirq]
  refine ⟨.trap rfl hmem.1 ?_ (hmem.2.1.trans hsame) hmem.2.2 hrest, fun e hx => ?_⟩
  · rw [he.mem, memAdvance_pc, hpc]
  · rw [Option.some.injEq] at hx
    rw [← hx, ← hpend, ← he.level.csrs]
    rfl

/-- A fetched word enters MEM as the instruction of the hart or its exception. -/
theorem performs (hk : (hart mem₀ pc regs inp (t + 2)).Coherent mem₀)
    (hq : (run pc regs inp t).ex.ctrl.irq = false) :
    AtMem mem₀ (shown pc regs inp) inp (hart mem₀ pc regs inp (t + 2)) (memIrq pc regs inp (t + 1)) (t + 1)
        (run pc regs inp (t + 1)) ∧ (hart mem₀ pc regs inp (t + 2)).Due (memIrq pc regs inp (t + 1)) := by
  have hi := he.instr_eq hk hq
  have hinfo := he.exception_eq hi hq
  cases ht : exTrapInfo (run pc regs inp t) with
  | none =>
      rw [ht] at hinfo
      have hirq : memIrq pc regs inp (t + 1) = none := by
        refine memIrq_of_no_trap ?_
        rw [he.mem, memAdvance_trap, exTrap, ht]
        rfl
      rw [hirq]
      refine ⟨?_, fun e hx => by simp at hx⟩
      cases ho : ordinary ((hart mem₀ pc regs inp (t + 2)).insn mem₀)
      · refine .system hinfo.symm ho ?_ he.resting
        rw [he.mem]
        exact ((he.ready hi ht).entered he.link_eq).1
      · exact .passing hinfo.symm ho (passing_enter (he.ready hi ht) he.resting he.link_eq he.mem
          ((spaced_run t).progress_fresh he.goesOn he.valid he.moves).2)
  | some x =>
      obtain ⟨cause, tval⟩ := x
      rw [ht] at hinfo
      have hmem : (run pc regs inp (t + 1)).mem.trap = true ∧ (run pc regs inp (t + 1)).mem.cause = cause ∧
          (run pc regs inp (t + 1)).mem.tval = tval := by
        rw [he.mem, memAdvance, ExMem.ofEx, ht]
        exact ⟨rfl, rfl, rfl⟩
      have hirq : memIrq pc regs inp (t + 1) = none := by
        rw [memIrq, hmem.2.1, Isa.exception_cause hinfo.symm, Bool.and_false]
        rfl
      rw [hirq]
      refine ⟨.trap hinfo.symm hmem.1 ?_ hmem.2.1 hmem.2.2 he.resting, fun e hx => by simp at hx⟩
      rw [he.mem, memAdvance_pc, he.pc_eq]

end Entering

/-! ## Steps -/

theorem Abreast.step (ha : Abreast mem₀ pc regs inp t) (hs : Isa.Served (shown pc regs inp) mem₀ inp)
    (hk : (hart mem₀ pc regs inp (t + 1)).Coherent mem₀)
    (hc : wbRedirect (run pc regs inp t) = true → exDivStall (run pc regs inp t) = false) :
    Abreast mem₀ pc regs inp (t + 1) where
  level := ha.level_step hs hk hc
  rest hv := by
    cases hw : wbRedirect (run pc regs inp t)
    · have hst : stallMem (run pc regs inp t) = false := by
        cases hst : stallMem (run pc regs inp t)
        · rfl
        · cases hm : (run pc regs inp t).mem.valid
          · rw [stallMem_false_of_invalid hm] at hst
            simp at hst
          · have hv' : (memNext (run pc regs inp t) (inp t)).valid = false := hv
            rw [memNext_of_stall hw hst, memHold_valid, hm] at hv'
            simp at hv'
      exact (ha.leaves hs hk hw hst).2.2
    · exact (ha.drains hs hc hw).2
  mem hv hk' := by
    obtain ⟨hw, ⟨hst, hm, hhold⟩ | ⟨hse, hx, hadv⟩⟩ := memNext_valid hv
    · have hwb : (run pc regs inp (t + 1)).wb.valid = false := wbNext_empty (.inr hst)
      have he : (run pc regs inp (t + 1)).mem = _ := hhold
      obtain ⟨ht, hat⟩ := (ha.mem hm hk).1.holds (spaced_run t) rfl hs hw hm hst
      have hnone : memIrq pc regs inp (t + 1) = none := memIrq_of_no_trap (by rw [he, memHold_trap, ht])
      rw [memIrq_of_no_trap ht] at hat
      rw [hnone, hart_succ_of_idle hwb]
      exact ⟨hat, fun e hx => by simp at hx⟩
    · obtain ⟨hwb, -, hrest⟩ := ha.leaves hs hk hw (stallMem_false_of_stallEx hse)
      have he : Entering mem₀ pc regs inp t := ⟨ha.level, ha.level_step hs hk hc, hx, hse, hw, hadv, hwb, hrest⟩
      cases hq : (run pc regs inp t).ex.ctrl.irq
      · exact he.performs hk' hq
      · exact he.interrupted hq

end QinglongCore.CorePipeline
