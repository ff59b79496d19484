import QinglongCore.Pipeline.Lemmas.Commands
import QinglongCore.Pipeline.Lemmas.Orderly

/-!
# The pipeline abreast of a hart

WB holds what the hart does next, and MEM what it does after that. A step of the pipeline that commits is a step of
the hart; every other step leaves the hart where it is.
-/

namespace QinglongCore.CorePipeline

open Isa (Access Arch Hart Moment Shown accesses ordinary refetches)

/-! ## The hart beside a run -/

section
variable (mem₀ : Word → Word) (pc : Word) (regs : RegFile) (inp : Nat → In)

/-- What the hart sees in cycle `t`. An interrupt in WB was taken up four cycles earlier. -/
def moment (t : Nat) : Moment where
  ext := (inp t).ext
  mcycle := (run pc regs inp t).csr.mcycle
  interrupt := if irqTrapWb (run pc regs inp t) then some (inp (t - 4)).ext else none

/-- The hart in front of the instruction in WB: it makes a step whenever WB commits. -/
def hart : Nat → Hart
  | 0 => .start pc regs
  | t + 1 => if (run pc regs inp t).wb.valid then (hart t).next mem₀ (moment pc regs inp t) else hart t

/-- The interrupt that MEM carries. -/
def memIrq (t : Nat) : Option Ext :=
  if (run pc regs inp t).mem.trap && (run pc regs inp t).mem.cause.msb then some (inp (t - 3)).ext else none

/-- What the instruction in WB has done to the memory and the reservation. -/
def left (t : Nat) : Arch :=
  if (run pc regs inp t).wb.valid && !(run pc regs inp t).wb.trap then
    (hart mem₀ pc regs inp t).arch.exec mem₀ ((hart mem₀ pc regs inp t).insn mem₀)
  else (hart mem₀ pc regs inp t).arch

end

/-- WB holds the instruction of the hart or the trap in its place. -/
inductive AtWb (mem₀ : Word → Word) (h : Hart) (irq : Option Ext) (x : MemWb) : Prop
  | trap {cause tval : Word} (ht : h.trap mem₀ irq = some (cause, tval)) (hx : Raises x h.arch.pc cause tval)
  | insn (ht : h.trap mem₀ irq = none) (hx : Committing mem₀ h.arch x)

/-- MEM holds the instruction of the hart or the trap in its place. -/
inductive AtMem (mem₀ : Word → Word) (c : Nat → Shown) (inp : Nat → In) (h : Hart) (irq : Option Ext) (t : Nat)
    (s : State) : Prop
  | trap {cause tval : Word} (ht : h.trap mem₀ irq = some (cause, tval)) (htrap : s.mem.trap = true)
      (hpc : s.mem.pc = h.arch.pc) (hcause : s.mem.cause = cause) (htval : s.mem.tval = tval)
      (hr : Resting c inp h.arch t s)
  | passing (ht : h.trap mem₀ irq = none) (ho : ordinary (h.insn mem₀) = true) (hp : Passing mem₀ c inp h.arch t s)
  | system (ht : h.trap mem₀ irq = none) (ho : ordinary (h.insn mem₀) = false)
      (hm : Entered mem₀ h.arch (h.insn mem₀) s.mem) (hr : Resting c inp h.arch t s)

/-- The registers of the pipeline are those of the hart, and WB holds what it does next. -/
structure Level (mem₀ : Word → Word) (pc : Word) (regs : RegFile) (inp : Nat → In) (t : Nat) : Prop where
  orderly : Orderly pc regs inp t
  current : Current mem₀ (shown pc regs inp) inp (hart mem₀ pc regs inp t).seen t (run pc regs inp t)
  registers : (run pc regs inp t).regs = (hart mem₀ pc regs inp t).arch.regs
  csrs : (hart mem₀ pc regs inp t).csrNow (run pc regs inp t).csr.mcycle = (run pc regs inp t).csr
  head : headPc (run pc regs inp t) = (hart mem₀ pc regs inp t).arch.pc
  wb : (run pc regs inp t).wb.valid = true →
    AtWb mem₀ (hart mem₀ pc regs inp t) (moment pc regs inp t).interrupt (run pc regs inp t).wb ∧
      (hart mem₀ pc regs inp t).Due (moment pc regs inp t).interrupt ∧
      accesses (shown pc regs inp) t = (left mem₀ pc regs inp t).accesses

/-- The memory is that of the hart too, and MEM holds what the hart does behind WB. -/
structure Abreast (mem₀ : Word → Word) (pc : Word) (regs : RegFile) (inp : Nat → In) (t : Nat) : Prop where
  level : Level mem₀ pc regs inp t
  rest : (run pc regs inp t).mem.valid = false →
    Resting (shown pc regs inp) inp (left mem₀ pc regs inp t) t (run pc regs inp t)
  mem : (run pc regs inp t).mem.valid = true → (hart mem₀ pc regs inp (t + 1)).Coherent mem₀ →
    AtMem mem₀ (shown pc regs inp) inp (hart mem₀ pc regs inp (t + 1)) (memIrq pc regs inp t) t (run pc regs inp t) ∧
      (hart mem₀ pc regs inp (t + 1)).Due (memIrq pc regs inp t)

variable {mem₀ : Word → Word} {pc : Word} {regs : RegFile} {inp : Nat → In} {c : Nat → Shown} {t : Nat} {s : State}
  {A B : Arch} {h : Hart} {irq : Option Ext}

/-! ## Between two accesses -/

theorem Resting.of_eq (hr : Resting c inp A t s) (ha : B.accesses = A.accesses) (hl : B.link = A.link) :
    Resting c inp B t s :=
  ⟨hr.accesses.trans ha.symm, hr.requests, hr.link.trans hl.symm⟩

/-- An instruction in MEM that makes no access leaves the bus and the reservation alone. -/
theorem Resting.quiet (hr : Resting c inp A t s) (hc : c t = shows s (inp t)) (hs : Isa.Served c mem₀ inp)
    (hw : wbRedirect s = false) (hb : s.mem.hasBusOp = false) : Resting c inp A (t + 1) (step s (inp t)) := by
  have hx : (c t).access = none := by simp [hc, shows, dmemAccept, dmemReqValid, memHasBusOp, hb]
  have hv : (inp t).dmemRspValid = false := hs.data.quiet hr.requests
  refine ⟨(Isa.accesses_quiet hx).trans hr.accesses, (InOrder.outstanding_idle (by simp [hx]) hv).trans hr.requests, ?_⟩
  have hresv : (step s (inp t)).resv = s.resv := by
    show resvNext s (inp t) = s.resv
    simp only [ExMem.hasBusOp, Bool.or_eq_false_iff] at hb
    simp [resvNext, hw, hb]
  rw [hresv, hr.link]

/-- A redirect loses the reservation. -/
theorem Resting.redirected (hr : Resting c inp A t s) (hc : c t = shows s (inp t)) (hs : Isa.Served c mem₀ inp)
    (hw : wbRedirect s = true) (hm : s.mem.valid = false) (ha : B.accesses = A.accesses) (hl : B.link = none) :
    Resting c inp B (t + 1) (step s (inp t)) := by
  have hx : (c t).access = none := by simp [hc, shows, dmemAccept, dmemReqValid, hm]
  have hv : (inp t).dmemRspValid = false := hs.data.quiet hr.requests
  refine ⟨((Isa.accesses_quiet hx).trans hr.accesses).trans ha.symm,
    (InOrder.outstanding_idle (by simp [hx]) hv).trans hr.requests, ?_⟩
  rw [hl]
  show Isa.linkOf (resvNext s (inp t)) = none
  simp [resvNext, hw, Isa.linkOf]

/-! ## Steps of WB -/

theorem hart_succ_of_commit (hv : (run pc regs inp t).wb.valid = true) :
    hart mem₀ pc regs inp (t + 1) = (hart mem₀ pc regs inp t).next mem₀ (moment pc regs inp t) := if_pos hv

theorem hart_succ_of_idle (hv : (run pc regs inp t).wb.valid = false) :
    hart mem₀ pc regs inp (t + 1) = hart mem₀ pc regs inp t := if_neg (by simp [hv])

theorem left_of_no_wb (hv : (run pc regs inp t).wb.valid = false) :
    left mem₀ pc regs inp t = (hart mem₀ pc regs inp t).arch := by simp [left, hv]

namespace Level

variable (hl : Level mem₀ pc regs inp t)

include hl

/-- What WB commands is the next step of the hart. -/
theorem commands (hv : (run pc regs inp t).wb.valid = true) :
    Commands mem₀ (hart mem₀ pc regs inp t) (moment pc regs inp t) (run pc regs inp t) := by
  cases (hl.wb hv).1 with
  | trap ht hx => exact hx.commands hv hl.csrs hl.registers ht
  | insn ht hx => exact hx.commands hv hl.csrs hl.registers ht

theorem regs_next : (run pc regs inp (t + 1)).regs = (hart mem₀ pc regs inp (t + 1)).arch.regs := by
  cases hv : (run pc regs inp t).wb.valid
  · rw [hart_succ_of_idle hv, ← hl.registers]
    have hw : rfWen (run pc regs inp t) = false := by simp [rfWen, hv]
    show (run pc regs inp t).regs.write (rfWen (run pc regs inp t)) _ _ = _
    rw [hw, RegFile.write_false]
  · rw [hart_succ_of_commit hv]
    exact (hl.commands hv).regs

theorem csr_next : (hart mem₀ pc regs inp (t + 1)).csrNow (run pc regs inp (t + 1)).csr.mcycle =
    (run pc regs inp (t + 1)).csr := by
  cases hv : (run pc regs inp t).wb.valid
  · have hc : (run pc regs inp (t + 1)).csr =
        Csr.tick (run pc regs inp t).csr (inp t).ext (csrIn (run pc regs inp t)) := csrStep_of_idle hv _
    have hretire : (csrIn (run pc regs inp t)).retire = false := by simp [csrIn, retireWb, hv]
    rw [hart_succ_of_idle hv, hc, Csr.tick, hretire, ← hl.csrs]
    rfl
  · have hc : (run pc regs inp (t + 1)).csr =
        ((hart mem₀ pc regs inp t).next mem₀ (moment pc regs inp t)).csr := (hl.commands hv).csr
    rw [hart_succ_of_commit hv, hc]
    rfl

/-- Without a redirect WB holds no trap, and the hart goes on to the successor. -/
theorem onward (hv : (run pc regs inp t).wb.valid = true) (hw : wbRedirect (run pc regs inp t) = false) :
    (run pc regs inp t).wb.trap = false ∧ Committing mem₀ (hart mem₀ pc regs inp t).arch (run pc regs inp t).wb ∧
      (((hart mem₀ pc regs inp t).trap mem₀ (moment pc regs inp t).interrupt).isSome ||
        refetches ((hart mem₀ pc regs inp t).insn mem₀)) = false := by
  have hr := (hl.commands hv).redirect
  rw [hw] at hr
  cases (hl.wb hv).1 with
  | trap ht hx =>
      rw [ht] at hr
      simp at hr
  | insn ht hx => exact ⟨hx.trap, hx, hr.symm⟩

/-- The pc behind WB. -/
theorem behind (hw : wbRedirect (run pc regs inp t) = false) :
    behindPc (run pc regs inp t) = (hart mem₀ pc regs inp (t + 1)).arch.pc := by
  cases hv : (run pc regs inp t).wb.valid
  · rw [← headPc_of_no_wb hv, hart_succ_of_idle hv, hl.head]
  · obtain ⟨ht, hx, hr⟩ := hl.onward hv hw
    rw [hart_succ_of_commit hv, (Hart.next_onward hr).2.2.1, hl.orderly.path.chained.wb hv ht,
      hl.orderly.path.held.wb hv, hx.instr, hx.pc, hl.registers]
    rfl

theorem left_accesses : (left mem₀ pc regs inp t).accesses = (hart mem₀ pc regs inp (t + 1)).arch.accesses := by
  cases hv : (run pc regs inp t).wb.valid
  · rw [left_of_no_wb hv, hart_succ_of_idle hv]
  · rw [hart_succ_of_commit hv, left, hv, (hl.commands hv).trap]
    cases hr : ((hart mem₀ pc regs inp t).trap mem₀ (moment pc regs inp t).interrupt).isSome ||
        refetches ((hart mem₀ pc regs inp t).insn mem₀)
    · rw [(Hart.next_onward hr).1]
      rw [Bool.or_eq_false_iff] at hr
      rw [hr.1]
      rfl
    · rw [(Hart.next_of_refetch hr).1]
      cases ht : ((hart mem₀ pc regs inp t).trap mem₀ (moment pc regs inp t).interrupt).isSome
      · rw [ht, Bool.false_or] at hr
        have ho : ordinary ((hart mem₀ pc regs inp t).insn mem₀) = false := by
          cases ho : ordinary ((hart mem₀ pc regs inp t).insn mem₀)
          · rfl
          · obtain ⟨h₁, h₂, h₃, h₄, h₅⟩ := Isa.commands_of_ordinary ho
            simp [refetches, h₁, h₂, h₃, h₄, h₅] at hr
        exact (Isa.exec_of_not_ordinary ho).2
      · rfl

theorem left_link (hw : wbRedirect (run pc regs inp t) = false) :
    (left mem₀ pc regs inp t).link = (hart mem₀ pc regs inp (t + 1)).arch.link := by
  cases hv : (run pc regs inp t).wb.valid
  · rw [left_of_no_wb hv, hart_succ_of_idle hv]
  · obtain ⟨ht, hx, hr⟩ := hl.onward hv hw
    rw [hart_succ_of_commit hv, (Hart.next_onward hr).2.1, left, hv, ht]
    rfl

theorem seen_next (hw : wbRedirect (run pc regs inp t) = false) :
    (hart mem₀ pc regs inp (t + 1)).seen = (hart mem₀ pc regs inp t).seen := by
  cases hv : (run pc regs inp t).wb.valid
  · rw [hart_succ_of_idle hv]
  · rw [hart_succ_of_commit hv, (Hart.next_onward (hl.onward hv hw).2.2).2.2.2]

/-- A redirect goes on with the hart. -/
theorem redirected (hw : wbRedirect (run pc regs inp t) = true) :
    wbRedirectPc (run pc regs inp t) = (hart mem₀ pc regs inp (t + 1)).arch.pc ∧
      (hart mem₀ pc regs inp (t + 1)).arch.link = none ∧
      (hart mem₀ pc regs inp (t + 1)).seen = (hart mem₀ pc regs inp (t + 1)).arch.accesses := by
  have hv := wb_valid_of_wbRedirect hw
  have hc := hl.commands hv
  have hr := hc.redirect
  rw [hw] at hr
  obtain ⟨ha, hlink, hseen⟩ := Hart.next_of_refetch hr.symm
  rw [hart_succ_of_commit hv, ha]
  exact ⟨hc.target hw, hlink, hseen⟩

end Level

end QinglongCore.CorePipeline
