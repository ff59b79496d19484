import Mathlib.Data.List.Infix
import QinglongCore.Isa.Environment

/-!
# Harts with CSRs

The machine of the instruction set with its CSR file: one instruction a step, or an exception or an interrupt in its
place. Accesses to memory do not fault.
-/

namespace QinglongCore.Isa

/-! ## Exceptions -/

def ecallCause (priv : BitVec 2) : Word :=
  if priv = PRV_U then CAUSE_ECALL_FROM_U else if priv = PRV_S then CAUSE_ECALL_FROM_S else CAUSE_ECALL_FROM_M

/-- The cause and the trap value of the exception that the word `w` raises. -/
def exception (m : Decode.Mode) (w pc a b : Word) : Option (Word × Word) :=
  if Decode.illegal w m then some (CAUSE_ILLEGAL_INSN, w)
  else if Decode.isEcall w then some (ecallCause m.priv, 0)
  else if Decode.isEbreak w then some (CAUSE_BREAKPOINT, 0)
  else if strays w pc a b then some (CAUSE_INSN_ADDR_MISALIGNED, nextPc w pc a b)
  else if straddles w a then
    some (if Decode.isLoad w || Decode.isLr w then CAUSE_LOAD_ADDR_MISALIGNED else CAUSE_STORE_ADDR_MISALIGNED,
      lsAddr w a)
  else none

/-- The address of the handler: behind a vectored base each interrupt has its own. -/
def trapVector (tvec cause : Word) : Word :=
  alignWord tvec + if tvec.getLsbD 0 && cause.msb then cause <<< 2 else 0

def isFenceI (w : Word) : Bool := Decode.isMisc w && funct3 w == 0b001#3

/-- Behind the instruction everything is fetched afresh, and the reservation is lost. -/
def refetches (w : Word) : Bool :=
  Decode.isMret w || Decode.isSret w || isFenceI w || Decode.isSfence w ||
    (Decode.isCsr w && csrField w == CSR_SATP)

/-! ## Steps -/

/-- `seen` are the accesses that every fetched word has seen. -/
structure Hart where
  arch : Arch
  csr : Csr.State
  seen : List Access

/-- What comes from outside: the lines and the count of cycles that the instruction sees, and the lines that have
interrupted the hart in front of it. -/
structure Moment where
  ext : Ext
  mcycle : BitVec 64
  interrupt : Option Ext

namespace Hart

variable (mem₀ : Word → Word) (h : Hart) (m : Moment)

def insn : Word := h.arch.insn mem₀

def mode : Decode.Mode := ⟨h.csr.privMode, Csr.mstatusTvm h.csr, Csr.mstatusTsr h.csr⟩

/-- The trap that is taken in place of the instruction. -/
def trap (interrupt : Option Ext) : Option (Word × Word) :=
  match interrupt with
  | some e => some (Csr.irqCause h.csr e, 0)
  | none => exception h.mode (h.insn mem₀) h.arch.pc (h.arch.rs1 (h.insn mem₀)) (h.arch.rs2 (h.insn mem₀))

/-- The hart takes the interrupt. -/
def Due (interrupt : Option Ext) : Prop := ∀ e, interrupt = some e → Csr.irqPending h.csr e = true

/-- Memory has held the word at the pc since all fetches have seen it. -/
def Coherent : Prop := ∀ l, h.seen <+: l → l <+: h.arch.accesses → contents mem₀ l h.arch.pc = h.insn mem₀

instance : Decidable (h.Coherent mem₀) :=
  decidable_of_iff (∀ l ∈ h.arch.accesses.inits, h.seen <+: l → contents mem₀ l h.arch.pc = h.insn mem₀)
    ⟨fun hl l h₁ h₂ => hl l ((List.mem_inits _ _).mpr h₂) h₁,
      fun hl l h₂ h₁ => hl l h₁ ((List.mem_inits _ _).mp h₂)⟩

/-- The operand of a CSR instruction. -/
def csrOperand (w : Word) : Word := if (funct3 w).getLsbD 2 then (rs1Field w).setWidth 32 else h.arch.rs1 w

/-- What the CSR file is told. -/
def command : Csr.In :=
  match h.trap mem₀ m.interrupt with
  | some (cause, tval) =>
      { csrEn := false, csrOp := 0, csrAddr := 0, csrRs1OrImm := 0, csrWdata := 0
        trapTake := true, trapPc := h.arch.pc, trapCause := cause, trapTval := tval
        mret := false, sret := false, retire := false }
  | none =>
      let w := h.insn mem₀
      { csrEn := Decode.isCsr w, csrOp := funct3 w, csrAddr := csrField w, csrRs1OrImm := rs1Field w
        csrWdata := h.csrOperand w
        trapTake := false, trapPc := 0, trapCause := 0, trapTval := 0
        mret := Decode.isMret w, sret := Decode.isSret w, retire := true }

/-- The CSRs that the instruction finds. -/
def csrNow (mcycle : BitVec 64) : Csr.State := { h.csr with mcycle := mcycle }

/-- The state that an instruction leaves behind. -/
def performed (w : Word) : Arch :=
  if Decode.isMret w then { h.arch with pc := h.csr.mepc, link := none }
  else if Decode.isSret w then { h.arch with pc := h.csr.sepc, link := none }
  else if Decode.isCsr w then
    { h.arch with
      pc := h.arch.pc + 4
      regs := h.arch.regs.write (Decode.writesRd w) (rdField w)
        ((Csr.readMux (h.csrNow m.mcycle) m.ext (csrField w)).getD 0)
      link := if csrField w = CSR_SATP then none else h.arch.link }
  else if isFenceI w || Decode.isSfence w then { h.arch with pc := h.arch.pc + 4, link := none }
  else h.arch.exec mem₀ w

def next : Hart where
  arch :=
    match h.trap mem₀ m.interrupt with
    | some (cause, _) =>
        { h.arch with
          pc := trapVector (if Csr.trapToS h.csr (h.command mem₀ m) then h.csr.stvec else h.csr.mtvec) cause
          link := none }
    | none => h.performed mem₀ m (h.insn mem₀)
  csr := Csr.step (h.csrNow m.mcycle) m.ext (h.command mem₀ m)
  seen := if (h.trap mem₀ m.interrupt).isSome || refetches (h.insn mem₀) then h.arch.accesses else h.seen

/-- The hart out of reset. -/
def start (pc : Word) (regs : RegFile) : Hart := ⟨⟨pc, regs, none, []⟩, Csr.reset, []⟩

end Hart

end QinglongCore.Isa
