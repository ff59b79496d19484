import Mathlib.Algebra.Group.Nat.Defs

/-!
# Encodings (`defs.svh`)

Opcodes, function fields, CSR addresses, trap causes and the field extractors of an instruction word.
-/

namespace QinglongCore

/-- A 32-bit word of the core. -/
abbrev Word := BitVec 32

/-- The literals of the index types `Fin 4` and `Fin 16`. -/
@[instance] theorem neZeroFour : @NeZero Nat Zero.ofOfNat0 4 := ⟨by decide⟩

@[instance] theorem neZeroSixteen : @NeZero Nat Zero.ofOfNat0 16 := ⟨by decide⟩

/-! ## Opcodes -/

def OP_LUI : BitVec 7 := 0b0110111#7
def OP_AUIPC : BitVec 7 := 0b0010111#7
def OP_JAL : BitVec 7 := 0b1101111#7
def OP_JALR : BitVec 7 := 0b1100111#7
def OP_BRANCH : BitVec 7 := 0b1100011#7
def OP_LOAD : BitVec 7 := 0b0000011#7
def OP_STORE : BitVec 7 := 0b0100011#7
def OP_OP_IMM : BitVec 7 := 0b0010011#7
def OP_OP : BitVec 7 := 0b0110011#7
def OP_AMO : BitVec 7 := 0b0101111#7
def OP_MISC_MEM : BitVec 7 := 0b0001111#7
def OP_SYSTEM : BitVec 7 := 0b1110011#7

/-! ## Function fields -/

def F3_ADD_SUB : BitVec 3 := 0b000#3
def F3_SLL : BitVec 3 := 0b001#3
def F3_SLT : BitVec 3 := 0b010#3
def F3_SLTU : BitVec 3 := 0b011#3
def F3_XOR : BitVec 3 := 0b100#3
def F3_SRL_SRA : BitVec 3 := 0b101#3
def F3_OR : BitVec 3 := 0b110#3
def F3_AND : BitVec 3 := 0b111#3

def F3_BEQ : BitVec 3 := 0b000#3
def F3_BNE : BitVec 3 := 0b001#3
def F3_BLT : BitVec 3 := 0b100#3
def F3_BGE : BitVec 3 := 0b101#3
def F3_BLTU : BitVec 3 := 0b110#3
def F3_BGEU : BitVec 3 := 0b111#3

def F3_LB : BitVec 3 := 0b000#3
def F3_LH : BitVec 3 := 0b001#3
def F3_LW : BitVec 3 := 0b010#3
def F3_LBU : BitVec 3 := 0b100#3
def F3_LHU : BitVec 3 := 0b101#3

def F3_SB : BitVec 3 := 0b000#3
def F3_SH : BitVec 3 := 0b001#3
def F3_SW : BitVec 3 := 0b010#3

def F3_AMO_W : BitVec 3 := 0b010#3
def AMO_ADD : BitVec 5 := 0b00000#5
def AMO_SWAP : BitVec 5 := 0b00001#5
def AMO_LR : BitVec 5 := 0b00010#5
def AMO_SC : BitVec 5 := 0b00011#5
def AMO_XOR : BitVec 5 := 0b00100#5
def AMO_OR : BitVec 5 := 0b01000#5
def AMO_AND : BitVec 5 := 0b01100#5
def AMO_MIN : BitVec 5 := 0b10000#5
def AMO_MAX : BitVec 5 := 0b10100#5
def AMO_MINU : BitVec 5 := 0b11000#5
def AMO_MAXU : BitVec 5 := 0b11100#5

def F7_MULDIV : BitVec 7 := 0b0000001#7
def F3_MUL : BitVec 3 := 0b000#3
def F3_MULH : BitVec 3 := 0b001#3
def F3_MULHSU : BitVec 3 := 0b010#3
def F3_MULHU : BitVec 3 := 0b011#3
def F3_DIV : BitVec 3 := 0b100#3
def F3_DIVU : BitVec 3 := 0b101#3
def F3_REM : BitVec 3 := 0b110#3
def F3_REMU : BitVec 3 := 0b111#3

def F3_PRIV : BitVec 3 := 0b000#3
def F3_CSRRW : BitVec 3 := 0b001#3
def F3_CSRRS : BitVec 3 := 0b010#3
def F3_CSRRC : BitVec 3 := 0b011#3
def F3_CSRRWI : BitVec 3 := 0b101#3
def F3_CSRRSI : BitVec 3 := 0b110#3
def F3_CSRRCI : BitVec 3 := 0b111#3

/-! ## Privilege levels -/

def PRV_U : BitVec 2 := 0b00#2
def PRV_S : BitVec 2 := 0b01#2
def PRV_M : BitVec 2 := 0b11#2

/-! ## CSR addresses -/

def CSR_MSTATUS : BitVec 12 := 0x300#12
def CSR_MISA : BitVec 12 := 0x301#12
def CSR_MEDELEG : BitVec 12 := 0x302#12
def CSR_MIDELEG : BitVec 12 := 0x303#12
def CSR_MIE : BitVec 12 := 0x304#12
def CSR_MTVEC : BitVec 12 := 0x305#12
def CSR_MSCRATCH : BitVec 12 := 0x340#12
def CSR_MEPC : BitVec 12 := 0x341#12
def CSR_MCAUSE : BitVec 12 := 0x342#12
def CSR_MTVAL : BitVec 12 := 0x343#12
def CSR_MIP : BitVec 12 := 0x344#12
def CSR_MCYCLE : BitVec 12 := 0xB00#12
def CSR_MINSTRET : BitVec 12 := 0xB02#12
def CSR_MCYCLEH : BitVec 12 := 0xB80#12
def CSR_MINSTRETH : BitVec 12 := 0xB82#12
def CSR_CYCLE : BitVec 12 := 0xC00#12
def CSR_TIME : BitVec 12 := 0xC01#12
def CSR_INSTRET : BitVec 12 := 0xC02#12
def CSR_CYCLEH : BitVec 12 := 0xC80#12
def CSR_TIMEH : BitVec 12 := 0xC81#12
def CSR_INSTRETH : BitVec 12 := 0xC82#12
def CSR_MHARTID : BitVec 12 := 0xF14#12
def CSR_MVENDORID : BitVec 12 := 0xF11#12
def CSR_MARCHID : BitVec 12 := 0xF12#12
def CSR_MIMPID : BitVec 12 := 0xF13#12
def CSR_PMPCFG0 : BitVec 12 := 0x3A0#12
def CSR_PMPADDR0 : BitVec 12 := 0x3B0#12
def CSR_SSTATUS : BitVec 12 := 0x100#12
def CSR_SIE : BitVec 12 := 0x104#12
def CSR_STVEC : BitVec 12 := 0x105#12
def CSR_SCOUNTEREN : BitVec 12 := 0x106#12
def CSR_SSCRATCH : BitVec 12 := 0x140#12
def CSR_SEPC : BitVec 12 := 0x141#12
def CSR_SCAUSE : BitVec 12 := 0x142#12
def CSR_STVAL : BitVec 12 := 0x143#12
def CSR_SIP : BitVec 12 := 0x144#12
def CSR_SATP : BitVec 12 := 0x180#12

/-! ## Trap causes -/

def CAUSE_INSN_ADDR_MISALIGNED : Word := 0#32
def CAUSE_INSN_ACCESS_FAULT : Word := 1#32
def CAUSE_ILLEGAL_INSN : Word := 2#32
def CAUSE_BREAKPOINT : Word := 3#32
def CAUSE_LOAD_ADDR_MISALIGNED : Word := 4#32
def CAUSE_LOAD_ACCESS_FAULT : Word := 5#32
def CAUSE_STORE_ADDR_MISALIGNED : Word := 6#32
def CAUSE_STORE_ACCESS_FAULT : Word := 7#32
def CAUSE_ECALL_FROM_U : Word := 8#32
def CAUSE_ECALL_FROM_S : Word := 9#32
def CAUSE_ECALL_FROM_M : Word := 11#32
def CAUSE_INSN_PAGE_FAULT : Word := 12#32
def CAUSE_LOAD_PAGE_FAULT : Word := 13#32
def CAUSE_STORE_PAGE_FAULT : Word := 15#32

def CAUSE_IRQ_SSI : Word := 0x80000001#32
def CAUSE_IRQ_MSI : Word := 0x80000003#32
def CAUSE_IRQ_STI : Word := 0x80000005#32
def CAUSE_IRQ_MTI : Word := 0x80000007#32
def CAUSE_IRQ_SEI : Word := 0x80000009#32
def CAUSE_IRQ_MEI : Word := 0x8000000B#32

/-! ## Bit positions of mip, mie and mstatus -/

def MIP_SSI_BIT : Nat := 1
def MIP_MSI_BIT : Nat := 3
def MIP_STI_BIT : Nat := 5
def MIP_MTI_BIT : Nat := 7
def MIP_SEI_BIT : Nat := 9
def MIP_MEI_BIT : Nat := 11

def MSTATUS_SIE_BIT : Nat := 1
def MSTATUS_MIE_BIT : Nat := 3
def MSTATUS_SPIE_BIT : Nat := 5
def MSTATUS_MPIE_BIT : Nat := 7
def MSTATUS_SPP_BIT : Nat := 8
def MSTATUS_MPP_LO : Nat := 11
def MSTATUS_MPP_HI : Nat := 12
def MSTATUS_MPRV_BIT : Nat := 17
def MSTATUS_SUM_BIT : Nat := 18
def MSTATUS_MXR_BIT : Nat := 19
def MSTATUS_TVM_BIT : Nat := 20
def MSTATUS_TSR_BIT : Nat := 22

def SSTATUS_MASK : Word := 0x000C0122#32

/-- The default of the parameter `RESET_PC`. -/
def RESET_PC : Word := 0x80000000#32

/-! ## Fields of an instruction word -/

def opcode (w : Word) : BitVec 7 := w.extractLsb' 0 7
def funct3 (w : Word) : BitVec 3 := w.extractLsb' 12 3
def funct7 (w : Word) : BitVec 7 := w.extractLsb' 25 7
def rdField (w : Word) : BitVec 5 := w.extractLsb' 7 5
def rs1Field (w : Word) : BitVec 5 := w.extractLsb' 15 5
def rs2Field (w : Word) : BitVec 5 := w.extractLsb' 20 5
def csrField (w : Word) : BitVec 12 := w.extractLsb' 20 12
def amoFunct5 (w : Word) : BitVec 5 := w.extractLsb' 27 5

/-- `w` with bit `n` replaced by `b`, a nonblocking assignment to one bit. -/
def setBit (w : Word) (n : Nat) (b : Bool) : Word :=
  (w &&& ~~~(1#32 <<< n)) ||| (BitVec.setWidth 32 (BitVec.ofBool b) <<< n)

/-- `{w[31:2], 2'b00}`. -/
def alignWord (w : Word) : Word := w &&& 0xFFFFFFFC#32

/-- The bytes of `mask` taken from `new`. -/
def mergeBytes (old new : Word) (mask : BitVec 4) : Word :=
  let pick (b : Nat) : BitVec 8 := if mask.getLsbD b then new.extractLsb' (8 * b) 8 else old.extractLsb' (8 * b) 8
  pick 3 ++ pick 2 ++ pick 1 ++ pick 0

end QinglongCore
