import QinglongCore.Rtl.Defs

/-!
# Encodings of the instruction set

RV32I, M, A on words, Zicsr, Zifencei and the privileged instructions, by their fixed fields. Fields of FENCE and
FENCE.I that are reserved for finer fences are ignored, as are `aq` and `rl`.
-/

namespace QinglongCore.Isa

inductive Insn
  | lui | auipc | jal | jalr
  | beq | bne | blt | bge | bltu | bgeu
  | lb | lh | lw | lbu | lhu | sb | sh | sw
  | addi | slti | sltiu | xori | ori | andi | slli | srli | srai
  | add | sub | sll | slt | sltu | xor | srl | sra | or | and
  | fence | fenceI | ecall | ebreak
  | mul | mulh | mulhsu | mulhu | div | divu | rem | remu
  | lrW | scW | amoswapW | amoaddW | amoxorW | amoandW | amoorW | amominW | amomaxW | amominuW | amomaxuW
  | csrrw | csrrs | csrrc | csrrwi | csrrsi | csrrci
  | mret | sret | wfi | sfenceVma
  deriving DecidableEq

/-- The fixed fields of an encoding. -/
inductive Format
  | op (o : BitVec 7)
  | f3 (o : BitVec 7) (f : BitVec 3)
  | f7 (o : BitVec 7) (f : BitVec 3) (g : BitVec 7)
  | f7Rd (o : BitVec 7) (f : BitVec 3) (g : BitVec 7) (rd : BitVec 5)
  | f5 (o : BitVec 7) (f : BitVec 3) (g : BitVec 5)
  | f5Rs2 (o : BitVec 7) (f : BitVec 3) (g rs2 : BitVec 5)
  | f12 (o : BitVec 7) (f : BitVec 3) (g : BitVec 12) (rs1 rd : BitVec 5)

def Format.Matches (w : Word) : Format → Prop
  | op o => opcode w = o
  | f3 o f => opcode w = o ∧ funct3 w = f
  | f7 o f g => opcode w = o ∧ funct3 w = f ∧ funct7 w = g
  | f7Rd o f g rd => opcode w = o ∧ funct3 w = f ∧ funct7 w = g ∧ rdField w = rd
  | f5 o f g => opcode w = o ∧ funct3 w = f ∧ amoFunct5 w = g
  | f5Rs2 o f g rs2 => opcode w = o ∧ funct3 w = f ∧ amoFunct5 w = g ∧ rs2Field w = rs2
  | f12 o f g rs1 rd => opcode w = o ∧ funct3 w = f ∧ csrField w = g ∧ rs1Field w = rs1 ∧ rdField w = rd

def Insn.format : Insn → Format
  | lui => .op 0b0110111#7
  | auipc => .op 0b0010111#7
  | jal => .op 0b1101111#7
  | jalr => .f3 0b1100111#7 0b000#3
  | beq => .f3 0b1100011#7 0b000#3
  | bne => .f3 0b1100011#7 0b001#3
  | blt => .f3 0b1100011#7 0b100#3
  | bge => .f3 0b1100011#7 0b101#3
  | bltu => .f3 0b1100011#7 0b110#3
  | bgeu => .f3 0b1100011#7 0b111#3
  | lb => .f3 0b0000011#7 0b000#3
  | lh => .f3 0b0000011#7 0b001#3
  | lw => .f3 0b0000011#7 0b010#3
  | lbu => .f3 0b0000011#7 0b100#3
  | lhu => .f3 0b0000011#7 0b101#3
  | sb => .f3 0b0100011#7 0b000#3
  | sh => .f3 0b0100011#7 0b001#3
  | sw => .f3 0b0100011#7 0b010#3
  | addi => .f3 0b0010011#7 0b000#3
  | slti => .f3 0b0010011#7 0b010#3
  | sltiu => .f3 0b0010011#7 0b011#3
  | xori => .f3 0b0010011#7 0b100#3
  | ori => .f3 0b0010011#7 0b110#3
  | andi => .f3 0b0010011#7 0b111#3
  | slli => .f7 0b0010011#7 0b001#3 0b0000000#7
  | srli => .f7 0b0010011#7 0b101#3 0b0000000#7
  | srai => .f7 0b0010011#7 0b101#3 0b0100000#7
  | add => .f7 0b0110011#7 0b000#3 0b0000000#7
  | sub => .f7 0b0110011#7 0b000#3 0b0100000#7
  | sll => .f7 0b0110011#7 0b001#3 0b0000000#7
  | slt => .f7 0b0110011#7 0b010#3 0b0000000#7
  | sltu => .f7 0b0110011#7 0b011#3 0b0000000#7
  | xor => .f7 0b0110011#7 0b100#3 0b0000000#7
  | srl => .f7 0b0110011#7 0b101#3 0b0000000#7
  | sra => .f7 0b0110011#7 0b101#3 0b0100000#7
  | or => .f7 0b0110011#7 0b110#3 0b0000000#7
  | and => .f7 0b0110011#7 0b111#3 0b0000000#7
  | fence => .f3 0b0001111#7 0b000#3
  | fenceI => .f3 0b0001111#7 0b001#3
  | ecall => .f12 0b1110011#7 0b000#3 0x000#12 0#5 0#5
  | ebreak => .f12 0b1110011#7 0b000#3 0x001#12 0#5 0#5
  | mul => .f7 0b0110011#7 0b000#3 0b0000001#7
  | mulh => .f7 0b0110011#7 0b001#3 0b0000001#7
  | mulhsu => .f7 0b0110011#7 0b010#3 0b0000001#7
  | mulhu => .f7 0b0110011#7 0b011#3 0b0000001#7
  | div => .f7 0b0110011#7 0b100#3 0b0000001#7
  | divu => .f7 0b0110011#7 0b101#3 0b0000001#7
  | rem => .f7 0b0110011#7 0b110#3 0b0000001#7
  | remu => .f7 0b0110011#7 0b111#3 0b0000001#7
  | lrW => .f5Rs2 0b0101111#7 0b010#3 0b00010#5 0#5
  | scW => .f5 0b0101111#7 0b010#3 0b00011#5
  | amoswapW => .f5 0b0101111#7 0b010#3 0b00001#5
  | amoaddW => .f5 0b0101111#7 0b010#3 0b00000#5
  | amoxorW => .f5 0b0101111#7 0b010#3 0b00100#5
  | amoandW => .f5 0b0101111#7 0b010#3 0b01100#5
  | amoorW => .f5 0b0101111#7 0b010#3 0b01000#5
  | amominW => .f5 0b0101111#7 0b010#3 0b10000#5
  | amomaxW => .f5 0b0101111#7 0b010#3 0b10100#5
  | amominuW => .f5 0b0101111#7 0b010#3 0b11000#5
  | amomaxuW => .f5 0b0101111#7 0b010#3 0b11100#5
  | csrrw => .f3 0b1110011#7 0b001#3
  | csrrs => .f3 0b1110011#7 0b010#3
  | csrrc => .f3 0b1110011#7 0b011#3
  | csrrwi => .f3 0b1110011#7 0b101#3
  | csrrsi => .f3 0b1110011#7 0b110#3
  | csrrci => .f3 0b1110011#7 0b111#3
  | mret => .f12 0b1110011#7 0b000#3 0x302#12 0#5 0#5
  | sret => .f12 0b1110011#7 0b000#3 0x102#12 0#5 0#5
  | wfi => .f12 0b1110011#7 0b000#3 0x105#12 0#5 0#5
  | sfenceVma => .f7Rd 0b1110011#7 0b000#3 0b0001001#7 0#5

/-- The word is an encoding of the instruction. -/
def Insn.Encodes (i : Insn) (w : Word) : Prop := i.format.Matches w

/-- The word is an encoding of some instruction. -/
def Valid (w : Word) : Prop := ∃ i : Insn, i.Encodes w

end QinglongCore.Isa
