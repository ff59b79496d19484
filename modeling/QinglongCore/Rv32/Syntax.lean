import Mathlib.Tactic.Common

/-!
# RV32IMA

The unprivileged instructions of RV32IMA as syntax trees, and as words of memory.
-/

namespace Rv32

abbrev Reg := BitVec 5

/-! ## Instructions -/

inductive BranchOp
  | beq | bne | blt | bge | bltu | bgeu
  deriving DecidableEq

inductive LoadOp
  | lb | lh | lw | lbu | lhu
  deriving DecidableEq

inductive StoreOp
  | sb | sh | sw
  deriving DecidableEq

inductive ImmOp
  | addi | slti | sltiu | xori | ori | andi
  deriving DecidableEq

inductive ShiftOp
  | slli | srli | srai
  deriving DecidableEq

inductive RegOp
  | add | sub | sll | slt | sltu | xor | srl | sra | or | and
  | mul | mulh | mulhsu | mulhu | div | divu | rem | remu
  deriving DecidableEq

inductive AmoOp
  | swap | add | xor | and | or | min | max | minu | maxu
  deriving DecidableEq

/-- Offsets of jumps and branches count pairs of bytes; `order` is the bits `aq` and `rl`. -/
inductive Instr
  | lui (rd : Reg) (value : BitVec 20)
  | auipc (rd : Reg) (value : BitVec 20)
  | jal (rd : Reg) (offset : BitVec 20)
  | jalr (rd rs1 : Reg) (offset : BitVec 12)
  | branch (o : BranchOp) (rs1 rs2 : Reg) (offset : BitVec 12)
  | load (o : LoadOp) (rd rs1 : Reg) (offset : BitVec 12)
  | store (o : StoreOp) (rs1 rs2 : Reg) (offset : BitVec 12)
  | imm (o : ImmOp) (rd rs1 : Reg) (value : BitVec 12)
  | shift (o : ShiftOp) (rd rs1 : Reg) (amount : BitVec 5)
  | reg (o : RegOp) (rd rs1 rs2 : Reg)
  | lr (rd rs1 : Reg) (order : BitVec 2)
  | sc (rd rs1 rs2 : Reg) (order : BitVec 2)
  | amo (o : AmoOp) (rd rs1 rs2 : Reg) (order : BitVec 2)
  | fence (mode : BitVec 12) (rs1 rd : Reg)
  deriving DecidableEq

/-! ## Words -/

/-- The fields of a word, as the register format names them. -/
@[ext]
structure Fields where
  f7 : BitVec 7
  rs2 : BitVec 5
  rs1 : BitVec 5
  f3 : BitVec 3
  rd : BitVec 5
  op : BitVec 7
  deriving DecidableEq

def Fields.word (f : Fields) : BitVec 32 := f.f7 ++ f.rs2 ++ f.rs1 ++ f.f3 ++ f.rd ++ f.op

def fields (w : BitVec 32) : Fields where
  f7 := w.extractLsb' 25 7
  rs2 := w.extractLsb' 20 5
  rs1 := w.extractLsb' 15 5
  f3 := w.extractLsb' 12 3
  rd := w.extractLsb' 7 5
  op := w.extractLsb' 0 7

namespace Fields

variable (f : Fields)

def immI : BitVec 12 := f.f7 ++ f.rs2

def immS : BitVec 12 := f.f7 ++ f.rd

def immB : BitVec 12 :=
  f.f7.extractLsb' 6 1 ++ f.rd.extractLsb' 0 1 ++ f.f7.extractLsb' 0 6 ++ f.rd.extractLsb' 1 4

def immU : BitVec 20 := f.f7 ++ f.rs2 ++ f.rs1 ++ f.f3

def immJ : BitVec 20 :=
  f.f7.extractLsb' 6 1 ++ f.rs1 ++ f.f3 ++ f.rs2.extractLsb' 0 1 ++ f.f7.extractLsb' 0 6 ++ f.rs2.extractLsb' 1 4

end Fields

/-! ## Formats -/

section
variable (op : BitVec 7) (f3 : BitVec 3) (rd rs1 rs2 : Reg)

def typeI (v : BitVec 12) : Fields := ⟨v.extractLsb' 5 7, v.extractLsb' 0 5, rs1, f3, rd, op⟩

def typeS (v : BitVec 12) : Fields := ⟨v.extractLsb' 5 7, rs2, rs1, f3, v.extractLsb' 0 5, op⟩

def typeB (v : BitVec 12) : Fields :=
  ⟨v.extractLsb' 11 1 ++ v.extractLsb' 4 6, rs2, rs1, f3, v.extractLsb' 0 4 ++ v.extractLsb' 10 1, op⟩

def typeU (v : BitVec 20) : Fields :=
  ⟨v.extractLsb' 13 7, v.extractLsb' 8 5, v.extractLsb' 3 5, v.extractLsb' 0 3, rd, op⟩

def typeJ (v : BitVec 20) : Fields :=
  ⟨v.extractLsb' 19 1 ++ v.extractLsb' 4 6, v.extractLsb' 0 4 ++ v.extractLsb' 10 1, v.extractLsb' 14 5,
    v.extractLsb' 11 3, rd, op⟩

end

/-! ## Function fields -/

def BranchOp.f3 : BranchOp → BitVec 3
  | beq => 0b000#3
  | bne => 0b001#3
  | blt => 0b100#3
  | bge => 0b101#3
  | bltu => 0b110#3
  | bgeu => 0b111#3

def LoadOp.f3 : LoadOp → BitVec 3
  | lb => 0b000#3
  | lh => 0b001#3
  | lw => 0b010#3
  | lbu => 0b100#3
  | lhu => 0b101#3

def StoreOp.f3 : StoreOp → BitVec 3
  | sb => 0b000#3
  | sh => 0b001#3
  | sw => 0b010#3

def ImmOp.f3 : ImmOp → BitVec 3
  | addi => 0b000#3
  | slti => 0b010#3
  | sltiu => 0b011#3
  | xori => 0b100#3
  | ori => 0b110#3
  | andi => 0b111#3

def ShiftOp.f3 : ShiftOp → BitVec 3
  | slli => 0b001#3
  | srli | srai => 0b101#3

def ShiftOp.f7 : ShiftOp → BitVec 7
  | slli | srli => 0b0000000#7
  | srai => 0b0100000#7

def RegOp.f3 : RegOp → BitVec 3
  | add | sub | mul => 0b000#3
  | sll | mulh => 0b001#3
  | slt | mulhsu => 0b010#3
  | sltu | mulhu => 0b011#3
  | xor | div => 0b100#3
  | srl | sra | divu => 0b101#3
  | or | rem => 0b110#3
  | and | remu => 0b111#3

def RegOp.f7 : RegOp → BitVec 7
  | add | sll | slt | sltu | xor | srl | or | and => 0b0000000#7
  | sub | sra => 0b0100000#7
  | mul | mulh | mulhsu | mulhu | div | divu | rem | remu => 0b0000001#7

def AmoOp.f5 : AmoOp → BitVec 5
  | add => 0b00000#5
  | swap => 0b00001#5
  | xor => 0b00100#5
  | or => 0b01000#5
  | and => 0b01100#5
  | min => 0b10000#5
  | max => 0b10100#5
  | minu => 0b11000#5
  | maxu => 0b11100#5

/-! ## Encoding -/

def Instr.fields : Instr → Fields
  | lui rd v => typeU 0b0110111#7 rd v
  | auipc rd v => typeU 0b0010111#7 rd v
  | jal rd v => typeJ 0b1101111#7 rd v
  | jalr rd rs1 v => typeI 0b1100111#7 0b000#3 rd rs1 v
  | branch o rs1 rs2 v => typeB 0b1100011#7 o.f3 rs1 rs2 v
  | load o rd rs1 v => typeI 0b0000011#7 o.f3 rd rs1 v
  | store o rs1 rs2 v => typeS 0b0100011#7 o.f3 rs1 rs2 v
  | imm o rd rs1 v => typeI 0b0010011#7 o.f3 rd rs1 v
  | shift o rd rs1 v => ⟨o.f7, v, rs1, o.f3, rd, 0b0010011#7⟩
  | reg o rd rs1 rs2 => ⟨o.f7, rs2, rs1, o.f3, rd, 0b0110011#7⟩
  | lr rd rs1 q => ⟨0b00010#5 ++ q, 0#5, rs1, 0b010#3, rd, 0b0101111#7⟩
  | sc rd rs1 rs2 q => ⟨0b00011#5 ++ q, rs2, rs1, 0b010#3, rd, 0b0101111#7⟩
  | amo o rd rs1 rs2 q => ⟨o.f5 ++ q, rs2, rs1, 0b010#3, rd, 0b0101111#7⟩
  | fence m rs1 rd => typeI 0b0001111#7 0b000#3 rd rs1 m

def encode (i : Instr) : BitVec 32 := i.fields.word

/-! ## Decoding -/

def BranchOp.ofF3 : BitVec 3 → Option BranchOp
  | 0b000#3 => some beq
  | 0b001#3 => some bne
  | 0b100#3 => some blt
  | 0b101#3 => some bge
  | 0b110#3 => some bltu
  | 0b111#3 => some bgeu
  | _ => none

def LoadOp.ofF3 : BitVec 3 → Option LoadOp
  | 0b000#3 => some lb
  | 0b001#3 => some lh
  | 0b010#3 => some lw
  | 0b100#3 => some lbu
  | 0b101#3 => some lhu
  | _ => none

def StoreOp.ofF3 : BitVec 3 → Option StoreOp
  | 0b000#3 => some sb
  | 0b001#3 => some sh
  | 0b010#3 => some sw
  | _ => none

def ImmOp.ofF3 : BitVec 3 → Option ImmOp
  | 0b000#3 => some addi
  | 0b010#3 => some slti
  | 0b011#3 => some sltiu
  | 0b100#3 => some xori
  | 0b110#3 => some ori
  | 0b111#3 => some andi
  | _ => none

def ShiftOp.ofFields : BitVec 3 → BitVec 7 → Option ShiftOp
  | 0b001#3, 0b0000000#7 => some slli
  | 0b101#3, 0b0000000#7 => some srli
  | 0b101#3, 0b0100000#7 => some srai
  | _, _ => none

def RegOp.ofFields (f3 : BitVec 3) : BitVec 7 → Option RegOp
  | 0b0000000#7 =>
      match f3 with
      | 0b000#3 => some add
      | 0b001#3 => some sll
      | 0b010#3 => some slt
      | 0b011#3 => some sltu
      | 0b100#3 => some xor
      | 0b101#3 => some srl
      | 0b110#3 => some or
      | 0b111#3 => some and
      | _ => none
  | 0b0100000#7 =>
      match f3 with
      | 0b000#3 => some sub
      | 0b101#3 => some sra
      | _ => none
  | 0b0000001#7 =>
      match f3 with
      | 0b000#3 => some mul
      | 0b001#3 => some mulh
      | 0b010#3 => some mulhsu
      | 0b011#3 => some mulhu
      | 0b100#3 => some div
      | 0b101#3 => some divu
      | 0b110#3 => some rem
      | 0b111#3 => some remu
      | _ => none
  | _ => none

def AmoOp.ofF5 : BitVec 5 → Option AmoOp
  | 0b00000#5 => some add
  | 0b00001#5 => some swap
  | 0b00100#5 => some xor
  | 0b01000#5 => some or
  | 0b01100#5 => some and
  | 0b10000#5 => some min
  | 0b10100#5 => some max
  | 0b11000#5 => some minu
  | 0b11100#5 => some maxu
  | _ => none

namespace Fields

variable (f : Fields)

def atomic : Option Instr :=
  let q := f.f7.extractLsb' 0 2
  let f5 := f.f7.extractLsb' 2 5
  if f5 = 0b00010#5 then (if f.rs2 = 0#5 then some (.lr f.rd f.rs1 q) else none)
  else if f5 = 0b00011#5 then some (.sc f.rd f.rs1 f.rs2 q)
  else (AmoOp.ofF5 f5).map fun o => .amo o f.rd f.rs1 f.rs2 q

def instr : Option Instr :=
  match f.op with
  | 0b0110111#7 => some (.lui f.rd f.immU)
  | 0b0010111#7 => some (.auipc f.rd f.immU)
  | 0b1101111#7 => some (.jal f.rd f.immJ)
  | 0b1100111#7 => if f.f3 = 0b000#3 then some (.jalr f.rd f.rs1 f.immI) else none
  | 0b1100011#7 => (BranchOp.ofF3 f.f3).map fun o => .branch o f.rs1 f.rs2 f.immB
  | 0b0000011#7 => (LoadOp.ofF3 f.f3).map fun o => .load o f.rd f.rs1 f.immI
  | 0b0100011#7 => (StoreOp.ofF3 f.f3).map fun o => .store o f.rs1 f.rs2 f.immS
  | 0b0010011#7 =>
      match ImmOp.ofF3 f.f3 with
      | some o => some (.imm o f.rd f.rs1 f.immI)
      | none => (ShiftOp.ofFields f.f3 f.f7).map fun o => .shift o f.rd f.rs1 f.rs2
  | 0b0110011#7 => (RegOp.ofFields f.f3 f.f7).map fun o => .reg o f.rd f.rs1 f.rs2
  | 0b0101111#7 => if f.f3 = 0b010#3 then f.atomic else none
  | 0b0001111#7 => if f.f3 = 0b000#3 then some (.fence f.immI f.rs1 f.rd) else none
  | _ => none

end Fields

def decode (w : BitVec 32) : Option Instr := (fields w).instr

/-! ## Words and their fields -/

section
variable {v w : Nat}

/-- Neighbouring slices are a slice. -/
theorem slice_append (x : BitVec w) (a b c : Nat) (h : b = a + c) (d : Nat) :
    x.extractLsb' b d ++ x.extractLsb' a c = x.extractLsb' a (d + c) :=
  BitVec.extractLsb'_append_extractLsb'_eq_extractLsb' h

theorem slice_high (x : BitVec v) (y : BitVec w) (a n : Nat) (h : w ≤ a) :
    (x ++ y).extractLsb' a n = x.extractLsb' (a - w) n := BitVec.extractLsb'_append_eq_of_le h

theorem slice_low (x : BitVec v) (y : BitVec w) (a n : Nat) (h : a + n ≤ w) :
    (x ++ y).extractLsb' a n = y.extractLsb' a n := BitVec.extractLsb'_append_eq_of_add_le h

end

theorem fields_word (f : Fields) : fields f.word = f := by
  unfold fields Fields.word
  ext1 <;> simp (disch := decide) only [slice_high, slice_low] <;> exact BitVec.extractLsb'_eq_self

theorem word_fields (w : BitVec 32) : (fields w).word = w := by
  unfold fields Fields.word
  simp (disch := rfl) only [slice_append]
  exact BitVec.extractLsb'_eq_self

/-! ## Immediates and their fields -/

section
variable (op : BitVec 7) (f3 : BitVec 3) (rd rs1 rs2 : Reg)

theorem immI_typeI (v : BitVec 12) : (typeI op f3 rd rs1 v).immI = v := by
  unfold Fields.immI typeI
  simp (disch := rfl) only [slice_append]
  exact BitVec.extractLsb'_eq_self

theorem immS_typeS (v : BitVec 12) : (typeS op f3 rs1 rs2 v).immS = v := by
  unfold Fields.immS typeS
  simp (disch := rfl) only [slice_append]
  exact BitVec.extractLsb'_eq_self

theorem immB_typeB (v : BitVec 12) : (typeB op f3 rs1 rs2 v).immB = v := by
  unfold Fields.immB typeB
  simp (disch := decide) only [slice_high, slice_low, Nat.reduceSub, BitVec.extractLsb'_eq_self]
  simp (disch := rfl) only [slice_append, BitVec.extractLsb'_eq_self]

theorem immU_typeU (v : BitVec 20) : (typeU op rd v).immU = v := by
  unfold Fields.immU typeU
  simp (disch := rfl) only [slice_append]
  exact BitVec.extractLsb'_eq_self

theorem immJ_typeJ (v : BitVec 20) : (typeJ op rd v).immJ = v := by
  unfold Fields.immJ typeJ
  simp (disch := decide) only [slice_high, slice_low, Nat.reduceSub, BitVec.extractLsb'_eq_self]
  simp (disch := rfl) only [slice_append, BitVec.extractLsb'_eq_self]

end

section
variable (f : Fields)

theorem typeI_immI : typeI f.op f.f3 f.rd f.rs1 f.immI = f := by
  unfold Fields.immI typeI
  ext1 <;> simp (disch := decide) only [slice_high, slice_low] <;> exact BitVec.extractLsb'_eq_self

theorem typeS_immS : typeS f.op f.f3 f.rs1 f.rs2 f.immS = f := by
  unfold Fields.immS typeS
  ext1 <;> simp (disch := decide) only [slice_high, slice_low] <;> exact BitVec.extractLsb'_eq_self

theorem typeB_immB : typeB f.op f.f3 f.rs1 f.rs2 f.immB = f := by
  unfold Fields.immB typeB
  ext1 <;> simp (disch := decide) only [slice_high, slice_low, Nat.reduceSub, BitVec.extractLsb'_eq_self]
  all_goals
    simp (disch := rfl) only [slice_append, BitVec.extractLsb'_eq_self]

theorem typeU_immU : typeU f.op f.rd f.immU = f := by
  unfold Fields.immU typeU
  ext1 <;> simp (disch := decide) only [slice_high, slice_low] <;> exact BitVec.extractLsb'_eq_self

theorem typeJ_immJ : typeJ f.op f.rd f.immJ = f := by
  unfold Fields.immJ typeJ
  ext1 <;> simp (disch := decide) only [slice_high, slice_low, Nat.reduceSub, BitVec.extractLsb'_eq_self]
  all_goals
    simp (disch := rfl) only [slice_append, BitVec.extractLsb'_eq_self]

end

/-! ## Function fields and their operations -/

theorem BranchOp.ofF3_eq {f : BitVec 3} {o : BranchOp} : ofF3 f = some o ↔ o.f3 = f := by
  revert f; cases o <;> decide

theorem LoadOp.ofF3_eq {f : BitVec 3} {o : LoadOp} : ofF3 f = some o ↔ o.f3 = f := by
  revert f; cases o <;> decide

theorem StoreOp.ofF3_eq {f : BitVec 3} {o : StoreOp} : ofF3 f = some o ↔ o.f3 = f := by
  revert f; cases o <;> decide

theorem ImmOp.ofF3_eq {f : BitVec 3} {o : ImmOp} : ofF3 f = some o ↔ o.f3 = f := by
  revert f; cases o <;> decide

theorem AmoOp.ofF5_eq {f : BitVec 5} {o : AmoOp} : ofF5 f = some o ↔ o.f5 = f := by
  revert f; cases o <;> decide

theorem ShiftOp.ofFields_eq {f3 : BitVec 3} {f7 : BitVec 7} {o : ShiftOp} :
    ofFields f3 f7 = some o ↔ o.f3 = f3 ∧ o.f7 = f7 := by
  constructor
  · intro h
    unfold ofFields at h
    split at h <;> cases h <;> exact ⟨rfl, rfl⟩
  · rintro ⟨rfl, rfl⟩
    cases o <;> rfl

theorem RegOp.ofFields_eq {f3 : BitVec 3} {f7 : BitVec 7} {o : RegOp} :
    ofFields f3 f7 = some o ↔ o.f3 = f3 ∧ o.f7 = f7 := by
  constructor
  · intro h
    unfold ofFields at h
    split at h
    · split at h <;> cases h <;> exact ⟨rfl, rfl⟩
    · split at h <;> cases h <;> exact ⟨rfl, rfl⟩
    · split at h <;> cases h <;> exact ⟨rfl, rfl⟩
    · cases h
  · rintro ⟨rfl, rfl⟩
    cases o <;> rfl

/-! ## Decoding is the inverse of encoding -/

theorem Fields.atomic_eq {f : Fields} {i : Instr} (ho : f.op = 0b0101111#7) (h3 : f.f3 = 0b010#3)
    (h : f.atomic = some i) : i.fields = f := by
  have h7 : f.f7.extractLsb' 2 5 ++ f.f7.extractLsb' 0 2 = f.f7 :=
    (slice_append f.f7 0 2 2 rfl 5).trans BitVec.extractLsb'_eq_self
  unfold atomic at h
  simp only at h
  split_ifs at h with hlr h2 hsc
  · cases h
    ext1 <;> simp [Instr.fields, ho, h3, h2, ← hlr, h7]
  · cases h
    ext1 <;> simp [Instr.fields, ho, h3, ← hsc, h7]
  · rw [Option.map_eq_some_iff] at h
    obtain ⟨o, hf, rfl⟩ := h
    ext1 <;> simp [Instr.fields, ho, h3, AmoOp.ofF5_eq.mp hf, h7]

theorem Fields.instr_eq {f : Fields} {i : Instr} (h : f.instr = some i) : i.fields = f := by
  unfold instr at h
  split at h
  case h_1 ho =>
    cases h
    rw [Instr.fields, ← ho, typeU_immU]
  case h_2 ho =>
    cases h
    rw [Instr.fields, ← ho, typeU_immU]
  case h_3 ho =>
    cases h
    rw [Instr.fields, ← ho, typeJ_immJ]
  case h_4 ho =>
    split_ifs at h with h3
    cases h
    rw [Instr.fields, ← ho, ← h3, typeI_immI]
  case h_5 ho =>
    rw [Option.map_eq_some_iff] at h
    obtain ⟨o, hf, rfl⟩ := h
    rw [Instr.fields, ← ho, BranchOp.ofF3_eq.mp hf, typeB_immB]
  case h_6 ho =>
    rw [Option.map_eq_some_iff] at h
    obtain ⟨o, hf, rfl⟩ := h
    rw [Instr.fields, ← ho, LoadOp.ofF3_eq.mp hf, typeI_immI]
  case h_7 ho =>
    rw [Option.map_eq_some_iff] at h
    obtain ⟨o, hf, rfl⟩ := h
    rw [Instr.fields, ← ho, StoreOp.ofF3_eq.mp hf, typeS_immS]
  case h_8 ho =>
    split at h
    · rename_i o hf
      cases h
      rw [Instr.fields, ← ho, ImmOp.ofF3_eq.mp hf, typeI_immI]
    · rw [Option.map_eq_some_iff] at h
      obtain ⟨o, hf, rfl⟩ := h
      obtain ⟨h3, h7⟩ := ShiftOp.ofFields_eq.mp hf
      rw [Instr.fields, ← ho, h3, h7]
  case h_9 ho =>
    rw [Option.map_eq_some_iff] at h
    obtain ⟨o, hf, rfl⟩ := h
    obtain ⟨h3, h7⟩ := RegOp.ofFields_eq.mp hf
    rw [Instr.fields, ← ho, h3, h7]
  case h_10 ho =>
    split_ifs at h with h3
    exact atomic_eq ho h3 h
  case h_11 ho =>
    split_ifs at h with h3
    cases h
    rw [Instr.fields, ← ho, ← h3, typeI_immI]
  case h_12 => cases h

theorem Instr.instr_fields (i : Instr) : i.fields.instr = some i := by
  cases i with
  | lui rd v => exact congrArg (fun x => some (Instr.lui rd x)) (immU_typeU _ rd v)
  | auipc rd v => exact congrArg (fun x => some (Instr.auipc rd x)) (immU_typeU _ rd v)
  | jal rd v => exact congrArg (fun x => some (Instr.jal rd x)) (immJ_typeJ _ rd v)
  | jalr rd rs1 v => exact congrArg (fun x => some (Instr.jalr rd rs1 x)) (immI_typeI _ _ rd rs1 v)
  | branch o rs1 rs2 v =>
      have hv := immB_typeB 0b1100011#7 o.f3 rs1 rs2 v
      have ho := BranchOp.ofF3_eq.mpr (rfl : o.f3 = o.f3)
      simp only [fields, Fields.instr, hv]
      simp only [typeB, ho, Option.map_some]
  | load o rd rs1 v =>
      have hv := immI_typeI 0b0000011#7 o.f3 rd rs1 v
      have ho := LoadOp.ofF3_eq.mpr (rfl : o.f3 = o.f3)
      simp only [fields, Fields.instr, hv]
      simp only [typeI, ho, Option.map_some]
  | store o rs1 rs2 v =>
      have hv := immS_typeS 0b0100011#7 o.f3 rs1 rs2 v
      have ho := StoreOp.ofF3_eq.mpr (rfl : o.f3 = o.f3)
      simp only [fields, Fields.instr, hv]
      simp only [typeS, ho, Option.map_some]
  | imm o rd rs1 v =>
      have hv := immI_typeI 0b0010011#7 o.f3 rd rs1 v
      have ho := ImmOp.ofF3_eq.mpr (rfl : o.f3 = o.f3)
      simp only [fields, Fields.instr, hv]
      simp only [typeI, ho]
  | shift o rd rs1 v =>
      have hn : ImmOp.ofF3 o.f3 = none := by cases o <;> rfl
      have ho := ShiftOp.ofFields_eq.mpr ⟨(rfl : o.f3 = o.f3), (rfl : o.f7 = o.f7)⟩
      simp only [fields, Fields.instr, hn, ho, Option.map_some]
  | reg o rd rs1 rs2 =>
      have ho := RegOp.ofFields_eq.mpr ⟨(rfl : o.f3 = o.f3), (rfl : o.f7 = o.f7)⟩
      simp only [fields, Fields.instr, ho, Option.map_some]
  | lr rd rs1 q =>
      have hq : (0b00010#5 ++ q).extractLsb' 0 2 = q := BitVec.extractLsb'_append_eq_right
      have h5 : (0b00010#5 ++ q).extractLsb' 2 5 = 0b00010#5 := BitVec.extractLsb'_append_eq_left
      simp only [fields, Fields.instr, Fields.atomic, hq, h5, if_true]
  | sc rd rs1 rs2 q =>
      have hq : (0b00011#5 ++ q).extractLsb' 0 2 = q := BitVec.extractLsb'_append_eq_right
      have h5 : (0b00011#5 ++ q).extractLsb' 2 5 = 0b00011#5 := BitVec.extractLsb'_append_eq_left
      simp [fields, Fields.instr, Fields.atomic, hq, h5]
  | amo o rd rs1 rs2 q =>
      have hq : (o.f5 ++ q).extractLsb' 0 2 = q := BitVec.extractLsb'_append_eq_right
      have h5 : (o.f5 ++ q).extractLsb' 2 5 = o.f5 := BitVec.extractLsb'_append_eq_left
      have ho := AmoOp.ofF5_eq.mpr (rfl : o.f5 = o.f5)
      have hlr : o.f5 ≠ 0b00010#5 := by cases o <;> decide
      have hsc : o.f5 ≠ 0b00011#5 := by cases o <;> decide
      simp [fields, Fields.instr, Fields.atomic, hq, h5, hlr, hsc, ho]
  | fence m rs1 rd => exact congrArg (fun x => some (Instr.fence x rs1 rd)) (immI_typeI _ _ rd rs1 m)

theorem decode_eq_some {w : BitVec 32} {i : Instr} : decode w = some i ↔ encode i = w := by
  constructor
  · intro h
    rw [encode, Fields.instr_eq h, word_fields]
  · rintro rfl
    rw [decode, encode, fields_word, Instr.instr_fields]

end Rv32
