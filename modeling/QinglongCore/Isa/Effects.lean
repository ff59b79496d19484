import QinglongCore.Isa.Hart
import QinglongCore.Rv32.Effects

/-!
# The accesses of an instruction of RV32IMA

The machine of the decoder wires reads the word that the instruction reads, and writes the lanes that it writes.
-/

namespace QinglongCore.Isa

open Rv32 (Instr encode)

variable {mem₀ : Word → Word} {A : Arch} {w : Word}

/-- The lanes of a word that a write goes to. -/
def storeOf (x : Rv32.Write) : Store :=
  ⟨alignWord x.addr, laneData x.op.f3 x.addr x.value, laneMask x.op.f3 x.addr⟩

/-- `l` reads at most from the address `a`, and writes what `x` writes. -/
structure Reaches (l : List Access) (a : Option Word) (x : Option Rv32.Write) : Prop where
  reads : ∀ y ∈ l, y.store = none → ∃ b, a = some b ∧ y.addr = alignWord b
  writes : l.filterMap Access.store = x.toList.map storeOf

theorem reaches_nil : Reaches [] none none := ⟨fun _ hy _ => absurd hy List.not_mem_nil, rfl⟩

theorem reaches_read (a : Word) (z : BitVec 2) : Reaches [.read (alignWord a) z] (some a) none :=
  ⟨fun y hy _ => ⟨a, rfl, by rw [List.mem_singleton.mp hy]; rfl⟩, rfl⟩

theorem reaches_write (x : Rv32.Write) (z : BitVec 2) : Reaches [.write (alignWord x.addr) z
    (laneData x.op.f3 x.addr x.value) (laneMask x.op.f3 x.addr)] none (some x) :=
  ⟨fun _ hy hs => absurd (List.mem_singleton.mp hy ▸ hs) (Option.some_ne_none _), rfl⟩

theorem reaches_append {l l' : List Access} {a : Option Word} {x : Option Rv32.Write} (h : Reaches l a none)
    (h' : Reaches l' none x) : Reaches (l ++ l') a x where
  reads y hy hs := by
    rcases List.mem_append.mp hy with hy | hy
    · exact h.reads y hy hs
    · obtain ⟨b, hb, -⟩ := h'.reads y hy hs
      cases hb
  writes := by
    rw [List.filterMap_append, h.writes, h'.writes]
    rfl

/-- An instruction that leaves the data bus alone. -/
theorem reaches_plain (h : (opcode w == OP_LOAD || opcode w == OP_STORE || opcode w == OP_AMO) = false) :
    Reaches (A.makes mem₀ w) none none := by
  simp only [Bool.or_eq_false_iff, beq_eq_false_iff_ne] at h
  rw [Arch.makes_none (beq_eq_false_iff_ne.mpr h.1.1) (beq_eq_false_iff_ne.mpr h.1.2) (Decode.not_atomic_of_opcode h.2)]
  exact reaches_nil

section
variable {rd rs1 rs2 : BitVec 5} {q : BitVec 2}

theorem reaches_lr (hw : encode (.lr rd rs1 q) = w) :
    Reaches (A.makes mem₀ w) (some ((hart mem₀ A).regs.get rs1)) none := by
  have hlr : Decode.isLr w = true := hw ▸ isLr_encode rd rs1 q
  have ha : A.rs1 w = (hart mem₀ A).regs.get rs1 := congrArg A.regs.read (hw ▸ rs1Field_word _)
  rw [Arch.makes_read (by rw [hlr, Bool.or_true]), Arch.readAccess, addr_atomic (by simp [Decode.isAtomic, hlr]), ha]
  exact reaches_read _ _

theorem reaches_sc (hw : encode (.sc rd rs1 rs2 q) = w) :
    Reaches (A.makes mem₀ w) none ((hart mem₀ A).writes (.sc rd rs1 rs2 q)) := by
  have hsc : Decode.isSc w = true := hw ▸ isSc_encode rd rs1 rs2 q
  have hat : Decode.isAtomic w = true := by simp [Decode.isAtomic, hsc]
  have hs := (Decode.of_isAmo (Decode.isAmo_of_isSc hsc)).2
  have ha : A.rs1 w = (hart mem₀ A).regs.get rs1 := congrArg A.regs.read (hw ▸ rs1Field_word _)
  have hb : A.rs2 w = (hart mem₀ A).regs.get rs2 := congrArg A.regs.read (hw ▸ rs2Field_word _)
  have hwr : A.writeAccess mem₀ w = .write (alignWord (A.rs1 w)) (size w) (A.rs2 w) 0b1111#4 := by
    simp [Arch.writeAccess, hs, hsc, addr_atomic hat]
  have hhit : A.scHit w = true ↔ (hart mem₀ A).link = some (Rv32.State.word ((hart mem₀ A).regs.get rs1)) := by
    rw [Arch.scHit, addr_atomic hat, ha, beq_iff_eq]
    rfl
  rw [Arch.makes_sc hsc, hwr, ha, hb, Rv32.State.writes]
  by_cases hh : A.scHit w = true
  · rw [if_pos hh, if_pos (hhit.mp hh)]
    exact reaches_write ⟨.sw, _, _⟩ _
  · rw [if_neg hh, if_neg (hhit.not.mp hh)]
    exact reaches_nil

theorem reaches_amo {o : Rv32.AmoOp} (hw : encode (.amo o rd rs1 rs2 q) = w)
    (hd : 4 ∣ ((hart mem₀ A).regs.get rs1).toNat) : Reaches (A.makes mem₀ w) (some ((hart mem₀ A).regs.get rs1))
      ((hart mem₀ A).writes (.amo o rd rs1 rs2 q)) := by
  obtain ⟨hrmw, h5⟩ : Decode.isAmoRmw w = true ∧ amoFunct5 w = o.f5 := hw ▸ isAmoRmw_encode o rd rs1 rs2 q
  have hat : Decode.isAtomic w = true := by simp [Decode.isAtomic, hrmw]
  obtain ⟨hamo, -, hsc⟩ := Decode.of_isAmoRmw hrmw
  have hs := (Decode.of_isAmo hamo).2
  have ha : A.rs1 w = (hart mem₀ A).regs.get rs1 := congrArg A.regs.read (hw ▸ rs1Field_word _)
  have hb : A.rs2 w = (hart mem₀ A).regs.get rs2 := congrArg A.regs.read (hw ▸ rs2Field_word _)
  have hold : A.old mem₀ w = _ := old_hart hat (ha ▸ hd)
  have hwr : A.writeAccess mem₀ w = .write (alignWord (A.rs1 w)) (size w)
      (o.value (Rv32.load (hart mem₀ A).mem (A.rs1 w) 4) (A.rs2 w)) 0b1111#4 := by
    simp [Arch.writeAccess, hs, hsc, h5, addr_atomic hat, amoValue_value, hold]
  have happ : A.makes mem₀ w = [A.readAccess w] ++ [A.writeAccess mem₀ w] := Arch.makes_amo hrmw
  rw [happ, hwr, Arch.readAccess, addr_atomic hat, ha, hb]
  exact reaches_append (reaches_read _ _) (reaches_write ⟨.sw, _, _⟩ _)

end

/-- The accesses of the word of an instruction. -/
theorem reaches_encode {i : Instr} {s : Rv32.State} (h : (hart mem₀ A).exec i = some s) :
    Reaches (A.makes mem₀ (encode i)) ((hart mem₀ A).reads i) ((hart mem₀ A).writes i) := by
  have hop : opcode (encode i) = i.fields.op := opcode_word _
  have h3 : funct3 (encode i) = i.fields.f3 := funct3_word _
  have hrs1 : A.rs1 (encode i) = (hart mem₀ A).regs.get i.fields.rs1 := congrArg A.regs.read (rs1Field_word _)
  have hrs2 : A.rs2 (encode i) = (hart mem₀ A).regs.get i.fields.rs2 := congrArg A.regs.read (rs2Field_word _)
  cases i with
  | lui | auipc | jal | jalr | branch | imm | shift | reg | fence =>
      exact reaches_plain (by rw [hop]; rfl)
  | load o rd rs1 v =>
      have hl : Decode.isLoad (encode (.load o rd rs1 v)) = true := by rw [Decode.isLoad, hop]; rfl
      have himm : Decode.imm (encode (.load o rd rs1 v)) = v.signExtend 32 := by
        rw [encode, imm_load _ (.inl rfl), immI_word, Instr.fields, Rv32.immI_typeI]
      rw [Arch.makes_read (by rw [hl, Bool.true_or]), Arch.readAccess, Arch.addr,
        lsAddr_of_access (by rw [hl, Bool.true_or]), hrs1, himm]
      exact reaches_read _ _
  | store o rs1 rs2 v =>
      have hs : Decode.isStore (encode (.store o rs1 rs2 v)) = true := by rw [Decode.isStore, hop]; rfl
      have himm : Decode.imm (encode (.store o rs1 rs2 v)) = v.signExtend 32 := by
        rw [encode, imm_store _ rfl, immS_word, Instr.fields, Rv32.immS_typeS]
      rw [Arch.makes_store hs, Arch.writeAccess, if_pos hs, Arch.addr,
        lsAddr_of_access (by rw [hs, Bool.or_true]), hrs1, hrs2, h3, himm]
      exact reaches_write ⟨o, _, _⟩ _
  | lr rd rs1 q => exact reaches_lr rfl
  | sc rd rs1 rs2 q => exact reaches_sc rfl
  | amo o rd rs1 rs2 q =>
      simp only [Rv32.State.exec] at h
      split_ifs at h with hd
      exact reaches_amo rfl hd

end QinglongCore.Isa
