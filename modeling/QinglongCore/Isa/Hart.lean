import QinglongCore.Isa.Alignment
import QinglongCore.Isa.ByteLanes
import QinglongCore.Isa.Encoded
import QinglongCore.Isa.Environment

/-!
# The machine of the decoder wires is a hart of RV32IMA

The state between two instructions stands for registers, a pc, a reservation and a memory of bytes, on which an encoded
instruction does what RV32IMA defines for it.
-/

namespace QinglongCore.Isa

open Rv32 (Instr encode)

variable {mem₀ : Word → Word} {A : Arch} {l : List Access} {w a b : Word}

def registers (r : RegFile) : Rv32.Regs := ⟨r.read, rfl⟩

/-- The bytes that the accesses of `l` leave in memory. -/
def byteMemory (mem₀ : Word → Word) (l : List Access) (b : Word) : BitVec 8 := byteAt (contents mem₀ l b) (lane b)

def hart (mem₀ : Word → Word) (A : Arch) : Rv32.State := ⟨A.pc, registers A.regs, byteMemory mem₀ A.accesses, A.link⟩

/-! ## Registers -/

theorem registers_write (r : RegFile) (rd : BitVec 5) (v : Word) :
    registers (r.write (rd != 0#5) rd v) = (registers r).set rd v := by
  ext1
  funext x
  show (r.write (rd != 0#5) rd v).read x = if x = rd ∧ rd ≠ 0#5 then v else r.read x
  rw [RegFile.read_write]
  by_cases h : rd = 0#5
  · simp [h]
  · by_cases hx : x = rd
    · simp [h, hx]
    · simp [hx, Ne.symm hx]

theorem registers_keep (r : RegFile) (rd : BitVec 5) (v : Word) : registers (r.write false rd v) = registers r := by
  rw [RegFile.write_false]

theorem registers_of_writesRd (r : RegFile) (v : Word) : registers (r.write (Decode.writesRd w) (rdField w) v) =
    if Decode.writesRd w then (registers r).set (rdField w) v else registers r := by
  cases h : Decode.writesRd w
  · exact registers_keep r _ v
  · rw [Decode.writesRd, Bool.and_eq_true] at h
    have hb := registers_write r (rdField w) v
    rwa [h.2] at hb

/-! ## Words and bytes -/

theorem alignWord_eq_append (a : Word) : alignWord a = a.extractLsb' 2 30 ++ 0#2 := by
  have hmask : ∀ i, i < 32 → (0xFFFFFFFC#32 : Word).getLsbD i = decide (2 ≤ i) := by decide
  apply BitVec.eq_of_getLsbD_eq
  intro i hi
  rw [alignWord, BitVec.getLsbD_and, hmask i hi, BitVec.getLsbD_append]
  by_cases h : i < 2
  · simp [h]
  · have h₁ : i - 2 < 30 := by omega
    have h₂ : 2 + (i - 2) = i := by omega
    have h₃ : 2 ≤ i := by omega
    simp [h, h₁, h₂, h₃]

theorem alignWord_toNat (a : Word) : (alignWord a).toNat = 4 * (a.toNat / 4) := by
  have hlt := a.isLt
  rw [alignWord_eq_append, BitVec.toNat_append, BitVec.extractLsb'_toNat, BitVec.toNat_ofNat, Nat.shiftRight_eq_div_pow,
    Nat.shiftLeft_eq]
  simp
  omega

theorem alignWord_lane (a : Word) : (alignWord a).toNat + lane a = a.toNat := by
  rw [alignWord_toNat, lane]
  omega

theorem alignWord_of_aligned (h : Aligned a) : alignWord a = a := by
  apply BitVec.eq_of_toNat_eq
  rw [alignWord_toNat]
  exact Nat.mul_div_cancel' h

/-- The addresses in a word. -/
theorem inWord {k : Nat} (hk : k < 4) (h : b.toNat = (alignWord a).toNat + k) : alignWord b = alignWord a ∧ lane b = k := by
  rw [alignWord_toNat] at h
  constructor
  · apply BitVec.eq_of_toNat_eq
    rw [alignWord_toNat, alignWord_toNat, h]
    omega
  · rw [lane, h]
    omega

theorem contents_of_alignWord (h : alignWord b = alignWord a) : contents mem₀ l b = contents mem₀ l a := by
  rw [contents, contents, h]

/-- The bytes of a word are next to each other. -/
theorem byteAt_contents {k : Nat} (hk : k < 4) :
    byteAt (contents mem₀ l a) k = Rv32.byMemory (byteMemory mem₀ l) ((alignWord a).toNat + k) := by
  have hn : (BitVec.ofNat 32 ((alignWord a).toNat + k)).toNat = (alignWord a).toNat + k := by
    have hlt := a.isLt
    rw [BitVec.toNat_ofNat, alignWord_toNat]
    omega
  obtain ⟨hal, hl⟩ := inWord hk hn
  rw [Rv32.byMemory, byteMemory, hl, contents_of_alignWord hal]

/-- A load of the instruction set. -/
theorem loadValue_hart (o : Rv32.LoadOp) (ha : o.width ∣ a.toNat) :
    loadValue o.f3 a (contents mem₀ l a) = o.value (byteMemory mem₀ l) a := by
  have hw : width o.f3 = o.width := by cases o <;> rfl
  rw [loadValue_eq_loaded (hw ▸ ha) fun k hk => byteAt_contents hk, alignWord_lane]
  cases o <;> rfl

theorem load_word (ha : 4 ∣ a.toNat) : contents mem₀ l a = Rv32.load (byteMemory mem₀ l) a 4 :=
  loadValue_hart .lw ha

theorem byteMemory_read (x : Access) (hx : x.store = none) :
    byteMemory mem₀ (l ++ [x]) = byteMemory mem₀ l := by
  cases x with
  | read a z =>
      funext b
      rw [byteMemory, contents_read, byteMemory]
  | write a z d m => cases hx

theorem contents_write (c : Word) (z : BitVec 2) (d : Word) (m : BitVec 4) : contents mem₀ (l ++ [.write c z d m]) b =
    if alignWord b = c then mergeBytes (contents mem₀ l b) d m else contents mem₀ l b := by
  rw [contents, List.filterMap_append, List.reverse_append]
  rfl

/-- A write of lanes of the word around `a`. -/
theorem byteMemory_write (f3 : BitVec 3) (hf : Stores f3) (ha : width f3 ∣ a.toNat) (z : BitVec 2) (x : Word) :
    byteMemory mem₀ (l ++ [.write (alignWord a) z (laneData f3 a x) (laneMask f3 a)]) =
      Rv32.store (byteMemory mem₀ l) a (width f3) x := by
  funext b
  have hb : byteMemory mem₀ l b = Rv32.byMemory (byteMemory mem₀ l) b.toNat := by
    rw [Rv32.byMemory, BitVec.ofNat_toNat, BitVec.setWidth_eq]
  have hlane := lane_add_width ha
  have hla := alignWord_lane a
  have hlb := alignWord_lane b
  rw [byteMemory, contents_write, Rv32.store]
  split
  case isTrue h =>
    rw [byteAt_mergeBytes (lane_lt b) hf ha, ← hla, ← hlb, h, ByteMemory.write_add]
    refine ByteMemory.write_congr ?_ _ _ _
    rw [← h, hlb, ← hb]
    rfl
  case isFalse h =>
    rw [ByteMemory.write_out]
    · exact hb
    · have hne : a.toNat / 4 ≠ b.toNat / 4 := by
        intro he
        apply h
        apply BitVec.eq_of_toNat_eq
        rw [alignWord_toNat, alignWord_toNat, he]
      rw [alignWord_toNat] at hla hlb
      have := lane_lt b
      omega

/-! ## Instructions that leave the bus alone -/

theorem misaligned_iff : misaligned a = true ↔ ¬ 4 ∣ a.toNat := by
  have h := aligned_iff (a := a)
  rw [Aligned] at h
  rw [misaligned, bne_iff_ne, ne_eq, h]

/-- The hart after a step, when the word performs without an exception. -/
def after (mem₀ : Word → Word) (A : Arch) (w : Word) : Option Rv32.State :=
  if A.sound w then some (hart mem₀ (A.exec mem₀ w)) else none

section
variable {i : Instr} (hw : encode i = w)
include hw

theorem sound_encode : A.sound w = (!strays w A.pc (A.rs1 w) (A.rs2 w) && !straddles w (A.rs1 w)) := by
  rw [Arch.sound, sound, ← hw, ordinary_encode, legal_encode, Bool.true_and, Bool.true_and]

variable (hl : opcode w ≠ OP_LOAD) (hs : opcode w ≠ OP_STORE) (ha : opcode w ≠ OP_AMO)
include hl hs ha

theorem after_plain : after mem₀ A w = if strays w A.pc (A.rs1 w) (A.rs2 w) then none else
    some { hart mem₀ A with
      pc := nextPc w A.pc (A.rs1 w) (A.rs2 w)
      regs := registers (A.regs.write (Decode.writesRd w) (rdField w) (arith w A.pc (A.rs1 w) (A.rs2 w))) } := by
  have hl' : Decode.isLoad w = false := by simpa [Decode.isLoad] using hl
  have hs' : Decode.isStore w = false := by simpa [Decode.isStore] using hs
  have ha' : Decode.isAtomic w = false := Decode.not_atomic_of_opcode ha
  have hm : A.makes mem₀ w = [] := Arch.makes_none hl' hs' ha'
  simp only [Decode.isAtomic, Bool.or_eq_false_iff] at ha'
  have hst : straddles w (A.rs1 w) = false := by simp [straddles, Decode.isAtomic, hl', hs', ha']
  have hr : A.result mem₀ w = arith w A.pc (A.rs1 w) (A.rs2 w) := by simp [Arch.result, hl', hs', ha']
  have he : hart mem₀ (A.exec mem₀ w) = { hart mem₀ A with
      pc := nextPc w A.pc (A.rs1 w) (A.rs2 w)
      regs := registers (A.regs.write (Decode.writesRd w) (rdField w) (arith w A.pc (A.rs1 w) (A.rs2 w))) } := by
    simp [hart, Arch.exec, hm, hr, ha']
  rw [after, sound_encode hw, hst, he]
  cases strays w A.pc (A.rs1 w) (A.rs2 w) <;> rfl

end

theorem strays_of_opcode (h₁ : opcode w ≠ OP_JALR) (h₂ : opcode w ≠ OP_JAL) (h₃ : opcode w ≠ OP_BRANCH)
    (pc a b : Word) : strays w pc a b = false ∧ nextPc w pc a b = pc + 4#32 := by
  simp [strays, nextPc, Decode.isJalr, Decode.isJal, Decode.isBranch, h₁, h₂, h₃]

theorem writesRd_of_opcode (h : opcode w = OP_LUI ∨ opcode w = OP_AUIPC ∨ opcode w = OP_JAL ∨ opcode w = OP_JALR ∨
    opcode w = OP_LOAD ∨ opcode w = OP_OP_IMM ∨ opcode w = OP_OP) : Decode.writesRd w = (rdField w != 0#5) := by
  rcases h with h | h | h | h | h | h | h <;>
    simp [Decode.writesRd, Decode.isLui, Decode.isAuipc, Decode.isJal, Decode.isJalr, Decode.isLoad, Decode.isOpImm,
      Decode.isOp, h]

/-- An instruction that computes `v` into `rd`. -/
theorem after_compute {i : Instr} (hw : encode i = w) {rd : BitVec 5} {v : Word}
    (ho : opcode w = OP_LUI ∨ opcode w = OP_AUIPC ∨ opcode w = OP_OP_IMM ∨ opcode w = OP_OP)
    (hrd : rdField w = rd) (hv : arith w A.pc (A.rs1 w) (A.rs2 w) = v) :
    after mem₀ A w = some ((hart mem₀ A).set rd v).next := by
  have hne : ∀ o, o = OP_LOAD ∨ o = OP_STORE ∨ o = OP_AMO ∨ o = OP_JALR ∨ o = OP_JAL ∨ o = OP_BRANCH →
      opcode w ≠ o := by
    rintro o h rfl
    rcases ho with ho | ho | ho | ho <;> rw [ho] at h <;> revert h <;> decide
  obtain ⟨hs, hn⟩ := strays_of_opcode (hne _ (by simp)) (hne _ (by simp)) (hne _ (by simp)) A.pc (A.rs1 w) (A.rs2 w)
  have hwr : Decode.writesRd w = (rdField w != 0#5) := writesRd_of_opcode (by tauto)
  rw [after_plain hw (hne _ (by simp)) (hne _ (by simp)) (hne _ (by simp)), hs, hn, hwr, hv, hrd, registers_write]
  rfl

/-- A jump to `x`. -/
theorem after_jump {i : Instr} (hw : encode i = w) {rd : BitVec 5} {x : Word}
    (ho : opcode w = OP_JAL ∨ opcode w = OP_JALR) (hrd : rdField w = rd)
    (hx : nextPc w A.pc (A.rs1 w) (A.rs2 w) = x) :
    after mem₀ A w = ((hart mem₀ A).set rd (A.pc + 4#32)).goto x := by
  have hne : ∀ o, o = OP_LOAD ∨ o = OP_STORE ∨ o = OP_AMO → opcode w ≠ o := by
    rintro o h rfl
    rcases ho with ho | ho <;> rw [ho] at h <;> revert h <;> decide
  have hs : strays w A.pc (A.rs1 w) (A.rs2 w) = misaligned x := by
    rcases ho with ho | ho <;> simp [strays, Decode.isJalr, Decode.isJal, ho, hx, OP_JALR, OP_JAL]
  have hwr : Decode.writesRd w = (rdField w != 0#5) := writesRd_of_opcode (by tauto)
  rw [after_plain hw (hne _ (by simp)) (hne _ (by simp)) (hne _ (by simp)), hs, hx, hwr, arith_jump _ _ _ ho, hrd,
    registers_write, Rv32.State.goto]
  simp only [misaligned_iff, ite_not]
  rfl

/-- A branch by `x`, when `p` holds. -/
theorem after_branch {i : Instr} (hw : encode i = w) {x : Word} {p : Bool} (ho : opcode w = OP_BRANCH)
    (hp : branchTaken (funct3 w) (A.rs1 w) (A.rs2 w) = p) (hx : Decode.imm w = x) :
    after mem₀ A w = if p then (hart mem₀ A).goto (A.pc + x) else some (hart mem₀ A).next := by
  have hj : Decode.isJalr w = false ∧ Decode.isJal w = false ∧ Decode.isBranch w = true := by
    simp [Decode.isJalr, Decode.isJal, Decode.isBranch, ho, OP_JALR, OP_JAL, OP_BRANCH]
  have hwr : Decode.writesRd w = false := by
    have ha : Decode.isAtomic w = false := Decode.not_atomic_of_opcode (by rw [ho]; decide)
    simp [Decode.writesRd, Decode.isLui, Decode.isAuipc, Decode.isJal, Decode.isJalr, Decode.isLoad, Decode.isOpImm,
      Decode.isOp, Decode.isCsr, Decode.isSystem, ha, ho, OP_BRANCH, OP_LUI, OP_AUIPC, OP_JAL, OP_JALR, OP_LOAD,
      OP_OP_IMM, OP_OP, OP_SYSTEM]
  have hn : nextPc w A.pc (A.rs1 w) (A.rs2 w) = if p then A.pc + x else A.pc + 4#32 := by
    simp [nextPc, hj, hp, hx]
  have hs : strays w A.pc (A.rs1 w) (A.rs2 w) = (p && misaligned (A.pc + x)) := by
    rw [strays, hn, hj.1, hj.2.1, hj.2.2, hp]
    cases p <;> rfl
  rw [after_plain hw (by rw [ho]; decide) (by rw [ho]; decide) (by rw [ho]; decide), hs, hn, hwr, registers_keep,
    Rv32.State.goto]
  cases p
  · rfl
  · simp only [Bool.true_and, misaligned_iff, ite_not, if_true]
    rfl

theorem after_fence {i : Instr} (hw : encode i = w) (ho : opcode w = OP_MISC_MEM) :
    after mem₀ A w = some (hart mem₀ A).next := by
  have hne : ∀ o, o ≠ OP_MISC_MEM → opcode w ≠ o := fun o h h' => h (h' ▸ ho)
  obtain ⟨hs, hn⟩ := strays_of_opcode (hne _ (by decide)) (hne _ (by decide)) (hne _ (by decide)) A.pc (A.rs1 w)
    (A.rs2 w)
  have hwr : Decode.writesRd w = false := by
    have ha : Decode.isAtomic w = false := Decode.not_atomic_of_opcode (by rw [ho]; decide)
    simp [Decode.writesRd, Decode.isLui, Decode.isAuipc, Decode.isJal, Decode.isJalr, Decode.isLoad, Decode.isOpImm,
      Decode.isOp, Decode.isCsr, Decode.isSystem, ha, ho, OP_MISC_MEM, OP_LUI, OP_AUIPC, OP_JAL, OP_JALR, OP_LOAD,
      OP_OP_IMM, OP_OP, OP_SYSTEM]
  rw [after_plain hw (hne _ (by decide)) (hne _ (by decide)) (hne _ (by decide)), hs, hn, hwr, registers_keep]
  rfl

/-! ## Loads and stores -/

theorem odd_iff : a.getLsbD 0 = true ↔ ¬ 2 ∣ a.toNat := by
  rw [← BitVec.testBit_toNat, Nat.testBit_zero, decide_eq_true_eq]
  omega

theorem transfer_funct3 {f3 : BitVec 3} (hf : Loads f3 ∨ Stores f3) :
    f3 = F3_LB ∨ f3 = F3_LBU ∨ f3 = F3_LH ∨ f3 = F3_LHU ∨ f3 = F3_LW := by
  revert f3
  decide

/-- The alignment check of a load or a store. -/
theorem straddles_iff (ho : opcode w = OP_LOAD ∨ opcode w = OP_STORE) (hf : Loads (funct3 w) ∨ Stores (funct3 w))
    (a : Word) : straddles w a = true ↔ ¬ width (funct3 w) ∣ (lsAddr w a).toNat := by
  have ha : Decode.isAtomic w = false := by
    refine Decode.not_atomic_of_opcode ?_
    rcases ho with ho | ho <;> rw [ho] <;> decide
  have hls : (Decode.isLoad w || Decode.isStore w) = true := by
    rcases ho with ho | ho <;> simp [Decode.isLoad, Decode.isStore, ho]
  rw [straddles, ha, hls, Bool.false_or, Bool.true_and, Bool.true_and, size, ha]
  generalize lsAddr w a = x
  rcases transfer_funct3 hf with h | h | h | h | h <;> rw [h]
  · exact iff_of_false Bool.false_ne_true (not_not_intro (Nat.one_dvd _))
  · exact iff_of_false Bool.false_ne_true (not_not_intro (Nat.one_dvd _))
  · exact odd_iff
  · exact odd_iff
  · exact misaligned_iff

theorem lsAddr_of_access (h : (Decode.isLoad w || Decode.isStore w) = true) (a : Word) :
    lsAddr w a = a + Decode.imm w := by
  obtain ⟨hlr, hsc, ha⟩ := Decode.not_atomic_of_access h
  simp [lsAddr, Decode.isAtomic, hlr, hsc, ha]

theorem after_load {i : Instr} (hw : encode i = w) (ho : opcode w = OP_LOAD) {o : Rv32.LoadOp}
    (h3 : funct3 w = o.f3) {rd : BitVec 5} (hrd : rdField w = rd) {x : Word} (hx : A.rs1 w + Decode.imm w = x) :
    after mem₀ A w = if o.width ∣ x.toNat then some ((hart mem₀ A).set rd (o.value (hart mem₀ A).mem x)).next
      else none := by
  have hl : Decode.isLoad w = true := by simp [Decode.isLoad, ho]
  have hls : (Decode.isLoad w || Decode.isStore w) = true := by rw [hl, Bool.true_or]
  have haddr : lsAddr w (A.rs1 w) = x := (lsAddr_of_access hls _).trans hx
  have hwidth : width (funct3 w) = o.width := by rw [h3]; cases o <;> rfl
  have hf : Loads (funct3 w) := by rw [h3]; cases o <;> decide
  have hst := straddles_iff (.inl ho) (.inl hf) (A.rs1 w)
  rw [haddr, hwidth] at hst
  obtain ⟨hs, hn⟩ := strays_of_opcode (w := w) (by rw [ho]; decide) (by rw [ho]; decide) (by rw [ho]; decide) A.pc
    (A.rs1 w) (A.rs2 w)
  have hwr : Decode.writesRd w = (rdField w != 0#5) := writesRd_of_opcode (by tauto)
  have hm : A.makes mem₀ w = [A.readAccess w] := Arch.makes_read (by rw [hl, Bool.true_or])
  rw [after, sound_encode hw, hs, Bool.not_false, Bool.true_and]
  by_cases hd : o.width ∣ x.toNat
  · have hst' : straddles w (A.rs1 w) = false := by
      rw [Bool.eq_false_iff, ne_eq, hst, not_not]
      exact hd
    have hr : A.result mem₀ w = o.value (hart mem₀ A).mem x := by
      rw [Arch.result, if_pos hls, hm, Arch.readAccess, contents_read, Arch.addr, haddr, h3]
      exact loadValue_hart o hd
    obtain ⟨hlr, hsc, hamo⟩ := Decode.not_atomic_of_access hls
    have hmem : byteMemory mem₀ (A.accesses ++ [A.readAccess w]) = byteMemory mem₀ A.accesses :=
      byteMemory_read _ rfl
    have he : hart mem₀ (A.exec mem₀ w) = ((hart mem₀ A).set rd (o.value (hart mem₀ A).mem x)).next := by
      unfold hart Arch.exec
      rw [hn, hwr, hrd, hr, registers_write, hm, hmem, hlr, hsc, hamo]
      rfl
    rw [hst', if_pos hd, he]
    rfl
  · rw [hst.mpr hd, if_neg hd]
    rfl

theorem after_store {i : Instr} (hw : encode i = w) (ho : opcode w = OP_STORE) {o : Rv32.StoreOp}
    (h3 : funct3 w = o.f3) {x y : Word} (hx : A.rs1 w + Decode.imm w = x) (hy : A.rs2 w = y) :
    after mem₀ A w = if o.width ∣ x.toNat then
        some { hart mem₀ A with mem := Rv32.store (hart mem₀ A).mem x o.width y }.next
      else none := by
  have hsw : Decode.isStore w = true := by simp [Decode.isStore, ho]
  have hls : (Decode.isLoad w || Decode.isStore w) = true := by rw [hsw, Bool.or_true]
  have haddr : lsAddr w (A.rs1 w) = x := (lsAddr_of_access hls _).trans hx
  have hwidth : width (funct3 w) = o.width := by rw [h3]; cases o <;> rfl
  have hf : Stores (funct3 w) := by rw [h3]; cases o <;> decide
  have hst := straddles_iff (.inr ho) (.inr hf) (A.rs1 w)
  rw [haddr, hwidth] at hst
  obtain ⟨hs, hn⟩ := strays_of_opcode (w := w) (by rw [ho]; decide) (by rw [ho]; decide) (by rw [ho]; decide) A.pc
    (A.rs1 w) (A.rs2 w)
  have hm : A.makes mem₀ w = [A.writeAccess mem₀ w] := Arch.makes_store hsw
  rw [after, sound_encode hw, hs, Bool.not_false, Bool.true_and]
  by_cases hd : o.width ∣ x.toNat
  · have hst' : straddles w (A.rs1 w) = false := by
      rw [Bool.eq_false_iff, ne_eq, hst, not_not]
      exact hd
    obtain ⟨hlr, hsc, hamo⟩ := Decode.not_atomic_of_access hls
    have hacc : A.writeAccess mem₀ w =
        .write (alignWord x) (size w) (laneData (funct3 w) x y) (laneMask (funct3 w) x) := by
      rw [Arch.writeAccess, if_pos hsw, Arch.addr, haddr, hy]
    have hmem : byteMemory mem₀ (A.accesses ++ [A.writeAccess mem₀ w]) =
        Rv32.store (byteMemory mem₀ A.accesses) x o.width y := by
      rw [hacc, byteMemory_write _ hf (hwidth ▸ hd), hwidth]
    have he : hart mem₀ (A.exec mem₀ w) =
        { hart mem₀ A with mem := Rv32.store (hart mem₀ A).mem x o.width y }.next := by
      unfold hart Arch.exec
      rw [hn, Decode.writesRd_of_isStore hsw, registers_keep, hm, hmem, hlr, hsc, hamo]
      rfl
    rw [hst', if_pos hd, he]
    rfl
  · rw [hst.mpr hd, if_neg hd]
    rfl

/-! ## Atomic instructions -/

section
variable (hat : Decode.isAtomic w = true)
include hat

theorem addr_atomic : A.addr w = A.rs1 w := by rw [Arch.addr, lsAddr, if_pos hat]

theorem old_hart (hd : 4 ∣ (A.rs1 w).toNat) : A.old mem₀ w = Rv32.load (hart mem₀ A).mem (A.rs1 w) 4 := by
  rw [Arch.old, addr_atomic hat]
  exact load_word hd

/-- A store of an SC or an AMO. -/
theorem byteMemory_atomic (hd : 4 ∣ (A.rs1 w).toNat) (x : Word) :
    byteMemory mem₀ (l ++ [.write (alignWord (A.addr w)) (size w) x 0b1111#4]) =
      Rv32.store (byteMemory mem₀ l) (A.rs1 w) 4 x := by
  rw [addr_atomic hat]
  exact byteMemory_write F3_SW (by decide) hd (size w) x

theorem after_atomic {i : Instr} (hw : encode i = w) : after mem₀ A w = if 4 ∣ (A.rs1 w).toNat then
    some {
      pc := A.pc + 4#32
      regs := (registers A.regs).set (rdField w) (A.result mem₀ w)
      mem := byteMemory mem₀ (A.accesses ++ A.makes mem₀ w)
      link := if Decode.isLr w then some ((A.rs1 w).extractLsb' 2 30) else none }
    else none := by
  have ho : opcode w = OP_AMO := Decode.opcode_of_isAtomic hat
  obtain ⟨hs, hn⟩ := strays_of_opcode (w := w) (by rw [ho]; decide) (by rw [ho]; decide) (by rw [ho]; decide) A.pc
    (A.rs1 w) (A.rs2 w)
  have hst : straddles w (A.rs1 w) = misaligned (A.rs1 w) := by
    rw [straddles, hat, Bool.true_or, if_pos rfl, lsAddr, if_pos hat]
  have hwr : Decode.writesRd w = (rdField w != 0#5) := by
    simp [Decode.writesRd, hat]
  have hlink : (Decode.isLr w || (Decode.isSc w || Decode.isAmoRmw w)) = true := by
    rw [← Bool.or_assoc]
    exact hat
  rw [after, sound_encode hw, hs, hst, Bool.not_false, Bool.true_and]
  have he : hart mem₀ (A.exec mem₀ w) = {
      pc := A.pc + 4#32
      regs := (registers A.regs).set (rdField w) (A.result mem₀ w)
      mem := byteMemory mem₀ (A.accesses ++ A.makes mem₀ w)
      link := if Decode.isLr w then some ((A.rs1 w).extractLsb' 2 30) else none } := by
    unfold hart Arch.exec
    rw [hn, hwr, registers_write, addr_atomic hat]
    cases hlr : Decode.isLr w
    · rw [hlr, Bool.false_or] at hlink
      rw [hlink]
      rfl
    · rfl
  rw [he]
  by_cases hd : 4 ∣ (A.rs1 w).toNat
  · have hm : misaligned (A.rs1 w) = false := by
      rw [Bool.eq_false_iff, ne_eq, misaligned_iff, not_not]
      exact hd
    rw [hm, if_pos hd]
    rfl
  · rw [misaligned_iff.mpr hd, if_neg hd]
    rfl

end

theorem isLr_encode (rd rs1 : BitVec 5) (q : BitVec 2) : Decode.isLr (encode (.lr rd rs1 q)) = true := by
  have ho : opcode (encode (.lr rd rs1 q)) = OP_AMO := opcode_word _
  have h3 : funct3 (encode (.lr rd rs1 q)) = F3_AMO_W := funct3_word _
  have h5 : amoFunct5 (encode (.lr rd rs1 q)) = AMO_LR := (amoFunct5_word _).trans (funct5_append _ q)
  have hrs2 : rs2Field (encode (.lr rd rs1 q)) = 0#5 := rs2Field_word _
  simp [Decode.isLr, Decode.isAmoW, Decode.isAmo, ho, h3, h5, hrs2]

theorem isSc_encode (rd rs1 rs2 : BitVec 5) (q : BitVec 2) : Decode.isSc (encode (.sc rd rs1 rs2 q)) = true := by
  have ho : opcode (encode (.sc rd rs1 rs2 q)) = OP_AMO := opcode_word _
  have h3 : funct3 (encode (.sc rd rs1 rs2 q)) = F3_AMO_W := funct3_word _
  have h5 : amoFunct5 (encode (.sc rd rs1 rs2 q)) = AMO_SC := (amoFunct5_word _).trans (funct5_append _ q)
  simp [Decode.isSc, Decode.isAmoW, Decode.isAmo, ho, h3, h5]

theorem isAmoRmw_encode (o : Rv32.AmoOp) (rd rs1 rs2 : BitVec 5) (q : BitVec 2) :
    Decode.isAmoRmw (encode (.amo o rd rs1 rs2 q)) = true ∧ amoFunct5 (encode (.amo o rd rs1 rs2 q)) = o.f5 := by
  have ho : opcode (encode (.amo o rd rs1 rs2 q)) = OP_AMO := opcode_word _
  have h3 : funct3 (encode (.amo o rd rs1 rs2 q)) = F3_AMO_W := funct3_word _
  have h5 : amoFunct5 (encode (.amo o rd rs1 rs2 q)) = o.f5 := (amoFunct5_word _).trans (funct5_append _ q)
  refine ⟨?_, h5⟩
  cases o <;>
    simp [Decode.isAmoRmw, Decode.isLr, Decode.isSc, Decode.isAmoW, Decode.isAmo, ho, h3, h5, Rv32.AmoOp.f5, AMO_LR,
      AMO_SC, AMO_SWAP, AMO_ADD, AMO_XOR, AMO_AND, AMO_OR, AMO_MIN, AMO_MAX, AMO_MINU, AMO_MAXU]

theorem after_lr {rd rs1 : BitVec 5} {q : BitVec 2} (hw : encode (.lr rd rs1 q) = w) :
    after mem₀ A w = (hart mem₀ A).exec (.lr rd rs1 q) := by
  have hrs1 : rs1Field w = rs1 := hw ▸ rs1Field_word _
  have hrd : rdField w = rd := hw ▸ rdField_word _
  have hlr : Decode.isLr w = true := hw ▸ isLr_encode rd rs1 q
  have hat : Decode.isAtomic w = true := by simp [Decode.isAtomic, hlr]
  have ha : A.rs1 w = (hart mem₀ A).regs.get rs1 := congrArg A.regs.read hrs1
  obtain ⟨hl, hs⟩ := Decode.of_isAmo (Decode.isAmo_of_isLr hlr)
  have hm : A.makes mem₀ w = [A.readAccess w] := Arch.makes_read (by rw [hlr, Bool.or_true])
  have hr : A.result mem₀ w = A.old mem₀ w := by simp [Arch.result, hl, hs, hlr]
  rw [after_atomic hat hw, hlr, hm, byteMemory_read _ rfl, hr, hrd, ha, Rv32.State.exec]
  by_cases hd : 4 ∣ (A.rs1 w).toNat
  · rw [old_hart hat hd, ha]
    rfl
  · rw [ha] at hd
    simp only [hd, if_false]

theorem after_sc {rd rs1 rs2 : BitVec 5} {q : BitVec 2} (hw : encode (.sc rd rs1 rs2 q) = w) :
    after mem₀ A w = (hart mem₀ A).exec (.sc rd rs1 rs2 q) := by
  have hrs2 : rs2Field w = rs2 := hw ▸ rs2Field_word _
  have hrs1 : rs1Field w = rs1 := hw ▸ rs1Field_word _
  have hrd : rdField w = rd := hw ▸ rdField_word _
  have hsc : Decode.isSc w = true := hw ▸ isSc_encode rd rs1 rs2 q
  have hat : Decode.isAtomic w = true := by simp [Decode.isAtomic, hsc]
  obtain ⟨hlr, hamo⟩ := Decode.of_isSc hsc
  obtain ⟨hl, hs⟩ := Decode.of_isAmo (Decode.isAmo_of_isSc hsc)
  have ha : A.rs1 w = (hart mem₀ A).regs.get rs1 := congrArg A.regs.read hrs1
  have hb : A.rs2 w = (hart mem₀ A).regs.get rs2 := congrArg A.regs.read hrs2
  have hr : A.result mem₀ w = if A.scHit w then 0#32 else 1#32 := by simp [Arch.result, hl, hs, hlr, hamo, hsc]
  have hwr : A.writeAccess mem₀ w = .write (alignWord (A.addr w)) (size w) (A.rs2 w) 0b1111#4 := by
    simp [Arch.writeAccess, hs, hsc]
  have hhit : A.scHit w = true ↔ (hart mem₀ A).link = some (Rv32.State.word ((hart mem₀ A).regs.get rs1)) := by
    rw [Arch.scHit, addr_atomic hat, ha, beq_iff_eq]
    rfl
  rw [after_atomic hat hw, Arch.makes_sc hsc, hr, hrd, hlr, hwr, Rv32.State.exec]
  by_cases hd : 4 ∣ (A.rs1 w).toNat
  · rw [if_pos hd]
    rw [ha] at hd
    simp only [hd, if_true]
    by_cases hh : A.scHit w = true
    · rw [if_pos (hhit.mp hh), hh]
      simp only [if_true]
      rw [byteMemory_atomic hat (ha ▸ hd), ha, hb]
      rfl
    · rw [if_neg (hhit.not.mp hh), Bool.eq_false_iff.mpr hh, if_neg Bool.false_ne_true, if_neg Bool.false_ne_true,
        List.append_nil]
      rfl
  · rw [if_neg hd]
    rw [ha] at hd
    simp only [hd, if_false]

theorem after_amo {o : Rv32.AmoOp} {rd rs1 rs2 : BitVec 5} {q : BitVec 2} (hw : encode (.amo o rd rs1 rs2 q) = w) :
    after mem₀ A w = (hart mem₀ A).exec (.amo o rd rs1 rs2 q) := by
  have hrs2 : rs2Field w = rs2 := hw ▸ rs2Field_word _
  have hrs1 : rs1Field w = rs1 := hw ▸ rs1Field_word _
  have hrd : rdField w = rd := hw ▸ rdField_word _
  obtain ⟨hrmw, h5⟩ : Decode.isAmoRmw w = true ∧ amoFunct5 w = o.f5 := hw ▸ isAmoRmw_encode o rd rs1 rs2 q
  have hat : Decode.isAtomic w = true := by simp [Decode.isAtomic, hrmw]
  obtain ⟨hamo, hlr, hsc⟩ := Decode.of_isAmoRmw hrmw
  obtain ⟨hl, hs⟩ := Decode.of_isAmo hamo
  have ha : A.rs1 w = (hart mem₀ A).regs.get rs1 := congrArg A.regs.read hrs1
  have hb : A.rs2 w = (hart mem₀ A).regs.get rs2 := congrArg A.regs.read hrs2
  have hr : A.result mem₀ w = A.old mem₀ w := by simp [Arch.result, hl, hs, hlr, hrmw]
  have hwr : A.writeAccess mem₀ w =
      .write (alignWord (A.addr w)) (size w) (amoValue o.f5 (A.old mem₀ w) (A.rs2 w)) 0b1111#4 := by
    simp [Arch.writeAccess, hs, hsc, h5]
  have happ : A.accesses ++ A.makes mem₀ w = A.accesses ++ [A.readAccess w] ++ [A.writeAccess mem₀ w] := by
    rw [Arch.makes_amo hrmw, List.append_assoc]
    rfl
  rw [after_atomic hat hw, happ, hr, hrd, hlr, hwr, Rv32.State.exec]
  by_cases hd : 4 ∣ (A.rs1 w).toNat
  · rw [if_pos hd, byteMemory_atomic hat hd, byteMemory_read _ rfl, old_hart hat hd, amoValue_value, ha, hb]
    rw [ha] at hd
    simp only [hd, if_true]
    rfl
  · rw [if_neg hd]
    rw [ha] at hd
    simp only [hd, if_false]

/-! ## All instructions -/

theorem imm_branch (f : Rv32.Fields) (h : f.op = OP_BRANCH) : Decode.imm f.word = immB f.word := by
  have ho : opcode f.word = OP_BRANCH := (opcode_word f).trans h
  simp [Decode.imm, Decode.isLui, Decode.isAuipc, Decode.isJal, Decode.isStore, Decode.isBranch, ho, OP_BRANCH, OP_LUI,
    OP_AUIPC, OP_JAL, OP_STORE]

theorem imm_store (f : Rv32.Fields) (h : f.op = OP_STORE) : Decode.imm f.word = immS f.word := by
  have ho : opcode f.word = OP_STORE := (opcode_word f).trans h
  simp [Decode.imm, Decode.isLui, Decode.isAuipc, Decode.isJal, Decode.isStore, ho, OP_LUI, OP_AUIPC, OP_JAL, OP_STORE]

theorem imm_jal (f : Rv32.Fields) (h : f.op = OP_JAL) : Decode.imm f.word = immJ f.word := by
  have ho : opcode f.word = OP_JAL := (opcode_word f).trans h
  simp [Decode.imm, Decode.isLui, Decode.isAuipc, Decode.isJal, ho, OP_LUI, OP_AUIPC, OP_JAL]

theorem imm_load (f : Rv32.Fields) (h : f.op = OP_LOAD ∨ f.op = OP_JALR) : Decode.imm f.word = immI f.word := by
  have ho : opcode f.word = OP_LOAD ∨ opcode f.word = OP_JALR := by rwa [opcode_word]
  rcases ho with ho | ho <;>
    simp [Decode.imm, Decode.isLui, Decode.isAuipc, Decode.isJal, Decode.isStore, Decode.isBranch, ho, OP_LUI,
      OP_AUIPC, OP_JAL, OP_STORE, OP_BRANCH, OP_LOAD, OP_JALR]

/-- The machine of the decoder wires does with the word of an instruction what the instruction does. -/
theorem after_encode (mem₀ : Word → Word) (A : Arch) (i : Instr) :
    after mem₀ A (encode i) = (hart mem₀ A).exec i := by
  have hop : opcode (encode i) = i.fields.op := opcode_word _
  have hrd : rdField (encode i) = i.fields.rd := rdField_word _
  have h3 : funct3 (encode i) = i.fields.f3 := funct3_word _
  have hrs1 : A.rs1 (encode i) = (hart mem₀ A).regs.get i.fields.rs1 := congrArg A.regs.read (rs1Field_word _)
  have hrs2 : A.rs2 (encode i) = (hart mem₀ A).regs.get i.fields.rs2 := congrArg A.regs.read (rs2Field_word _)
  cases i with
  | lui rd v => exact after_compute rfl (.inl hop) hrd (arith_encode_lui _ _ _ rd v)
  | auipc rd v => exact after_compute rfl (.inr (.inl hop)) hrd (arith_encode_auipc _ _ _ rd v)
  | jal rd v =>
      refine after_jump rfl (.inl hop) hrd ?_
      have himm : Decode.imm (encode (.jal rd v)) = (v ++ 0#1).signExtend 32 := by
        rw [encode, imm_jal _ rfl, immJ_word, Instr.fields, Rv32.immJ_typeJ]
      have hj : Decode.isJalr (encode (.jal rd v)) = false ∧ Decode.isJal (encode (.jal rd v)) = true := by
        rw [Decode.isJalr, Decode.isJal, hop]
        exact ⟨rfl, rfl⟩
      rw [nextPc, hj.1, hj.2, himm]
      rfl
  | jalr rd rs1 v =>
      refine after_jump rfl (.inr hop) hrd ?_
      have himm : Decode.imm (encode (.jalr rd rs1 v)) = v.signExtend 32 := by
        rw [encode, imm_load _ (.inr rfl), immI_word, Instr.fields, Rv32.immI_typeI]
      have hj : Decode.isJalr (encode (.jalr rd rs1 v)) = true := by
        rw [Decode.isJalr, hop]
        rfl
      rw [nextPc, hj, himm, hrs1]
      rfl
  | branch o rs1 rs2 v =>
      have hp : branchTaken (funct3 (encode (.branch o rs1 rs2 v))) (A.rs1 (encode (.branch o rs1 rs2 v)))
          (A.rs2 (encode (.branch o rs1 rs2 v))) =
            o.holds ((hart mem₀ A).regs.get rs1) ((hart mem₀ A).regs.get rs2) := by
        rw [h3, hrs1, hrs2]
        exact branchTaken_value _ _ o
      have himm : Decode.imm (encode (.branch o rs1 rs2 v)) = (v ++ 0#1).signExtend 32 := by
        rw [encode, imm_branch _ rfl, immB_word, Instr.fields, Rv32.immB_typeB]
      exact after_branch rfl hop hp himm
  | load o rd rs1 v =>
      have himm : Decode.imm (encode (.load o rd rs1 v)) = v.signExtend 32 := by
        rw [encode, imm_load _ (.inl rfl), immI_word, Instr.fields, Rv32.immI_typeI]
      exact after_load rfl hop h3 hrd (by rw [hrs1, himm]; rfl)
  | store o rs1 rs2 v =>
      have himm : Decode.imm (encode (.store o rs1 rs2 v)) = v.signExtend 32 := by
        rw [encode, imm_store _ rfl, immS_word, Instr.fields, Rv32.immS_typeS]
      exact after_store rfl hop h3 (by rw [hrs1, himm]; rfl) hrs2
  | imm o rd rs1 v =>
      refine after_compute rfl (.inr (.inr (.inl hop))) hrd ?_
      rw [arith_imm, hrs1]
      rfl
  | shift o rd rs1 n =>
      refine after_compute rfl (.inr (.inr (.inl hop))) hrd ?_
      rw [arith_shift, hrs1]
      rfl
  | reg o rd rs1 rs2 =>
      refine after_compute rfl (.inr (.inr (.inr hop))) hrd ?_
      rw [arith_reg, hrs1, hrs2]
      rfl
  | lr rd rs1 q => exact after_lr rfl
  | sc rd rs1 rs2 q => exact after_sc rfl
  | amo o rd rs1 rs2 q => exact after_amo rfl
  | fence m rs1 rd => exact after_fence rfl hop

/-- In every state the wires of the decoder and of the arithmetic units make of the word of an instruction the state
that RV32IMA defines for it, and an exception where RV32IMA defines none. -/
theorem decoder_executes (mem₀ : Word → Word) (A : Arch) (i : Instr) :
    (if A.sound (encode i) then some (hart mem₀ (A.exec mem₀ (encode i))) else none) = (hart mem₀ A).exec i :=
  after_encode mem₀ A i

/-! ## Runs -/

theorem insn_hart (hd : 4 ∣ A.pc.toNat) : A.insn mem₀ = Rv32.load (hart mem₀ A).mem (hart mem₀ A).pc 4 :=
  load_word hd

theorem fetch_hart {i : Instr} (hd : 4 ∣ A.pc.toNat) (hw : encode i = A.insn mem₀) : (hart mem₀ A).fetch = some i :=
  Rv32.State.fetch_of hd (hw.trans (insn_hart hd))

theorem hart_of_exec {i : Instr} {s : Rv32.State} (hw : encode i = w) (h : (hart mem₀ A).exec i = some s) :
    A.sound w = true ∧ s = hart mem₀ (A.exec mem₀ w) := by
  rw [← after_encode, hw, after] at h
  split_ifs at h with hs
  exact ⟨hs, (Option.some_inj.mp h).symm⟩

/-- The runs of the hart are those of the machine. -/
theorem run_hart {k : Nat} {s : Rv32.State} (h : (hart mem₀ A).run k = some s) : s = hart mem₀ (A.run mem₀ k) := by
  induction k generalizing s with
  | zero => exact (Option.some_inj.mp h).symm
  | succ k ih =>
      obtain ⟨s₁, i, h₁, hd, hw, he⟩ := Rv32.State.run_last h
      obtain rfl := ih h₁
      rw [← insn_hart hd] at hw
      exact (hart_of_exec hw he).2

/-- An instruction of a run, its word and what it does. -/
theorem step_hart {k : Nat} {s : Rv32.State} (h : (hart mem₀ A).run (k + 1) = some s) : ∃ i,
    4 ∣ (A.run mem₀ k).pc.toNat ∧ encode i = (A.run mem₀ k).insn mem₀ ∧
      (A.run mem₀ k).sound ((A.run mem₀ k).insn mem₀) = true ∧ (hart mem₀ (A.run mem₀ k)).exec i = some s := by
  obtain ⟨s₁, i, h₁, hd, hw, he⟩ := Rv32.State.run_last h
  obtain rfl := run_hart h₁
  rw [← insn_hart hd] at hw
  exact ⟨i, hd, hw, (hart_of_exec hw he).1, he⟩

/-- Of the accesses of an instruction, those before the last one leave memory as it is. -/
theorem makes_prefix {t : List Access} (h : t <+: A.makes mem₀ w) :
    t = A.makes mem₀ w ∨ byteMemory mem₀ (l ++ t) = byteMemory mem₀ l := by
  have hnil : byteMemory mem₀ (l ++ []) = byteMemory mem₀ l := by rw [List.append_nil]
  have hone {x : Access} (h : t <+: [x]) : t = [x] ∨ byteMemory mem₀ (l ++ t) = byteMemory mem₀ l := by
    rcases List.prefix_cons_iff.mp h with rfl | ⟨u, rfl, hu⟩
    · exact .inr hnil
    · rw [List.prefix_nil.mp hu]
      exact .inl rfl
  unfold Arch.makes at h ⊢
  split_ifs at h ⊢
  · exact hone h
  · exact hone h
  · rcases List.prefix_cons_iff.mp h with rfl | ⟨u, rfl, hu⟩
    · exact .inr hnil
    · rcases List.prefix_cons_iff.mp hu with rfl | ⟨v, rfl, hv⟩
      · exact .inr (byteMemory_read _ rfl)
      · rw [List.prefix_nil.mp hv]
        exact .inl rfl
  · exact .inl (List.prefix_nil.mp h)

/-- Memory goes through the states between the instructions. -/
theorem byteMemory_prefix (hnil : A.accesses = []) {k : Nat} (h : l <+: (A.run mem₀ k).accesses) :
    ∃ j, j ≤ k ∧ byteMemory mem₀ l = byteMemory mem₀ (A.run mem₀ j).accesses := by
  induction k with
  | zero =>
      have h' : l <+: A.accesses := h
      rw [hnil, List.prefix_nil] at h'
      refine ⟨0, Nat.le_refl 0, ?_⟩
      rw [h']
      exact congrArg (byteMemory mem₀) hnil.symm
  | succ k ih =>
      have hacc : (A.run mem₀ (k + 1)).accesses =
          (A.run mem₀ k).accesses ++ (A.run mem₀ k).makes mem₀ ((A.run mem₀ k).insn mem₀) := rfl
      rcases List.prefix_or_prefix_of_prefix h (hacc ▸ List.prefix_append _ _) with hp | ⟨t, rfl⟩
      · obtain ⟨j, hj, he⟩ := ih hp
        exact ⟨j, by omega, he⟩
      · rw [hacc, List.prefix_append_right_inj] at h
        rcases makes_prefix (l := (A.run mem₀ k).accesses) h with rfl | he
        · exact ⟨k + 1, Nat.le_refl _, rfl⟩
        · exact ⟨k, by omega, he⟩

/-- Where the hart keeps its code, so does the machine. -/
theorem unwritten_hart (hnil : A.accesses = []) {k n : Nat} (hrun : ((hart mem₀ A).run n).isSome)
    (hkept : (hart mem₀ A).CodeKept n) (hk : k < n) : Unwritten mem₀ A k := by
  intro l hl
  obtain ⟨j, hj, he⟩ := byteMemory_prefix hnil hl
  have hsome {m : Nat} (hm : m ≤ n) : (hart mem₀ A).run m = some (hart mem₀ (A.run mem₀ m)) := by
    obtain ⟨s, hs⟩ := Option.isSome_iff_exists.mp (Rv32.State.run_isSome hrun hm)
    rw [hs, run_hart hs]
  have hd : 4 ∣ (A.run mem₀ k).pc.toNat := by
    obtain ⟨i, hd, -⟩ := step_hart (hsome (show k + 1 ≤ n from hk))
    exact hd
  have h := hkept j k _ _ hj hk (hsome (by omega)) (hsome (by omega))
  rw [load_word hd, he]
  exact h.trans (insn_hart hd).symm

/-! ## What retires -/

/-- The instruction that `r` shows takes the hart from `s` to `s'`. -/
structure Retirement.Takes (r : Retirement) (s s' : Rv32.State) : Prop where
  pc : r.pc = s.pc
  insn : ∃ i, s.fetch = some i ∧ r.insn = encode i ∧ s.exec i = some s'
  regs : s'.regs = if r.rdWen then s.regs.set r.rd r.rdData else s.regs
  trap : r.trap = false

theorem takes_of_step {k : Nat} {s : Rv32.State} (h : (hart mem₀ A).run (k + 1) = some s) :
    ((A.run mem₀ k).retires mem₀ ((A.run mem₀ k).insn mem₀)).Takes (hart mem₀ (A.run mem₀ k)) s := by
  obtain ⟨i, hd, hw, -, he⟩ := step_hart h
  refine ⟨rfl, ⟨i, fetch_hart hd hw, hw.symm, he⟩, ?_, rfl⟩
  rw [run_hart h]
  exact registers_of_writesRd _ _

/-- Sound instructions of RV32IMA are a run of the hart. -/
theorem run_of_sound {k : Nat} (hd : 4 ∣ A.pc.toNat) (h : ∀ j, j < k →
    (A.run mem₀ j).sound ((A.run mem₀ j).insn mem₀) = true ∧ ∃ i, encode i = (A.run mem₀ j).insn mem₀) :
    (hart mem₀ A).run k = some (hart mem₀ (A.run mem₀ k)) ∧ 4 ∣ (A.run mem₀ k).pc.toNat := by
  induction k with
  | zero => exact ⟨rfl, hd⟩
  | succ k ih =>
      obtain ⟨hrun, hdk⟩ := ih fun j hj => h j (by omega)
      obtain ⟨hsound, i, hw⟩ := h k (Nat.lt_succ_self k)
      have he : (hart mem₀ (A.run mem₀ k)).exec i = some (hart mem₀ (A.run mem₀ (k + 1))) := by
        rw [← after_encode, hw, after, if_pos hsound]
        rfl
      refine ⟨?_, Rv32.State.exec_aligned he hdk⟩
      rw [Rv32.State.run_succ, hrun, Option.bind_some, Rv32.State.step, fetch_hart hdk hw, Option.bind_some, he]

end QinglongCore.Isa
