import QinglongCore.Soc.Executes

/-!
# The startup code on the chip (`crt0.S`)

`_start` up to the first CSR instruction: the stack pointer and the loop that clears `.bss`. It clears whole words, and
so up to three bytes behind `_bss_end`.
-/

namespace QinglongCore.Sw

open Rv32 (At Code Goes Instr Placed Reg Write la)
open SocTop (In Loaded Unreset onChip printed program run shown textOf)

namespace Crt0

def sp : Reg := 2#5
def t0 : Reg := 5#5
def t1 : Reg := 6#5

section
variable (stackTop bssStart bssEnd : Word)

def start : List Instr :=
  la sp RESET_PC stackTop ++ la t0 (RESET_PC + 8) bssStart ++ la t1 (RESET_PC + 16) bssEnd ++
    [.branch .bgeu t0 t1 8#12, .store .sw t0 0#5 0#12, .imm .addi t0 t0 4#12, .jal 0#5 0xFFFFA#20]

/-- The words that the loop clears. -/
def rounds : Nat := (bssEnd.toNat - bssStart.toNat + 3) / 4

/-- The write of round `j`. -/
def clears (j : Nat) : Write := ⟨.sw, bssStart + BitVec.ofNat 32 (4 * j), 0#32⟩

/-- Before round `j` of the loop. -/
structure Loop (j : Nat) (s : Rv32.State) : Prop where
  code : At RESET_PC (start stackTop bssStart bssEnd) 6 s
  next : s.regs.get t0 = bssStart + BitVec.ofNat 32 (4 * j)
  last : s.regs.get t1 = bssEnd
  stack : s.regs.get sp = stackTop

/-- Where the linker puts `.bss`: behind the 20 words of the startup code, in the SRAM. The linker script sets no
boundary: it is the alignment of what is in `.bss` that puts its first byte on a word. -/
structure Linked : Prop where
  aligned : bssStart ≠ bssEnd → 4 ∣ bssStart.toNat
  behind : RESET_PC.toNat + 80 ≤ bssStart.toNat
  order : bssStart.toNat ≤ bssEnd.toNat
  within : bssEnd.toNat ≤ RESET_PC.toNat + 65536

end

variable {stackTop bssStart bssEnd : Word} {u : Unreset} {inp : Nat → In} {j : Nat} {s : Rv32.State}

/-! ## The program -/

theorem placed : Placed (onChip (textOf 18)) RESET_PC (start stackTop bssStart bssEnd) :=
  SocTop.placed_textOf (by show 10 ≤ 18; decide) (by decide)

theorem start_loop (h : Loaded u (start stackTop bssStart bssEnd)) : ∃ x,
    Goes (onChip (textOf 18)) (program RESET_PC u) 6 [] x ∧ Loop stackTop bssStart bssEnd 0 x := by
  have hp := @placed stackTop bssStart bssEnd
  have h₀ : At RESET_PC (start stackTop bssStart bssEnd) 0 (program RESET_PC u) :=
    ⟨rfl, SocTop.code_of_loaded h (by show 10 ≤ 16384; decide)⟩
  obtain ⟨x₁, g₁, h₁, hr₁⟩ := @Placed.la_run _ _ _ _ _ sp stackTop hp h₀ (by decide) ⟨_, rfl⟩
  obtain ⟨x₂, g₂, h₂, hr₂⟩ := @Placed.la_run _ _ _ _ _ t0 bssStart hp h₁ (by decide) ⟨_, rfl⟩
  obtain ⟨x₃, g₃, h₃, hr₃⟩ := @Placed.la_run _ _ _ _ _ t1 bssEnd hp h₂ (by decide) ⟨_, rfl⟩
  refine ⟨x₃, (g₁.trans g₂).trans g₃, h₃, ?_, ?_, ?_⟩ <;> rw [hr₃, hr₂, hr₁]
  · exact (BitVec.add_zero _).symm
  · rfl
  · rfl

namespace Linked

variable (hl : Linked bssStart bssEnd)
include hl

theorem aligned_of_round (hj : j < rounds bssStart bssEnd) : 4 ∣ bssStart.toNat := by
  refine hl.aligned fun he => ?_
  rw [he, rounds] at hj
  omega

theorem next_toNat (hj : j ≤ rounds bssStart bssEnd) :
    (bssStart + BitVec.ofNat 32 (4 * j)).toNat = bssStart.toNat + 4 * j := by
  have h₁ := hl.within
  have h₂ := hl.order
  rw [SocTop.reset_toNat] at h₁
  rw [rounds] at hj
  rw [BitVec.toNat_add, BitVec.toNat_ofNat]
  omega

theorem clears_sram (hj : j < rounds bssStart bssEnd) : Fabric.isSram (clears bssStart j).addr = true := by
  have hn := hl.next_toNat (Nat.le_of_lt hj)
  have h₁ := hl.aligned_of_round hj
  have h₂ := hl.behind
  have h₃ := hl.within
  rw [SocTop.reset_toNat] at h₂ h₃
  rw [rounds] at hj
  rw [SocTop.isSram_iff]
  show (bssStart + BitVec.ofNat 32 (4 * j)).toNat / 65536 = 0x8000
  omega

theorem clears_allowed (hj : j < rounds bssStart bssEnd) : SocTop.Allowed (textOf 18) (clears bssStart j) := by
  have hn := hl.next_toNat (Nat.le_of_lt hj)
  have h₁ := hl.aligned_of_round hj
  have h₂ := hl.behind
  have hal : Isa.Aligned (bssStart + BitVec.ofNat 32 (4 * j)) := by
    show 4 ∣ _
    omega
  refine .inl ⟨hl.clears_sram hj, ?_⟩
  show ¬ textOf 18 (alignWord (bssStart + BitVec.ofNat 32 (4 * j)))
  rw [SocTop.reset_toNat] at h₂
  rw [Isa.alignWord_of_aligned hal, textOf, SocTop.reset_toNat]
  omega

/-- A round of the loop clears a word. -/
theorem round (hj : j < rounds bssStart bssEnd) (h : Loop stackTop bssStart bssEnd j s) :
    ∃ x, Goes (onChip (textOf 18)) s 4 [clears bssStart j] x ∧ Loop stackTop bssStart bssEnd (j + 1) x := by
  have hp := @placed stackTop bssStart bssEnd
  have hn := hl.next_toNat (Nat.le_of_lt hj)
  have hw := hl.clears_allowed hj
  obtain ⟨x₁, g₁, h₁, hr₁⟩ := hp.branch h.code (k := 10) rfl (by decide)
  have hgo : Rv32.BranchOp.holds (s.regs.get t0) (s.regs.get t1) .bgeu = false := by
    rw [h.next, h.last]
    have hlt : ¬ bssEnd.toNat ≤ bssStart.toNat + 4 * j := by
      rw [rounds] at hj
      omega
    simpa [Rv32.BranchOp.holds, hn] using hlt
  rw [hgo] at h₁
  have hd : 4 ∣ (bssStart + BitVec.ofNat 32 (4 * j)).toNat := by
    have := hl.aligned_of_round hj
    omega
  obtain ⟨x₂, g₂, h₂, hr₂⟩ := hp.store (o := .sw) h₁ rfl (by rw [hr₁, h.next]; exact BitVec.add_zero _) hd
    (by rw [hr₁, s.regs.get_zero]; exact hw)
  rw [hr₁, s.regs.get_zero] at g₂
  obtain ⟨x₃, g₃, h₃, hr₃⟩ := hp.addi h₂ rfl (by rw [hr₂, hr₁, h.next])
  obtain ⟨g₄, h₄⟩ := hp.jump h₃ (k := 6) rfl (by decide)
  refine ⟨_, ((g₁.trans g₂).trans g₃).trans g₄, h₄, ?_, ?_, ?_⟩
  · show x₃.regs.get t0 = _
    rw [hr₃]
    show bssStart + BitVec.ofNat 32 (4 * j) + 4#32 = _
    rw [BitVec.add_assoc, BitVec.ofNat_add_ofNat, Nat.mul_add]
  · show x₃.regs.get t1 = _
    rw [hr₃, hr₂, hr₁]
    exact h.last
  · show x₃.regs.get sp = _
    rw [hr₃, hr₂, hr₁]
    exact h.stack

/-- The loop ends behind the last word. -/
theorem leave (h : Loop stackTop bssStart bssEnd (rounds bssStart bssEnd) s) :
    ∃ x, Goes (onChip (textOf 18)) s 1 [] x ∧ x.pc = RESET_PC + 40 := by
  have hp := @placed stackTop bssStart bssEnd
  have hn := hl.next_toNat (Nat.le_refl _)
  obtain ⟨x, g, hx, -⟩ := hp.branch h.code (k := 10) rfl (by decide)
  have hgo : Rv32.BranchOp.holds (s.regs.get t0) (s.regs.get t1) .bgeu = true := by
    rw [h.next, h.last]
    have hle : bssEnd.toNat ≤ bssStart.toNat + 4 * rounds bssStart bssEnd := by
      rw [rounds]
      omega
    simpa [Rv32.BranchOp.holds, hn] using hle
  rw [hgo] at hx
  exact ⟨x, g, hx.pc⟩

end Linked

/-- The code up to the end of the loop. -/
theorem start_goes (hl : Linked bssStart bssEnd) (h : Loaded u (start stackTop bssStart bssEnd)) : ∃ x,
    Goes (onChip (textOf 18)) (program RESET_PC u) (6 + 4 * rounds bssStart bssEnd)
      ((List.range (rounds bssStart bssEnd)).map (clears bssStart)) x ∧
      Loop stackTop bssStart bssEnd (rounds bssStart bssEnd) x := by
  obtain ⟨x₁, g₁, h₁⟩ := start_loop h
  obtain ⟨x₂, g₂, h₂⟩ := Rv32.Goes.rounds (fun j x hj hx => hl.round hj hx) h₁
  refine ⟨x₂, ?_, h₂⟩
  have hg := g₁.trans g₂
  rwa [List.nil_append, ← List.map_eq_flatMap] at hg

/-- The memory after the writes of the first `n` rounds. -/
theorem clears_mem (m : Word → BitVec 8) (b : Word) (n : Nat) (hn : bssStart.toNat + 4 * n ≤ 2 ^ 32) :
    (((List.range n).map (clears bssStart)).foldl (fun m w => w.apply m) m) b =
      if bssStart.toNat ≤ b.toNat ∧ b.toNat < bssStart.toNat + 4 * n then 0#8 else m b := by
  induction n with
  | zero =>
      rw [if_neg (by omega)]
      rfl
  | succ n ih =>
      have haddr : (clears bssStart n).addr.toNat = bssStart.toNat + 4 * n := by
        show (bssStart + BitVec.ofNat 32 (4 * n)).toNat = _
        rw [BitVec.toNat_add, BitVec.toNat_ofNat]
        omega
      rw [List.range_succ, List.map_append, List.foldl_append, List.map_singleton, List.foldl_cons, List.foldl_nil]
      by_cases hb : bssStart.toNat + 4 * n ≤ b.toNat ∧ b.toNat < bssStart.toNat + 4 * (n + 1)
      · rw [if_pos (by omega), Write.apply, Rv32.store, haddr, ByteMemory.write_in (by exact hb)]
        exact BitVec.extractLsb'_zero
      · have hmiss : (clears bssStart n).Misses b := by
          rw [Write.Misses, haddr]
          show _ ∨ bssStart.toNat + 4 * n + 4 ≤ b.toNat
          omega
        rw [Write.apply_misses hmiss, ih (by omega)]
        refine if_congr ?_ rfl rfl
        omega

/-- A byte of the SRAM. -/
def sramByte (x : SocTop.State) (a : Word) : BitVec 8 :=
  Isa.byteAt (x.fabric.sram.mem (Fabric.bWordAddr a)) (Isa.lane a)

/-- The startup code leaves its loop on the chip: the branch at its head retires and the core goes on behind the loop.
Then the stack pointer is set, the words of `.bss` are zero, and the rest of the SRAM is what it was. -/
theorem crt0_on_chip (stackTop bssStart bssEnd : Word) (u : Unreset) (inp : Nat → In)
    (hready : ∀ t, ∃ v, t ≤ v ∧ (inp v).consoleReady = true) (hl : Linked bssStart bssEnd)
    (h : Loaded u (start stackTop bssStart bssEnd)) : ∃ t,
      (Isa.retirements (shown RESET_PC u inp) t).length = 6 + 4 * rounds bssStart bssEnd ∧
      (∃ r, (shown RESET_PC u inp t).retired = some r ∧ r.pc = RESET_PC + 24) ∧
      CorePipeline.behindPc (run RESET_PC u inp t).soc.core = RESET_PC + 40 ∧
      (Isa.registers (run RESET_PC u inp t).soc.core.regs).get sp = stackTop ∧
      printed (run RESET_PC u inp) (t + 1) = [] ∧
      ∀ a, Fabric.isSram a = true → sramByte (run RESET_PC u inp t) a =
        if bssStart.toNat ≤ a.toNat ∧ a.toNat < bssStart.toNat + 4 * rounds bssStart bssEnd then 0#8
        else sramByte (run RESET_PC u inp 0) a := by
  obtain ⟨x, g, hx⟩ := start_goes hl h
  obtain ⟨y, g', hy⟩ := hl.leave hx
  have hg := g.trans g'
  have hhost := SocTop.hosted_of_goes hg (hy ▸ show textOf 18 _ ∧ textOf 18 _ ∧ textOf 18 _ by decide)
    (fun a => SocTop.textOf_sram (by decide))
  obtain ⟨t, ht⟩ := SocTop.executes_program hhost (by decide) hready (Nat.lt_succ_self _)
  obtain ⟨s, s', r, hs, hs', hr, htakes, hregs, hmem⟩ := ht.step
  rw [g.run, Option.some_inj] at hs
  rw [hg.run, Option.some_inj] at hs'
  subst hs hs'
  have hnext := ht.next
  rw [hg.run, Option.map_some, Option.some_inj, hy] at hnext
  refine ⟨t, ht.count, ⟨r, hr, htakes.pc.trans hx.code.pc⟩, hnext.symm, ?_, ?_, fun a ha => ?_⟩
  · rw [hregs]
    exact hx.stack
  · have hnone : ∀ w ∈ (List.range (rounds bssStart bssEnd)).map (clears bssStart), SocTop.consoleByte w = none := by
      intro w hw
      obtain ⟨j, hj, rfl⟩ := List.mem_map.mp hw
      have hne := (SocTop.alignWord_ne_port (hl.clears_sram (List.mem_range.mp hj)) (.inl rfl)).1
      exact if_neg hne
    rw [ht.console, hg.written, List.append_nil]
    exact List.filterMap_eq_nil_iff.mpr hnone
  · have hbyte : sramByte (run RESET_PC u inp 0) a = (program RESET_PC u).mem a :=
      congrArg (Isa.byteAt · (Isa.lane a)) (SocTop.image_contents u.mem ha)
    have hn : bssStart.toNat + 4 * rounds bssStart bssEnd ≤ 2 ^ 32 := by
      rw [← hl.next_toNat (Nat.le_refl _)]
      exact Nat.le_of_lt (BitVec.isLt _)
    rw [hbyte, ← clears_mem _ a _ hn]
    refine (hmem a ha).trans ?_
    rw [hg.mem, List.append_nil]

/-- Startup code with a stack at the end of the SRAM and nine bytes of `.bss`, in an SRAM of ones. -/
def crt0Image : Unreset where
  regs _ := 0#32
  payload := ⟨0, false, 0, 0, 0⟩
  mem a := if a.toNat < 10 then SocTop.words (start 0x80010000#32 0x80000100#32 0x80000109#32) a else 0xFFFFFFFF#32
  aRdata := 0#32
  bRdata := 0#32

/-- Three words are cleared. -/
theorem crt0_nine : ∃ t,
    (Isa.retirements (shown RESET_PC crt0Image SocTop.takingAll) t).length =
        6 + 4 * rounds 0x80000100#32 0x80000109#32 ∧
      (∃ r, (shown RESET_PC crt0Image SocTop.takingAll t).retired = some r ∧ r.pc = RESET_PC + 24) ∧
      CorePipeline.behindPc (run RESET_PC crt0Image SocTop.takingAll t).soc.core = RESET_PC + 40 ∧
      (Isa.registers (run RESET_PC crt0Image SocTop.takingAll t).soc.core.regs).get sp = 0x80010000#32 ∧
      printed (run RESET_PC crt0Image SocTop.takingAll) (t + 1) = [] ∧
      ∀ a, Fabric.isSram a = true → sramByte (run RESET_PC crt0Image SocTop.takingAll t) a =
        if (0x80000100#32).toNat ≤ a.toNat ∧
            a.toNat < (0x80000100#32).toNat + 4 * rounds 0x80000100#32 0x80000109#32 then 0#8
        else sramByte (run RESET_PC crt0Image SocTop.takingAll 0) a := by
  refine crt0_on_chip _ _ 0x80000109#32 crt0Image SocTop.takingAll (fun t => ⟨t, Nat.le_refl t, rfl⟩)
    ⟨fun _ => by decide, by decide, by decide, by decide⟩ fun j i hi => ?_
  have hj : j < 10 := (List.getElem?_eq_some_iff.mp hi).1
  have hn : (BitVec.ofNat 14 j).toNat = j := by
    rw [BitVec.toNat_ofNat]
    omega
  show (if (BitVec.ofNat 14 j).toNat < 10 then _ else _) = _
  rw [if_pos (by omega), SocTop.words, hn, List.getElem?_map, hi]
  rfl

end Crt0

end QinglongCore.Sw
