import QinglongCore.Soc.Executes

/-!
# The smoke test on the chip (`pass.S`)

The program writes `PASS` and a line feed to the console and leaves with code zero, whatever else the SRAM and the
registers hold at reset and however the console stalls.
-/

namespace QinglongCore.Sw

open Rv32 (At Goes Instr Placed Reg li)
open SocTop (In Loaded Unreset consoleByte exitCode exitWord onChip printed program run textOf)

def t0 : Reg := 5#5
def t1 : Reg := 6#5

/-- A character for the console at `t0`. -/
def emit (c : Char) : List Instr := li t1 (BitVec.ofNat 32 c.toNat) ++ [.store .sb t0 t1 0#12]

def passes : List Char := ['P', 'A', 'S', 'S', '\n']

def pass : List Instr :=
  li t0 0xD0580000#32 ++ passes.flatMap emit ++ li t0 0xD0580004#32 ++ li t1 0#32 ++
    [.store .sw t0 t1 0#12, .jal 0#5 0#20]

variable {text : Word → Prop} {a : Word} {p : List Instr} {j : Nat} {s : Rv32.State} {u : Unreset} {inp : Nat → In}

/-- The write of a character. -/
def toConsole (c : Char) : Rv32.Write := ⟨.sb, Mmio.ADDR_CONSOLE, BitVec.ofNat 32 c.toNat⟩

theorem emit_goes (hp : Placed (onChip text) a p) (h : At a p j s) {c : Char} (hseg : emit c <+: p.drop j)
    (h0 : s.regs.get t0 = Mmio.ADDR_CONSOLE) : ∃ s', Goes (onChip text) s (emit c).length [toConsole c] s' ∧
      At a p (j + (emit c).length) s' ∧ s'.regs.get t0 = Mmio.ADDR_CONSOLE := by
  obtain ⟨x, g₁, h₁, hr⟩ := hp.li_run h (by decide) ((List.prefix_append _ _).trans hseg)
  have hlast : p[j + (li t1 (BitVec.ofNat 32 c.toNat)).length]? = some (.store .sb t0 t1 0#12) :=
    Rv32.segment_get hseg (by rw [emit, List.getElem?_append_right (Nat.le_refl _), Nat.sub_self]; rfl)
  have hx0 : x.regs.get t0 = Mmio.ADDR_CONSOLE := by rw [hr]; exact h0
  have hx1 : x.regs.get t1 = BitVec.ofNat 32 c.toNat := by rw [hr]; rfl
  obtain ⟨y, g₂, h₂, hry⟩ := hp.store h₁ hlast (by rw [hx0]; exact BitVec.add_zero _) (Nat.one_dvd _) (.inr (.inl rfl))
  rw [hx1] at g₂
  refine ⟨y, ?_, ?_, by rw [hry, hx0]⟩
  · rw [emit, List.length_append]
    exact g₁.trans g₂
  · rw [emit, List.length_append, ← Nat.add_assoc]
    exact h₂

/-- A text on the console. -/
theorem print_goes (hp : Placed (onChip text) a p) (cs : List Char) (h : At a p j s)
    (hseg : cs.flatMap emit <+: p.drop j) (h0 : s.regs.get t0 = Mmio.ADDR_CONSOLE) :
    ∃ s', Goes (onChip text) s (cs.flatMap emit).length (cs.map toConsole) s' ∧
      At a p (j + (cs.flatMap emit).length) s' := by
  induction cs generalizing j s with
  | nil => exact ⟨s, Goes.refl _ s, h⟩
  | cons c cs ih =>
      rw [List.flatMap_cons] at hseg
      obtain ⟨x, g₁, h₁, hx0⟩ := emit_goes hp h ((List.prefix_append _ _).trans hseg) h0
      have hrest : cs.flatMap emit <+: p.drop (j + (emit c).length) := by
        obtain ⟨r, hr⟩ := hseg
        rw [← List.drop_drop, ← hr, List.append_assoc, List.drop_left]
        exact List.prefix_append _ _
      obtain ⟨y, g₂, h₂⟩ := ih h₁ hrest hx0
      rw [List.flatMap_cons, List.length_append]
      exact ⟨y, g₁.trans g₂, by rwa [← Nat.add_assoc]⟩

theorem pass_placed : Placed (onChip (textOf 16)) RESET_PC pass :=
  SocTop.placed_textOf (by decide) (by decide)

/-- The program comes to its last instruction. -/
theorem pass_goes (h : Loaded u pass) : ∃ x, Goes (onChip (textOf 16)) (program RESET_PC u) 15
    (passes.map toConsole ++ [⟨.sw, Mmio.ADDR_EXIT, 0#32⟩]) x ∧ At RESET_PC pass 15 x := by
  have hp := pass_placed
  have h₀ : At RESET_PC pass 0 (program RESET_PC u) := ⟨rfl, SocTop.code_of_loaded h (by decide)⟩
  obtain ⟨x₁, g₁, h₁, hr₁⟩ := @Placed.li_run _ _ _ _ _ t0 0xD0580000#32 hp h₀ (by decide) (by decide)
  obtain ⟨x₂, g₂, h₂⟩ := print_goes hp passes h₁ (by decide) (by rw [hr₁]; rfl)
  obtain ⟨x₃, g₃, h₃, hr₃⟩ := @Placed.li_run _ _ _ _ _ t0 0xD0580004#32 hp h₂ (by decide) (by decide)
  obtain ⟨x₄, g₄, h₄, hr₄⟩ := @Placed.li_run _ _ _ _ _ t1 0#32 hp h₃ (by decide) (by decide)
  have hx0 : x₄.regs.get t0 = Mmio.ADDR_EXIT := by rw [hr₄, hr₃]; rfl
  have hx1 : x₄.regs.get t1 = 0#32 := by rw [hr₄]; rfl
  obtain ⟨x₅, g₅, h₅, -⟩ := hp.store (o := .sw) h₄ rfl (by rw [hx0]; rfl) (by decide) (.inr (.inr ⟨rfl, rfl⟩))
  rw [hx1] at g₅
  exact ⟨x₅, (((g₁.trans g₂).trans g₃).trans g₄).trans g₅, h₅⟩

theorem pass_hosted (h : Loaded u pass) (n : Nat) : SocTop.Hosted (textOf 16) (program RESET_PC u) n := by
  obtain ⟨x, hx, hat⟩ := pass_goes h
  exact SocTop.hosted_spin pass_placed hx hat rfl (fun a => SocTop.textOf_sram (by decide)) n

/-- What the program has written once it spins. -/
theorem pass_written (h : Loaded u pass) (m : Nat) : (program RESET_PC u).written (15 + m) =
    passes.map toConsole ++ [⟨.sw, Mmio.ADDR_EXIT, 0#32⟩] := by
  obtain ⟨x, hx, hat⟩ := pass_goes h
  have hg := hx.trans (pass_placed.spin hat rfl m)
  rw [hg.written, List.append_nil]

def passed : List (BitVec 8) := passes.map fun c => BitVec.ofNat 8 c.toNat

theorem pass_outputs (h : Loaded u pass) (m : Nat) :
    ((program RESET_PC u).written (15 + m)).filterMap consoleByte = passed ∧
      ((program RESET_PC u).written (15 + m)).filterMap exitWord = [0#32] := by
  rw [pass_written h]
  decide

/-- With `pass.S` at the start of the SRAM, the chip never prints anything but a first part of `PASS` and a line feed;
it prints all of it, and leaves with code zero. -/
theorem pass_on_chip (u : Unreset) (inp : Nat → In) (hready : ∀ t, ∃ v, t ≤ v ∧ (inp v).consoleReady = true)
    (h : Loaded u pass) : (∀ t, printed (run RESET_PC u inp) t <+: passed) ∧
      ∃ t, (∀ v, t < v → printed (run RESET_PC u inp) v = passed) ∧ exitCode (run RESET_PC u inp t) = some 0#32 := by
  have hfirst : ∀ t, printed (run RESET_PC u inp) t <+: passed := by
    intro t
    have hp := SocTop.printed_prefix (pass_hosted h (t + 1)) (by decide) hready (Nat.lt_succ_self t)
    rw [← (pass_outputs h (t + 1)).1]
    exact hp.trans ((Rv32.State.written_prefix (Nat.le_add_left _ _)).filterMap _)
  refine ⟨hfirst, ?_⟩
  obtain ⟨t, ht⟩ := SocTop.executes_program (pass_hosted h 15) (by decide) hready (show 14 < 15 by decide)
  obtain ⟨hcons, hexit⟩ := pass_outputs h 0
  refine ⟨t, fun v hv => ?_, by rw [ht.exit, hexit]; rfl⟩
  refine (hfirst v).eq_of_length_le ?_
  rw [← hcons, ← ht.console]
  exact (SocTop.printed_mono hv).length_le

/-- The smoke test in an SRAM that is zero elsewhere. -/
def passImage : Unreset where
  regs _ := 0#32
  payload := ⟨0, false, 0, 0, 0⟩
  mem := SocTop.words pass
  aRdata := 0#32
  bRdata := 0#32

theorem pass_takingAll : (∀ t, printed (run RESET_PC passImage SocTop.takingAll) t <+: passed) ∧
    ∃ t, (∀ v, t < v → printed (run RESET_PC passImage SocTop.takingAll) v = passed) ∧
      exitCode (run RESET_PC passImage SocTop.takingAll t) = some 0#32 :=
  pass_on_chip passImage SocTop.takingAll (fun t => ⟨t, Nat.le_refl t, rfl⟩)
    (SocTop.loaded_words rfl (by decide))

end QinglongCore.Sw
