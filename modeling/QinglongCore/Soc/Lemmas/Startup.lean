import QinglongCore.Pipeline.Executes
import QinglongCore.Rv32.Assembly
import QinglongCore.Soc.Lemmas.Hosted

/-!
# Programs at the start of the SRAM

What a program that is linked to the start of the SRAM keeps to on the chip.
-/

namespace QinglongCore.SocTop

open Isa (contents)
open Rv32 (Code Conduct Goes Instr Placed encode)

variable {text : Word → Prop} {s s' : Rv32.State} {n : Nat} {l : List Rv32.Write} {u : Unreset} {p : List Instr}

/-- The hart that starts with the registers of the core and the contents of the SRAM. -/
def program (pc : Word) (u : Unreset) : Rv32.State := Isa.boot (image u.mem) pc u.regs

/-- What a program with this text keeps to. -/
def onChip (text : Word → Prop) : Conduct where
  code a := text a ∧ text (a + 4) ∧ text (a + 8)
  reads a := Fabric.isSram a = true
  writes := Allowed text

theorem hosted_of_goes (h : Goes (onChip text) s n l s') (hend : (onChip text).code s'.pc)
    (hsram : ∀ a, text a → Fabric.isSram a = true) : Hosted text s n where
  runs := by rw [h.run]; rfl
  sram := hsram
  ahead k x hk hx := by
    rcases Nat.lt_or_ge k n with hlt | hge
    · obtain ⟨y, hy⟩ := Option.isSome_iff_exists.mp
        (Rv32.State.run_isSome (show (s.run n).isSome by rw [h.run]; rfl) (show k + 1 ≤ n from hlt))
      obtain ⟨z, i, hz, hd, hw, -⟩ := Rv32.State.run_last hy
      rw [hx, Option.some_inj] at hz
      subst hz
      exact (h.keeps k x i hlt hx (Rv32.State.fetch_of hd hw)).code
    · obtain rfl : k = n := by omega
      rw [h.run, Option.some_inj] at hx
      exact hx ▸ hend
  reads k x i a hk hx hf ha := (h.keeps k x i hk hx hf).reads a ha
  writes w hw := h.writes w (h.written ▸ hw)

theorem Hosted.mono {k : Nat} (h : Hosted text s n) (hk : k ≤ n) : Hosted text s k where
  runs := Rv32.State.run_isSome h.runs hk
  sram := h.sram
  ahead j x hj := h.ahead j x (by omega)
  reads j x i a hj := h.reads j x i a (by omega)
  writes w hw := h.writes w ((Rv32.State.written_prefix hk).subset hw)

/-- A program that comes to an instruction that jumps to itself keeps to the chip for ever. -/
theorem hosted_spin {a : Word} {x : Rv32.State} {j : Nat} (hp : Placed (onChip text) a p)
    (h : Goes (onChip text) s n l x) (hx : Rv32.At a p j x) (hi : p[j]? = some (.jal 0#5 0#20))
    (hsram : ∀ a, text a → Fabric.isSram a = true) (m : Nat) : Hosted text s m := by
  have hj : j < p.length := (List.getElem?_eq_some_iff.mp hi).1
  refine (hosted_of_goes (h.trans (hp.spin hx hi m)) ?_ hsram).mono (Nat.le_add_left m n)
  rw [hx.pc]
  exact hp.code j hj

/-! ## The start of the SRAM -/

/-- The SRAM comes up with the program at its start. -/
def Loaded (u : Unreset) (p : List Instr) : Prop := ∀ j i, p[j]? = some i → u.mem (BitVec.ofNat 14 j) = encode i

/-- The program at the start of the SRAM, and zeros behind it. -/
def words (p : List Instr) (a : BitVec 14) : Word := ((p.map encode)[a.toNat]?).getD 0#32

theorem loaded_words (hu : u.mem = words p) (hp : p.length ≤ 16384) : Loaded u p := by
  intro j i hi
  have hj : j < p.length := (List.getElem?_eq_some_iff.mp hi).1
  have hn : (BitVec.ofNat 14 j).toNat = j := by
    rw [BitVec.toNat_ofNat]
    omega
  rw [hu, words, hn, List.getElem?_map, hi]
  rfl

/-- The words of a program of `n` instructions at the start of the SRAM, and two more. -/
def textOf (n : Nat) (a : Word) : Prop := RESET_PC.toNat ≤ a.toNat ∧ a.toNat < RESET_PC.toNat + 4 * (n + 2)

instance (n : Nat) (a : Word) : Decidable (textOf n a) := inferInstanceAs (Decidable (_ ∧ _))

theorem reset_toNat : RESET_PC.toNat = 0x80000000 := rfl

theorem textOf_sram (hn : n + 2 ≤ 16384) {a : Word} (h : textOf n a) : Fabric.isSram a = true := by
  rw [textOf, reset_toNat] at h
  rw [isSram_iff]
  omega

theorem code_of_loaded (h : Loaded u p) (hp : p.length ≤ 16384) : Code (program RESET_PC u).mem RESET_PC p := by
  intro j i hi
  have hj : j < p.length := (List.getElem?_eq_some_iff.mp hi).1
  have hn : (RESET_PC + BitVec.ofNat 32 (4 * j)).toNat = 0x80000000 + 4 * j := by
    rw [BitVec.toNat_add, BitVec.toNat_ofNat, reset_toNat]
    omega
  have hs : Fabric.isSram (RESET_PC + BitVec.ofNat 32 (4 * j)) = true := by
    rw [isSram_iff, hn]
    omega
  have hw : Fabric.bWordAddr (RESET_PC + BitVec.ofNat 32 (4 * j)) = BitVec.ofNat 14 j := by
    apply BitVec.eq_of_toNat_eq
    rw [Fabric.bWordAddr, BitVec.extractLsb'_toNat, hn, Nat.shiftRight_eq_div_pow, BitVec.toNat_ofNat]
    omega
  rw [← h j i hi, ← hw, image_contents u.mem hs]
  exact (Isa.load_word (show 4 ∣ _ by rw [hn]; omega)).symm

/-- A program in its text is placed. -/
theorem placed_textOf (hp : p.length ≤ n) (hn : n + 2 ≤ 16384) : Placed (onChip (textOf n)) RESET_PC p where
  aligned := by decide
  fits := by
    rw [reset_toNat]
    omega
  code j hj := by
    have hn (c : Nat) (hc : c ≤ 8) : (RESET_PC + BitVec.ofNat 32 (4 * j) + BitVec.ofNat 32 c).toNat =
        0x80000000 + 4 * j + c := by
      rw [BitVec.toNat_add, BitVec.toNat_add, BitVec.toNat_ofNat, BitVec.toNat_ofNat, reset_toNat]
      omega
    have h₀ := hn 0 (by omega)
    have h₄ : (RESET_PC + BitVec.ofNat 32 (4 * j) + 4).toNat = _ := hn 4 (by omega)
    have h₈ : (RESET_PC + BitVec.ofNat 32 (4 * j) + 8).toNat = _ := hn 8 (by omega)
    rw [BitVec.add_zero] at h₀
    simp only [onChip, textOf, reset_toNat, h₀, h₄, h₈]
    omega
  kept w hw b h₁ h₂ := by
    rw [reset_toNat] at h₁ h₂
    have habove : b.toNat < w.addr.toNat := by
      rcases hw with ⟨hs, ht⟩ | hc | ⟨hc, -⟩
      · rw [isSram_iff] at hs
        rw [textOf, Isa.alignWord_toNat, reset_toNat] at ht
        omega
      · rw [hc]
        have : Mmio.ADDR_CONSOLE.toNat = 0xD0580000 := rfl
        omega
      · rw [hc]
        have : Mmio.ADDR_EXIT.toNat = 0xD0580004 := rfl
        omega
    exact .inl habove

end QinglongCore.SocTop
