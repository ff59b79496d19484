import QinglongCore.Isa.Effects
import QinglongCore.Pipeline.Refinement
import QinglongCore.Soc.Lemmas.Mirror

/-!
# Programs that keep to the chip

A program of RV32IMA that reads data from the SRAM, and writes to the SRAM beside its own text and to the console
port, makes only accesses that the chip answers as a memory does.
-/

namespace QinglongCore.SocTop

open Isa (Access Arch Reaches contents hart storeOf)

variable {mem₀ : Word → Word} {text : Word → Prop} {w : Rv32.Write} {A : Arch} {n k : Nat}

/-- The words that the SRAM holds, and zero elsewhere. -/
def image (mem : BitVec 14 → Word) (a : Word) : Word := if Fabric.isSram a then mem (Fabric.bWordAddr a) else 0#32

/-- The byte that a write of the program sends to the console. -/
def consoleByte (w : Rv32.Write) : Option (BitVec 8) :=
  if w.addr = Mmio.ADDR_CONSOLE then some (w.value.extractLsb' 0 8) else none

/-- The code that a write of the program leaves with. -/
def exitWord (w : Rv32.Write) : Option Word := if w.addr = Mmio.ADDR_EXIT then some w.value else none

/-- The write is to the SRAM beside the text, to the console or to the exit register. -/
def Allowed (text : Word → Prop) (w : Rv32.Write) : Prop :=
  (Fabric.isSram w.addr = true ∧ ¬ text (alignWord w.addr)) ∨ w.addr = Mmio.ADDR_CONSOLE ∨
    (w.addr = Mmio.ADDR_EXIT ∧ w.op = .sw)

/-- The first `n` instructions keep to the chip. The words at each pc and the two words behind it are text, for the
core fetches ahead. -/
structure Hosted (text : Word → Prop) (s₀ : Rv32.State) (n : Nat) : Prop where
  runs : (s₀.run n).isSome
  sram : ∀ a, text a → Fabric.isSram a = true
  ahead : ∀ k s, k ≤ n → s₀.run k = some s → text s.pc ∧ text (s.pc + 4) ∧ text (s.pc + 8)
  reads : ∀ k s i a, k < n → s₀.run k = some s → s.fetch = some i → s.reads i = some a → Fabric.isSram a = true
  writes : ∀ w ∈ s₀.written n, Allowed text w

/-! ## One instruction -/

theorem image_contents (mem : BitVec 14 → Word) {a : Word} (h : Fabric.isSram a = true) :
    mem (Fabric.bWordAddr a) = contents (image mem) [] a := by
  show _ = image mem (alignWord a)
  rw [image, isSram_alignWord, h, if_pos rfl]
  congr 1
  exact (bWordAddr_inj h (isSram_alignWord.trans h)).mpr (Isa.alignWord_alignWord a).symm

theorem fits_reaches {l : List Access} {a : Option Word} {x : Option Rv32.Write} (h : Reaches l a x)
    (hsram : ∀ b, text b → Fabric.isSram b = true) (hr : ∀ b, a = some b → Fabric.isSram b = true)
    (hx : ∀ w, x = some w → Allowed text w) : ∀ y ∈ l, Fits text y := by
  intro y hy
  cases hs : y.store with
  | none =>
      obtain ⟨b, hb, hab⟩ := h.reads y hy hs
      have hsb : Fabric.isSram y.addr = true := by rw [hab, isSram_alignWord, hr b hb]
      exact ⟨by rw [hab, Isa.alignWord_alignWord], .inl hsb, fun _ => hsb, fun hn => absurd hs hn⟩
  | some st =>
      have hmem : st ∈ l.filterMap Access.store := List.mem_filterMap.mpr ⟨y, hy, hs⟩
      rw [h.writes, List.mem_map] at hmem
      obtain ⟨w, hw, rfl⟩ := hmem
      have hal := hx w (Option.mem_toList.mp hw)
      have hya : y.addr = alignWord w.addr := by
        cases y with
        | read b z => cases hs
        | write b z d m => exact congrArg Isa.Store.addr (Option.some_inj.mp hs)
      have hport : ∀ b, IsPort b → w.addr = b → alignWord w.addr = b := by
        rintro b (rfl | rfl) hb <;> rw [hb] <;> rfl
      refine ⟨by rw [hya, Isa.alignWord_alignWord], ?_, fun hn => absurd (hs.symm.trans hn) (Option.some_ne_none _),
        fun _ ht => ?_⟩
      · rcases hal with ⟨hsr, -⟩ | hc | ⟨hc, -⟩
        · exact .inl (by rw [hya, isSram_alignWord, hsr])
        · exact .inr (.inl (hya.trans (hport _ (.inl rfl) hc)))
        · exact .inr (.inr (hya.trans (hport _ (.inr rfl) hc)))
      · rw [hya] at ht
        rcases hal with ⟨-, hnt⟩ | hc | ⟨hc, -⟩
        · exact hnt ht
        · rw [hport _ (.inl rfl) hc] at ht
          exact absurd (hsram _ ht) (by decide)
        · rw [hport _ (.inr rfl) hc] at ht
          exact absurd (hsram _ ht) (by decide)

/-- What a store on the bus sends to the console. -/
def storeByte (st : Isa.Store) : Option (BitVec 8) :=
  if st.addr = Mmio.ADDR_CONSOLE ∧ st.mask.getLsbD 0 = true then some (st.data.extractLsb' 0 8) else none

def storeExit (st : Isa.Store) : Option Word := if st.addr = Mmio.ADDR_EXIT then some st.data else none

/-- No address of the console port is one of the SRAM. -/
theorem alignWord_ne_port {a b : Word} (ha : Fabric.isSram a = true) (hb : IsPort b) : a ≠ b ∧ alignWord a ≠ b := by
  have hn := not_isSram_of_port hb
  constructor <;> rintro rfl
  · rw [ha] at hn
    cases hn
  · rw [isSram_alignWord, ha] at hn
    cases hn

/-- The low lane at the console carries the low byte. -/
theorem lanes_console (o : Rv32.StoreOp) (v : Word) : (Isa.laneMask o.f3 Mmio.ADDR_CONSOLE).getLsbD 0 = true ∧
    (Isa.laneData o.f3 Mmio.ADDR_CONSOLE v).extractLsb' 0 8 = v.extractLsb' 0 8 := by
  cases o with
  | sb => exact ⟨rfl, BitVec.extractLsb'_append_eq_right⟩
  | sh =>
      refine ⟨rfl, ?_⟩
      have hd : Isa.laneData F3_SH Mmio.ADDR_CONSOLE v = 0#16 ++ v.extractLsb' 0 16 := rfl
      show (Isa.laneData F3_SH Mmio.ADDR_CONSOLE v).extractLsb' 0 8 = _
      rw [hd, BitVec.extractLsb'_append_eq_of_add_le (by decide), BitVec.extractLsb'_extractLsb'_of_le (by decide)]
  | sw => exact ⟨rfl, rfl⟩

theorem storeByte_of (h : Allowed text w) : storeByte (storeOf w) = consoleByte w := by
  have haddr : (storeOf w).addr = alignWord w.addr := rfl
  rw [storeByte, consoleByte, haddr]
  rcases h with ⟨hs, -⟩ | hc | ⟨he, -⟩
  · obtain ⟨h₁, h₂⟩ := alignWord_ne_port hs (.inl rfl)
    rw [if_neg fun h => h₂ h.1, if_neg h₁]
  · obtain ⟨hm, hd⟩ := lanes_console w.op w.value
    rw [if_pos ⟨by rw [hc]; decide, by rw [← hc] at hm; exact hm⟩, if_pos hc, ← hd, ← hc]
    rfl
  · rw [he, if_neg fun h => absurd h.1 (by decide), if_neg (by decide)]

theorem storeExit_of (h : Allowed text w) : storeExit (storeOf w) = exitWord w := by
  have haddr : (storeOf w).addr = alignWord w.addr := rfl
  rw [storeExit, exitWord, haddr]
  rcases h with ⟨hs, -⟩ | hc | ⟨he, ho⟩
  · obtain ⟨h₁, h₂⟩ := alignWord_ne_port hs (.inr rfl)
    rw [if_neg h₂, if_neg h₁]
  · rw [hc, if_neg (by decide), if_neg (by decide)]
  · have hd : (storeOf w).data = w.value := by
      rw [storeOf, ho]
      rfl
    rw [hd, if_pos (by rw [he]; decide), if_pos he]

theorem filterMap_outputs (l : List Access) : l.filterMap consoleOf = (l.filterMap Access.store).filterMap storeByte ∧
    l.filterMap exitOf = (l.filterMap Access.store).filterMap storeExit := by
  rw [List.filterMap_filterMap, List.filterMap_filterMap]
  constructor <;> congr 1 <;> funext y <;> cases y <;> rfl

theorem outputs_reaches {l : List Access} {a : Option Word} {x : Option Rv32.Write} (h : Reaches l a x)
    (hx : ∀ w, x = some w → Allowed text w) : l.filterMap consoleOf = x.toList.filterMap consoleByte ∧
      l.filterMap exitOf = x.toList.filterMap exitWord := by
  obtain ⟨h₁, h₂⟩ := filterMap_outputs l
  rw [h₁, h₂, h.writes]
  cases x with
  | none => exact ⟨rfl, rfl⟩
  | some w =>
      have hw := hx w rfl
      rw [Option.toList_some, List.map_singleton, filterMap_singleton, filterMap_singleton, filterMap_singleton,
        filterMap_singleton, storeByte_of hw, storeExit_of hw]
      exact ⟨rfl, rfl⟩

/-! ## A run -/

namespace Hosted

variable (h : Hosted text (hart mem₀ A) n)
include h

theorem run_eq (hk : k ≤ n) : (hart mem₀ A).run k = some (hart mem₀ (A.run mem₀ k)) := by
  obtain ⟨s, hs⟩ := Option.isSome_iff_exists.mp (Rv32.State.run_isSome h.runs hk)
  rw [hs, Isa.run_hart hs]

/-- An instruction of the run, and where its accesses go. -/
theorem reaches (hk : k < n) : ∃ a x, Reaches ((A.run mem₀ k).makes mem₀ ((A.run mem₀ k).insn mem₀)) a x ∧
    (hart mem₀ A).written (k + 1) = (hart mem₀ A).written k ++ x.toList ∧
    (∀ b, a = some b → Fabric.isSram b = true) ∧ ∀ w, x = some w → Allowed text w := by
  obtain ⟨i, hd, hw, -, he⟩ := Isa.step_hart (h.run_eq (show k + 1 ≤ n from hk))
  have hf := Isa.fetch_hart hd hw
  have hrun := h.run_eq (show k ≤ n by omega)
  have hsucc := Rv32.State.written_succ hrun
  rw [Rv32.State.write_of_fetch hf] at hsucc
  refine ⟨_, _, hw ▸ Isa.reaches_encode he, hsucc, fun b hb => h.reads k _ i b hk hrun hf hb, fun w hwr => ?_⟩
  have hsub : (hart mem₀ A).written (k + 1) <+: (hart mem₀ A).written n := Rv32.State.written_prefix hk
  refine h.writes w (hsub.subset ?_)
  rw [hsucc, hwr]
  simp

theorem makes_fits (hk : k < n) : ∀ y ∈ (A.run mem₀ k).makes mem₀ ((A.run mem₀ k).insn mem₀), Fits text y := by
  obtain ⟨a, x, hr, -, ha, hx⟩ := h.reaches hk
  exact fits_reaches hr h.sram ha hx

/-- What the accesses of the run leave on the console port. -/
theorem outputs (hnil : A.accesses = []) (hk : k ≤ n) :
    (A.run mem₀ k).accesses.filterMap consoleOf = ((hart mem₀ A).written k).filterMap consoleByte ∧
      (A.run mem₀ k).accesses.filterMap exitOf = ((hart mem₀ A).written k).filterMap exitWord := by
  induction k with
  | zero =>
      show A.accesses.filterMap consoleOf = _ ∧ A.accesses.filterMap exitOf = _
      rw [hnil]
      exact ⟨rfl, rfl⟩
  | succ k ih =>
      obtain ⟨a, x, hr, hwr, -, hx⟩ := h.reaches (show k < n from hk)
      obtain ⟨h₁, h₂⟩ := ih (by omega)
      obtain ⟨h₃, h₄⟩ := outputs_reaches hr hx
      show ((A.run mem₀ k).accesses ++ _).filterMap consoleOf = _ ∧ ((A.run mem₀ k).accesses ++ _).filterMap exitOf = _
      rw [hwr, List.filterMap_append, List.filterMap_append, List.filterMap_append, List.filterMap_append, h₁, h₂, h₃,
        h₄]
      exact ⟨rfl, rfl⟩

theorem accesses_fit (hnil : A.accesses = []) (hk : k ≤ n) : ∀ y ∈ (A.run mem₀ k).accesses, Fits text y := by
  induction k with
  | zero =>
      intro y hy
      have hy' : y ∈ A.accesses := hy
      rw [hnil] at hy'
      cases hy'
  | succ k ih =>
      intro y hy
      rcases List.mem_append.mp (show y ∈ (A.run mem₀ k).accesses ++ _ from hy) with hy | hy
      · exact ih (by omega) y hy
      · exact h.makes_fits hk y hy

theorem aligned (hd : 4 ∣ A.pc.toNat) (hk : k ≤ n) : 4 ∣ (A.run mem₀ k).pc.toNat :=
  Rv32.State.run_aligned (s := hart mem₀ A) hd (h.run_eq hk)

/-- The program is sound, and its text is never written. -/
theorem steady (hnil : A.accesses = []) (hd : 4 ∣ A.pc.toNat) : CorePipeline.Steady mem₀ A n := by
  intro j hj
  obtain ⟨i, -, -, hs, -⟩ := Isa.step_hart (h.run_eq (show j + 1 ≤ n from hj))
  have hpc : text (alignWord (A.run mem₀ j).pc) := by
    rw [Isa.alignWord_of_aligned (h.aligned hd (by omega))]
    exact (h.ahead j _ (by omega) (h.run_eq (by omega))).1
  have hfit := h.accesses_fit hnil (show j ≤ n by omega)
  refine ⟨hs, fun l hl => ?_⟩
  rw [contents_text (fun y hy => hfit y (hl.subset hy)) hpc, Arch.insn, contents_text hfit hpc]

end Hosted

end QinglongCore.SocTop
