import QinglongCore.Base.Writes
import QinglongCore.Sim.Loaders

/-!
# Segments in the SRAM

What the writes of one segment do to a byte of the SRAM, and what an image has to hold.
-/

namespace QinglongCore.Elf

/-! ## Extents -/

/-- Where a segment lies: file contents, then zeros up to the memory size. -/
structure Extent where
  vaddr : Nat
  filesz : Nat
  memsz : Nat
  deriving DecidableEq

namespace Extent

/-- The addresses of the file contents. -/
def InFile (e : Extent) (a : Nat) : Prop := e.vaddr ≤ a ∧ a < e.vaddr + e.filesz

/-- All addresses of the segment. -/
def Covers (e : Extent) (a : Nat) : Prop := e.vaddr ≤ a ∧ a < e.vaddr + max e.filesz e.memsz

variable {e : Extent} {a : Nat}

theorem InFile.covers (h : e.InFile a) : e.Covers a := by
  unfold InFile Covers at *
  omega

end Extent

/-- An address in the SRAM. -/
def InSram (a : Nat) : Prop := 0x80000000 ≤ a ∧ a < 0x80010000

/-- A segment with the bytes of the file from its offset on. -/
structure Segment where
  extent : Extent
  data : Nat → BitVec 8

variable {s s' : Segment} {segs : List Segment} {a b : Nat} {mem : BitVec 14 → Word}

/-- A segment lies inside the SRAM. -/
def Extent.Inside (e : Extent) : Prop := 0x80000000 ≤ e.vaddr ∧ e.vaddr + max e.filesz e.memsz ≤ 0x80010000

/-- Two segments do not overlap. -/
def Extent.Disjoint (e e' : Extent) : Prop := ∀ a, e.Covers a → ¬ e'.Covers a

theorem Extent.Covers.inSram {e : Extent} (h : e.Covers a) (hin : e.Inside) : InSram a := by
  unfold Extent.Covers Extent.Inside InSram at *
  omega

theorem Extent.Inside.size {e : Extent} (hin : e.Inside) : e.filesz ≤ 65536 := by
  unfold Extent.Inside at hin
  omega

/-! ## What an image holds -/

/-- Every file byte is at its address, and everything else is zero. -/
def Holds (segs : List Segment) (byte : Nat → BitVec 8) : Prop :=
  ∀ a, InSram a →
    (∀ s ∈ segs, s.extent.InFile a → byte a = s.data (a - s.extent.vaddr)) ∧
      ((∀ s ∈ segs, ¬ s.extent.InFile a) → byte a = 0)

/-- The contents are settled by that. -/
theorem Holds.unique {byte byte' : Nat → BitVec 8} (h : Holds segs byte) (h' : Holds segs byte') (ha : InSram a) :
    byte a = byte' a := by
  by_cases hn : ∀ s ∈ segs, ¬ s.extent.InFile a
  · rw [(h a ha).2 hn, (h' a ha).2 hn]
  · push Not at hn
    obtain ⟨s, hs, hin⟩ := hn
    rw [(h a ha).1 s hs hin, (h' a ha).1 s hs hin]

/-! ## Words and bytes of the SRAM -/

/-- The word that holds an address. -/
def key (a : Nat) : BitVec 14 := BitVec.ofNat 14 ((a - 0x80000000) / 4)

theorem key_eq_iff (ha : InSram a) (hb : InSram b) : key a = key b ↔ a / 4 = b / 4 := by
  unfold InSram at *
  rw [key, key, ← BitVec.toNat_inj, BitVec.toNat_ofNat, BitVec.toNat_ofNat]
  omega

def byteOfWord (w : Word) (b : Nat) : BitVec 8 := w.extractLsb' (8 * b) 8

/-- The byte at an address. -/
def sramByte (mem : BitVec 14 → Word) (a : Nat) : BitVec 8 := byteOfWord (mem (key a)) (a % 4)

theorem word_ext {w w' : Word} (h : ∀ b, b < 4 → byteOfWord w b = byteOfWord w' b) : w = w' := by
  apply BitVec.eq_of_getLsbD_eq
  intro n hn
  have hb := congrArg (fun v => v.getLsbD (n % 8)) (h (n / 8) (by omega))
  simp only [byteOfWord, BitVec.getLsbD_extractLsb', Nat.div_add_mod, show n % 8 < 8 by omega, decide_true,
    Bool.true_and] at hb
  exact hb

/-- An image of the SRAM is settled by its bytes. -/
theorem sram_ext {mem mem' : BitVec 14 → Word} (h : ∀ a, InSram a → sramByte mem a = sramByte mem' a) : mem = mem' := by
  funext k
  apply word_ext
  intro b hb
  have hk := k.isLt
  have hin : InSram (0x80000000 + 4 * k.toNat + b) := by unfold InSram; omega
  have hkey : key (0x80000000 + 4 * k.toNat + b) = k := by
    apply BitVec.eq_of_toNat_eq
    rw [key, BitVec.toNat_ofNat]
    omega
  have hbyte := h _ hin
  rw [sramByte, sramByte, hkey, show (0x80000000 + 4 * k.toNat + b) % 4 = b by omega] at hbyte
  exact hbyte

@[simp] theorem byteOfWord_zero (b : Nat) : byteOfWord 0 b = 0 := by simp [byteOfWord]

/-! ## The writes of a segment -/

theorem mem_offsets {lo hi off : Nat} : off ∈ offsets lo hi ↔ ∃ m, off = lo + 4 * m ∧ off < hi := by
  rw [offsets, List.mem_range']
  constructor
  · rintro ⟨m, hm, rfl⟩
    exact ⟨m, by omega, by omega⟩
  · rintro ⟨m, rfl, hlt⟩
    exact ⟨m, by omega, by omega⟩

/-- A byte that is shifted to lane `k`. -/
theorem byteOfWord_lane (d : BitVec 8) (k : Nat) (hb : b < 4) :
    byteOfWord (d.setWidth 32 <<< (8 * k)) b = if b = k then d else 0 := by
  apply BitVec.eq_of_getLsbD_eq
  intro n hn
  simp only [byteOfWord, BitVec.getLsbD_extractLsb', BitVec.getLsbD_shiftLeft, BitVec.getLsbD_setWidth]
  by_cases hk : b = k
  · have hsub : 8 * b + n - 8 * k = n := by omega
    rw [if_pos hk, hsub]
    simp [hn, show 8 * b + n < 32 by omega, show ¬ 8 * b + n < 8 * k by omega, show n < 32 by omega]
  · rw [if_neg hk]
    rcases Nat.lt_or_ge (8 * b + n) (8 * k) with hlt | hge
    · simp [hlt]
    · rw [BitVec.getLsbD_of_ge d (8 * b + n - 8 * k) (by omega)]
      simp

theorem byteOfWord_fold (data : Nat → BitVec 8) (filesz off : Nat) (hb : b < 4) (l : List Nat) (w : Word)
    (hl : l.Nodup) (hw : b ∈ l → byteOfWord w b = 0) :
    byteOfWord (l.foldl
        (fun w b => if off + b < filesz then w ||| (data (off + b)).setWidth 32 <<< (8 * b) else w) w) b =
      if b ∈ l then if off + b < filesz then data (off + b) else 0 else byteOfWord w b := by
  induction l generalizing w with
  | nil => rfl
  | cons k l ih =>
    have hstep : byteOfWord (if off + k < filesz then w ||| (data (off + k)).setWidth 32 <<< (8 * k) else w) b =
        if b = k ∧ off + k < filesz then byteOfWord w b ||| data (off + k) else byteOfWord w b := by
      by_cases hc : off + k < filesz
      · rw [if_pos hc, byteOfWord, BitVec.extractLsb'_or]
        have hlane := byteOfWord_lane (data (off + k)) k hb
        rw [byteOfWord] at hlane
        rw [hlane]
        by_cases hk : b = k <;> simp [hk, hc, byteOfWord]
      · simp [hc]
    rw [List.foldl_cons, ih _ hl.of_cons fun hbl => ?_, hstep]
    · have hkl := (List.nodup_cons.mp hl).1
      by_cases hk : b = k
      · subst hk
        rw [if_neg hkl, if_pos List.mem_cons_self, hw List.mem_cons_self]
        by_cases hc : off + b < filesz <;> simp [hc]
      · simp [hk]
    · have hk : b ≠ k := fun hk => (List.nodup_cons.mp hl).1 (hk ▸ hbl)
      rw [hstep, if_neg (fun h => hk h.1), hw (List.mem_cons_of_mem _ hbl)]

/-- Byte `b` of a word of file contents. -/
theorem byteOfWord_fileWord (data : Nat → BitVec 8) (filesz off : Nat) (hb : b < 4) :
    byteOfWord (fileWord data filesz off) b = if off + b < filesz then data (off + b) else 0 := by
  rw [fileWord, byteOfWord_fold data filesz off hb _ _ List.nodup_range fun _ => byteOfWord_zero b,
    if_pos (List.mem_range.mpr hb)]

/-- The writes of a segment in order, by the word that they go to. -/
def Segment.writes (s : Segment) : List (BitVec 14 × Word) :=
  (offsets 0 s.extent.filesz).map (fun off => (key (s.extent.vaddr + off), fileWord s.data s.extent.filesz off)) ++
    (offsets s.extent.filesz s.extent.memsz).map fun off => (key (s.extent.vaddr + off), 0)

/-- A write of a segment carries a word of its file contents, or zeros behind them. -/
theorem mem_writes {w : BitVec 14 × Word} (hw : w ∈ s.writes) :
    (∃ m, 4 * m < s.extent.filesz ∧ w = (key (s.extent.vaddr + 4 * m), fileWord s.data s.extent.filesz (4 * m))) ∨
      ∃ m, s.extent.filesz + 4 * m < s.extent.memsz ∧ w = (key (s.extent.vaddr + (s.extent.filesz + 4 * m)), 0) := by
  rw [Segment.writes, List.mem_append, List.mem_map, List.mem_map] at hw
  rcases hw with ⟨off, hoff, rfl⟩ | ⟨off, hoff, rfl⟩
  · obtain ⟨m, rfl, hlt⟩ := mem_offsets.mp hoff
    exact .inl ⟨m, by omega, by rw [Nat.zero_add]⟩
  · obtain ⟨m, rfl, hlt⟩ := mem_offsets.mp hoff
    exact .inr ⟨m, hlt, rfl⟩

theorem fileWord_mem {m : Nat} (hm : 4 * m < s.extent.filesz) :
    (key (s.extent.vaddr + 4 * m), fileWord s.data s.extent.filesz (4 * m)) ∈ s.writes := by
  rw [Segment.writes, List.mem_append, List.mem_map]
  exact .inl ⟨4 * m, mem_offsets.mpr ⟨m, by omega, hm⟩, rfl⟩

/-! ## The load loop -/

theorem toNat_addr {v : Word} {off : Nat} (h : v.toNat + off < 2 ^ 32) : (v + BitVec.ofNat 32 off).toNat = v.toNat + off := by
  rw [BitVec.toNat_add, BitVec.toNat_ofNat, Nat.add_mod_mod, Nat.mod_eq_of_lt h]

/-- A word in range is a write. -/
theorem sramWrite_eq {w : ElfWord} (h : InSram w.byteAddr.toNat) :
    sramWrite mem w = Writes.put mem (key w.byteAddr.toNat, w.data) := by
  have hbase : (0x80000000#32).toNat = 0x80000000 := rfl
  have hsub : (w.byteAddr - SRAM_BASE).toNat = w.byteAddr.toNat - 0x80000000 := by
    have hle : SRAM_BASE ≤ w.byteAddr := BitVec.le_def.mpr h.1
    rw [BitVec.toNat_sub_of_le hle]
    rfl
  have hidx : ((w.byteAddr - SRAM_BASE) / 4#32).toNat = (w.byteAddr.toNat - 0x80000000) / 4 := by
    rw [BitVec.toNat_udiv, hsub]
    rfl
  have hge : ¬ w.byteAddr < SRAM_BASE := by
    rw [BitVec.lt_def]
    exact Nat.not_lt.mpr h.1
  have hlt : ¬ SRAM_WORDS ≤ (w.byteAddr.toNat - 0x80000000) / 4 := by
    have hhi := h.2
    unfold SRAM_WORDS
    omega
  simp only [sramWrite, hge, if_false, hidx, hlt]
  rfl

theorem foldl_sramWrite {ws : List ElfWord} (h : ∀ w ∈ ws, InSram w.byteAddr.toNat) :
    ws.foldl sramWrite mem = Writes.apply mem (ws.map fun w => (key w.byteAddr.toNat, w.data)) := by
  induction ws generalizing mem with
  | nil => rfl
  | cons w ws ih =>
    rw [List.foldl_cons, sramWrite_eq (h w List.mem_cons_self), List.map_cons, Writes.apply_cons,
      ih fun w' hw' => h w' (List.mem_cons_of_mem _ hw')]

/-- The words of a segment inside the SRAM are its writes. -/
theorem foldl_segmentWords {v : Word} {filesz memsz : Nat} {data : Nat → BitVec 8}
    (hin : Extent.Inside ⟨v.toNat, filesz, memsz⟩) :
    (segmentWords v filesz memsz data).foldl sramWrite mem =
      Writes.apply mem (Segment.writes ⟨⟨v.toNat, filesz, memsz⟩, data⟩) := by
  obtain ⟨hlo, hhi⟩ := hin
  dsimp only at hlo hhi
  have haddr : ∀ off, off < max filesz memsz → (v + BitVec.ofNat 32 off).toNat = v.toNat + off := by
    intro off hoff
    exact toNat_addr (by omega)
  have hfile : ∀ off ∈ offsets 0 filesz, off < max filesz memsz := by
    intro off hoff
    obtain ⟨m, -, hlt⟩ := mem_offsets.mp hoff
    omega
  have hzero : ∀ off ∈ offsets filesz memsz, off < max filesz memsz := by
    intro off hoff
    obtain ⟨m, -, hlt⟩ := mem_offsets.mp hoff
    omega
  have hsram : ∀ off, off < max filesz memsz → InSram (v + BitVec.ofNat 32 off).toNat := by
    intro off hoff
    rw [haddr off hoff]
    exact ⟨by omega, by omega⟩
  rw [foldl_sramWrite]
  · congr 1
    rw [segmentWords, Segment.writes, List.map_append, List.map_map, List.map_map]
    refine congrArg₂ _ (List.map_congr_left ?_) (List.map_congr_left ?_)
    · intro off hoff
      rw [Function.comp_apply, haddr off (hfile off hoff)]
    · intro off hoff
      rw [Function.comp_apply, haddr off (hzero off hoff)]
  · intro w hw
    rw [segmentWords, List.mem_append, List.mem_map, List.mem_map] at hw
    rcases hw with ⟨off, hoff, rfl⟩ | ⟨off, hoff, rfl⟩
    · exact hsram off (hfile off hoff)
    · exact hsram off (hzero off hoff)

end QinglongCore.Elf
