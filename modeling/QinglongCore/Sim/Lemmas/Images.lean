import QinglongCore.Sim.Lemmas.Segments

/-!
# The images of the two loaders

Both tools read the same segments from a file. The script puts every file byte at its address; the simulator does when
the segments are aligned.
-/

namespace QinglongCore.Elf

variable {f : File} {path : String}

/-! ## The segments of a file -/

def phdrs (f : File) : List Phdr := (List.range (ePhnum f)).map fun i => phdrAt f (ePhoff f + PHDR_SIZE * i)

def loads (f : File) : List Phdr := (phdrs f).filter fun p => p.type == PT_LOAD

def Phdr.extent (p : Phdr) : Extent where
  vaddr := p.vaddr.toNat
  filesz := p.filesz.toNat
  memsz := p.memsz.toNat

def Phdr.segment (f : File) (p : Phdr) : Segment where
  extent := p.extent
  data := fun n => byteAt f (p.offset.toNat + n)

def segments (f : File) : List Segment := (loads f).map (Phdr.segment f)

/-- The extents of the loaded segments, in the order of the program headers. -/
def extents (f : File) : List Extent := (loads f).map Phdr.extent

theorem extents_eq (f : File) : extents f = (segments f).map Segment.extent := by
  simp [extents, segments, Phdr.segment]

/-- A RISC-V ELF32 file, little-endian, that holds its program headers and the contents of its segments, each of which
goes to one address. -/
structure ElfFile (f : File) : Prop where
  magic : f.take 4 = ELFMAG
  elfClass : byteAt f 4 = ELFCLASS32
  data : byteAt f 5 = ELFDATA2LSB
  machine : eMachine f = EM_RISCV
  phentsize : ePhentsize f = PHDR_SIZE
  header : EHDR_SIZE ≤ f.length
  table : ePhoff f + PHDR_SIZE * ePhnum f ≤ f.length
  paddr : ∀ p ∈ loads f, p.paddr = p.vaddr
  contents : ∀ p ∈ loads f, p.offset.toNat + p.filesz.toNat ≤ f.length

/-- The segments lie inside the SRAM and do not overlap. -/
def Fits (l : List Extent) : Prop := (∀ e ∈ l, e.Inside) ∧ l.Pairwise Extent.Disjoint

/-! ## The simulator -/

theorem loadElf32_eq (h : ElfFile f) :
    loadElf32 f path = .ok ((phdrs f).flatMap (phdrWords f)) := by
  have hlen : ¬ f.length < EHDR_SIZE := Nat.not_lt.mpr h.header
  simp [loadElf32, hlen, h.magic, h.elfClass, h.data, h.machine, phdrs, List.flatMap_map]

theorem foldl_phdrWords {p : Phdr} {mem : BitVec 14 → Word} (hp : p.type = PT_LOAD) (hpaddr : p.paddr = p.vaddr)
    (hin : p.extent.Inside) :
    (phdrWords f p).foldl sramWrite mem = Writes.apply mem (p.segment f).writes := by
  have haddr : (if p.paddr != 0 then p.paddr else p.vaddr) = p.vaddr := by rw [hpaddr, ite_self]
  rw [phdrWords, hp, haddr]
  exact foldl_segmentWords hin

/-- The SRAM of the simulator is what the writes of the segments leave. -/
theorem simImage_eq (h : ElfFile f) (hin : ∀ e ∈ extents f, e.Inside) :
    simImage f path = .ok (Writes.apply (fun _ => 0) ((segments f).flatMap Segment.writes)) := by
  have hfold : ∀ (l : List Phdr) (mem : BitVec 14 → Word),
      (∀ p ∈ l, p.type = PT_LOAD → p.paddr = p.vaddr ∧ p.extent.Inside) →
      (l.flatMap (phdrWords f)).foldl sramWrite mem =
        Writes.apply mem (((l.filter fun p => p.type == PT_LOAD).map (Phdr.segment f)).flatMap Segment.writes) := by
    intro l
    induction l with
    | nil => intro mem _; rfl
    | cons p l ih =>
      intro mem hl
      rw [List.flatMap_cons, List.foldl_append, ih _ fun q hq => hl q (List.mem_cons_of_mem _ hq)]
      by_cases hp : p.type = PT_LOAD
      · obtain ⟨hpaddr, hinp⟩ := hl p List.mem_cons_self hp
        rw [List.filter_cons_of_pos (by simpa using hp), List.map_cons, List.flatMap_cons, Writes.apply_append,
          foldl_phdrWords hp hpaddr hinp]
      · have hnil : phdrWords f p = [] := by simp [phdrWords, hp]
        rw [List.filter_cons_of_neg (by simpa using hp), hnil]
        rfl
  have hall : ∀ p ∈ phdrs f, p.type = PT_LOAD → p.paddr = p.vaddr ∧ p.extent.Inside := by
    intro p hp ht
    have hload : p ∈ loads f := List.mem_filter.mpr ⟨hp, by simpa using ht⟩
    exact ⟨h.paddr p hload, hin _ (List.mem_map_of_mem hload)⟩
  rw [simImage, loadElf32_eq h]
  exact congrArg Except.ok (hfold (phdrs f) _ hall)

/-- File contents start at a multiple of four, and end there when zeros follow them in the segment; and a segment without
file contents does not start in a word that holds file bytes of an earlier one. -/
def Aligned (l : List Extent) : Prop :=
  (∀ e ∈ l, 0 < e.filesz → e.vaddr % 4 = 0 ∧ (e.filesz < e.memsz → e.filesz % 4 = 0)) ∧
    l.Pairwise fun e e' => e'.filesz = 0 → 0 < e'.memsz → ∀ a, e.InFile a → a / 4 ≠ e'.vaddr / 4

section

variable {s s' : Segment} {a : Nat}

/-- The addresses of the writes of a segment lie in it. -/
theorem covers_write {w : BitVec 14 × Word} (hw : w ∈ s.writes) :
    ∃ x, s.extent.Covers x ∧ w.1 = key x ∧
      ((∃ m, x = s.extent.vaddr + 4 * m ∧ 4 * m < s.extent.filesz ∧
          w.2 = fileWord s.data s.extent.filesz (4 * m)) ∨
        ∃ m, x = s.extent.vaddr + (s.extent.filesz + 4 * m) ∧ s.extent.filesz + 4 * m < s.extent.memsz ∧ w.2 = 0) := by
  rcases mem_writes hw with ⟨m, hm, rfl⟩ | ⟨m, hm, rfl⟩
  · exact ⟨_, ⟨by omega, by omega⟩, rfl, .inl ⟨m, rfl, hm, rfl⟩⟩
  · exact ⟨_, ⟨by omega, by omega⟩, rfl, .inr ⟨m, rfl, hm, rfl⟩⟩

/-- The conditions on one segment. -/
def Segment.AlignedFile (s : Segment) : Prop :=
  0 < s.extent.filesz → s.extent.vaddr % 4 = 0 ∧ (s.extent.filesz < s.extent.memsz → s.extent.filesz % 4 = 0)

/-- A write of an aligned segment to the word of a file byte of it carries the byte. -/
theorem byte_own (hs : s.AlignedFile) (hin : s.extent.Inside) (ha : s.extent.InFile a) {w : BitVec 14 × Word}
    (hw : w ∈ s.writes) (hk : w.1 = key a) : byteOfWord w.2 (a % 4) = s.data (a - s.extent.vaddr) := by
  obtain ⟨x, hx, hwk, hcase⟩ := covers_write hw
  have hlo := ha.1
  have hhi := ha.2
  obtain ⟨hv, hz⟩ := hs (by omega)
  have hword := (key_eq_iff (hx.inSram hin) (ha.covers.inSram hin)).mp (hwk.symm.trans hk)
  rcases hcase with ⟨m, rfl, hm, hw2⟩ | ⟨m, rfl, hm, -⟩
  · rw [hw2, byteOfWord_fileWord _ _ _ (Nat.mod_lt _ (by decide)), show 4 * m + a % 4 = a - s.extent.vaddr by omega,
      if_pos (by omega)]
  · have hf := hz (by omega)
    omega

/-- A write of an aligned segment puts nothing but zeros outside its file contents. -/
theorem byte_outside (hs : s.AlignedFile) (hin : s.extent.Inside) (hsram : InSram a) (ha : ¬ s.extent.InFile a)
    {w : BitVec 14 × Word} (hw : w ∈ s.writes) (hk : w.1 = key a) : byteOfWord w.2 (a % 4) = 0 := by
  obtain ⟨x, hx, hwk, hcase⟩ := covers_write hw
  have hword := (key_eq_iff (hx.inSram hin) hsram).mp (hwk.symm.trans hk)
  rcases hcase with ⟨m, rfl, hm, hw2⟩ | ⟨m, -, -, hw2⟩
  · obtain ⟨hv, -⟩ := hs (by omega)
    rw [hw2, byteOfWord_fileWord _ _ _ (Nat.mod_lt _ (by decide)), if_neg]
    intro hlt
    exact ha ⟨by omega, by omega⟩
  · rw [hw2, byteOfWord_zero]

/-- A later segment does not write to the word of a file byte. -/
theorem key_other (hs : s.AlignedFile) (hs' : s'.AlignedFile) (hin : s.extent.Inside) (hin' : s'.extent.Inside)
    (hd : s.extent.Disjoint s'.extent)
    (hbss : s'.extent.filesz = 0 → 0 < s'.extent.memsz → ∀ a, s.extent.InFile a → a / 4 ≠ s'.extent.vaddr / 4)
    (ha : s.extent.InFile a) {w : BitVec 14 × Word} (hw : w ∈ s'.writes) : w.1 ≠ key a := by
  intro hk
  obtain ⟨x, hx, hwk, hcase⟩ := covers_write hw
  have hword := (key_eq_iff (hx.inSram hin') (ha.covers.inSram hin)).mp (hwk.symm.trans hk)
  have hlo := ha.1
  have hhi := ha.2
  obtain ⟨hv, -⟩ := hs (by omega)
  -- an address of the later segment that is not below the byte would lie in the file contents
  have hbelow : ∀ y, s'.extent.Covers y → y / 4 = a / 4 → a < y := by
    intro y hy hya
    by_contra hle
    exact hd y (Extent.InFile.covers ⟨by omega, by omega⟩) hy
  have hax := hbelow x hx hword
  have hnot : ¬ s'.extent.Covers a := hd a ha.covers
  rcases hcase with ⟨m, rfl, hm, -⟩ | ⟨m, rfl, hm, -⟩
  · obtain ⟨hv', -⟩ := hs' (by omega)
    omega
  · rcases Nat.eq_zero_or_pos s'.extent.filesz with hz | hpos
    · rcases Nat.eq_zero_or_pos m with hm0 | hmpos
      · exact hbss hz (by omega) a ha (by omega)
      · exact hnot ⟨by omega, by omega⟩
    · obtain ⟨hv', hf'⟩ := hs' hpos
      have hfz := hf' (by omega)
      omega

end

/-- With aligned segments the simulator puts every file byte at its address and leaves the rest zero. -/
theorem sim_holds {segs : List Segment} (hfits : Fits (segs.map Segment.extent))
    (hal : Aligned (segs.map Segment.extent)) :
    Holds segs (sramByte (Writes.apply (fun _ => 0) (segs.flatMap Segment.writes))) := by
  have hin : ∀ s ∈ segs, s.extent.Inside := fun s hs => hfits.1 _ (List.mem_map_of_mem hs)
  have hfile : ∀ s ∈ segs, s.AlignedFile := fun s hs => hal.1 _ (List.mem_map_of_mem hs)
  intro a ha
  constructor
  · intro s hs hins
    obtain ⟨before, after, rfl⟩ := List.append_of_mem hs
    have hpair := List.pairwise_map.mp hfits.2
    have hbss := List.pairwise_map.mp hal.2
    have hafter : ∀ s' ∈ after, s.extent.Disjoint s'.extent := fun s' hs' =>
      (List.pairwise_cons.mp (List.pairwise_append.mp hpair).2.1).1 s' hs'
    have hbssAfter := (List.pairwise_cons.mp (List.pairwise_append.mp hbss).2.1).1
    have hlo := hins.1
    have hhi := hins.2
    obtain ⟨hv, -⟩ := hfile s hs (by omega)
    rw [sramByte, List.flatMap_append, Writes.apply_append, List.flatMap_cons]
    refine Writes.apply_of_mem (P := fun w => byteOfWord w (a % 4) = s.data (a - s.extent.vaddr))
      (List.mem_append_left _ (fileWord_mem (m := (a - s.extent.vaddr) / 4) (by omega))) ?_ ?_
    · refine (key_eq_iff ?_ ha).mpr (by omega)
      exact Extent.Covers.inSram ⟨by omega, by omega⟩ (hin s hs)
    · intro w hw hk
      rcases List.mem_append.mp hw with hw | hw
      · exact byte_own (hfile s hs) (hin s hs) hins hw hk
      · obtain ⟨s', hs', hw'⟩ := List.mem_flatMap.mp hw
        have hmem : s' ∈ before ++ s :: after := List.mem_append_right _ (List.mem_cons_of_mem _ hs')
        exact absurd hk (key_other (hfile s hs) (hfile s' hmem) (hin s hs) (hin s' hmem) (hafter s' hs')
          (hbssAfter s' hs') hins hw')
  · intro hnone
    refine Writes.apply_induct (P := fun w => byteOfWord w (a % 4) = 0) (byteOfWord_zero _) ?_
    intro w hw hk
    obtain ⟨s, hs, hw⟩ := List.mem_flatMap.mp hw
    exact byte_outside (hfile s hs) (hin s hs) ha (hnone s hs) hw hk

/-! ## The script -/

theorem place_inside {image : Nat → BitVec 8} {v : Word} {payload : List (BitVec 8)} (hlo : 0x80000000 ≤ v.toNat)
    (hhi : v.toNat + payload.length ≤ 0x80010000) :
    place image (v, payload) = splice image (v.toNat - 0x80000000) payload := by
  have hbase : SRAM_BASE.toNat = 0x80000000 := rfl
  have hwords : (4 * (SRAM_WORDS : Int)) = 0x10000 := rfl
  have hoff : (v.toNat : Int) - (SRAM_BASE.toNat : Int) = ((v.toNat - 0x80000000 : Nat) : Int) := by
    rw [hbase]
    omega
  dsimp only [place]
  rw [hoff, hwords, if_neg (by omega), Int.toNat_natCast]

/-- The payload of a segment, byte for byte. -/
theorem getD_payload {p : Phdr} {n : Nat} (hn : n < p.filesz.toNat) :
    ((f.drop p.offset.toNat).take p.filesz.toNat).getD n 0 = (p.segment f).data n := by
  rw [List.getD_eq_getElem?_getD, List.getElem?_take_of_lt hn, List.getElem?_drop]
  rfl

def payload (f : File) (p : Phdr) : List (BitVec 8) := (f.drop p.offset.toNat).take p.filesz.toNat

theorem length_payload {p : Phdr} (h : p.offset.toNat + p.filesz.toNat ≤ f.length) :
    (payload f p).length = p.filesz.toNat := by
  rw [payload, List.length_take, List.length_drop]
  omega

theorem parsePhdrs_eq (h : ElfFile f) (is : List Nat) (his : ∀ i ∈ is, i < ePhnum f) :
    parsePhdrs f is = .ok
      (((is.map fun i => phdrAt f (ePhoff f + PHDR_SIZE * i)).filter fun p =>
        p.type == PT_LOAD && p.filesz != 0).map fun p => (p.vaddr, payload f p)) := by
  induction is with
  | nil => rfl
  | cons i is ih =>
    have hlt := his i List.mem_cons_self
    have hlen : ¬ f.length < ePhoff f + i * ePhentsize f + PHDR_SIZE := by
      have htable := h.table
      have hi := Nat.mul_le_mul_left PHDR_SIZE (Nat.succ_le_of_lt hlt)
      rw [h.phentsize, Nat.mul_comm i]
      rw [Nat.mul_succ] at hi
      omega
    rw [parsePhdrs, if_neg hlen, ih fun j hj => his j (List.mem_cons_of_mem _ hj), h.phentsize, Nat.mul_comm i,
      List.map_cons]
    generalize phdrAt f (ePhoff f + PHDR_SIZE * i) = p
    have hskip : (p.type != PT_LOAD || p.filesz == 0) = !(p.type == PT_LOAD && p.filesz != 0) := by
      simp only [bne, Bool.not_and, Bool.not_not]
    rw [hskip]
    cases hp : p.type == PT_LOAD && p.filesz != 0 with
    | true =>
      rw [List.filter_cons, if_pos hp]
      rfl
    | false =>
      rw [List.filter_cons, if_neg (by rw [hp]; decide)]
      rfl

theorem elf2mem_eq (h : ElfFile f) :
    elf2mem f path = .ok (imageWord
      (((((loads f).filter fun p => p.filesz != 0).map fun p => (p.vaddr, payload f p))).foldl place fun _ => 0)) := by
  have hhdr := h.header
  have hlen5 : ¬ f.length < 5 := by unfold EHDR_SIZE at hhdr; omega
  have hlen6 : ¬ f.length < 6 := by unfold EHDR_SIZE at hhdr; omega
  have hlen : ¬ f.length < EHDR_SIZE := Nat.not_lt.mpr hhdr
  have hclass : byteAt f 4 = 1 := h.elfClass
  have hdata : byteAt f 5 = 1 := h.data
  have hparse : parseElf f path = parsePhdrs f (List.range (ePhnum f)) := by
    simp [parseElf, h.magic, hlen5, hlen6, hlen, hclass, hdata]
  rw [elf2mem, hparse, parsePhdrs_eq h _ fun i hi => List.mem_range.mp hi, loads, List.filter_filter]
  simp only [phdrs, Bool.and_comm]
  rfl

/-- The bytes that the segments leave in the image: each its contents, and what was there elsewhere. -/
theorem foldl_place (l : List Phdr) (image : Nat → BitVec 8) (a : Nat)
    (hl : ∀ p ∈ l, p.extent.Inside ∧ p.offset.toNat + p.filesz.toNat ≤ f.length)
    (hd : l.Pairwise fun p q => p.extent.Disjoint q.extent) (ha : InSram a) :
    let byte := (l.map fun p => (p.vaddr, payload f p)).foldl place image (a - 0x80000000)
    (∀ p ∈ l, p.extent.InFile a → byte = (p.segment f).data (a - p.extent.vaddr)) ∧
      ((∀ p ∈ l, ¬ p.extent.InFile a) → byte = image (a - 0x80000000)) := by
  induction l generalizing image with
  | nil => exact ⟨fun p hp => absurd hp List.not_mem_nil, fun _ => rfl⟩
  | cons p l ih =>
    obtain ⟨⟨hlo, hhi⟩, hcont⟩ := hl p List.mem_cons_self
    obtain ⟨hdp, hdl⟩ := List.pairwise_cons.mp hd
    have hlen := length_payload hcont
    have hrest := ih (place image (p.vaddr, payload f p)) (fun q hq => hl q (List.mem_cons_of_mem _ hq)) hdl
    have hplace : place image (p.vaddr, payload f p) = splice image (p.vaddr.toNat - 0x80000000) (payload f p) := by
      refine place_inside hlo ?_
      rw [hlen]
      exact Nat.le_trans (Nat.add_le_add_left (Nat.le_max_left _ _) _) hhi
    dsimp only at hrest ⊢
    rw [List.map_cons, List.foldl_cons]
    constructor
    · intro q hq hin
      rcases List.mem_cons.mp hq with rfl | hq
      · have hcov := hin.covers
        obtain ⟨hqlo, hqhi⟩ := hin
        dsimp only [Phdr.extent] at hqlo hqhi hlo ⊢
        have hidx : a - 0x80000000 - (q.vaddr.toNat - 0x80000000) = a - q.vaddr.toNat := by omega
        rw [hrest.2 fun q' hq' hin' => hdp q' hq' a hcov hin'.covers, hplace, splice, hlen, if_pos (by omega), hidx,
          payload, getD_payload (by omega)]
      · exact hrest.1 q hq hin
    · intro hnone
      rw [hrest.2 fun q hq => hnone q (List.mem_cons_of_mem _ hq), hplace, splice, if_neg]
      intro hc
      rw [hlen] at hc
      have hsram := ha.1
      dsimp only [Phdr.extent] at hlo
      exact hnone p List.mem_cons_self ⟨by dsimp only [Phdr.extent]; omega, by dsimp only [Phdr.extent]; omega⟩

theorem byteOfWord_append (b₃ b₂ b₁ b₀ : BitVec 8) :
    byteOfWord (b₃ ++ b₂ ++ b₁ ++ b₀) 0 = b₀ ∧ byteOfWord (b₃ ++ b₂ ++ b₁ ++ b₀) 1 = b₁ ∧
      byteOfWord (b₃ ++ b₂ ++ b₁ ++ b₀) 2 = b₂ ∧ byteOfWord (b₃ ++ b₂ ++ b₁ ++ b₀) 3 = b₃ := by
  refine ⟨?_, ?_, ?_, ?_⟩ <;> ext n hn <;>
    simp only [byteOfWord, BitVec.getElem_extractLsb', BitVec.getLsbD_append] <;> grind

/-- A byte of a word that is read out of the image. -/
theorem sramByte_imageWord (image : Nat → BitVec 8) {a : Nat} (ha : InSram a) :
    sramByte (imageWord image) a = image (a - 0x80000000) := by
  obtain ⟨hlo, hhi⟩ := ha
  have hkey : 4 * (key a).toNat = a - 0x80000000 - a % 4 := by
    rw [key, BitVec.toNat_ofNat]
    omega
  obtain ⟨h₀, h₁, h₂, h₃⟩ := byteOfWord_append (image (4 * (key a).toNat + 3)) (image (4 * (key a).toNat + 2))
    (image (4 * (key a).toNat + 1)) (image (4 * (key a).toNat))
  have hlane : a % 4 = 0 ∨ a % 4 = 1 ∨ a % 4 = 2 ∨ a % 4 = 3 := by omega
  rw [sramByte, imageWord]
  rcases hlane with h | h | h | h
  · rw [h, h₀, hkey, show a - 0x80000000 - a % 4 = a - 0x80000000 by omega]
  · rw [h, h₁, hkey, show a - 0x80000000 - a % 4 + 1 = a - 0x80000000 by omega]
  · rw [h, h₂, hkey, show a - 0x80000000 - a % 4 + 2 = a - 0x80000000 by omega]
  · rw [h, h₃, hkey, show a - 0x80000000 - a % 4 + 3 = a - 0x80000000 by omega]

/-- The script puts every file byte at its address and leaves the rest zero. -/
theorem script_holds (h : ElfFile f) (hfits : Fits (extents f)) :
    ∃ image, elf2mem f path = .ok image ∧ Holds (segments f) (sramByte image) := by
  refine ⟨_, elf2mem_eq h, fun a ha => ?_⟩
  have hin : ∀ p ∈ loads f, p.extent.Inside := fun p hp => hfits.1 _ (List.mem_map_of_mem hp)
  have hd := List.pairwise_map.mp hfits.2
  have hsub : ∀ p ∈ (loads f).filter fun p => p.filesz != 0, p ∈ loads f := fun p hp => (List.mem_filter.mp hp).1
  have hplace := foldl_place ((loads f).filter fun p => p.filesz != 0) (fun _ => 0) a
    (fun p hp => ⟨hin p (hsub p hp), h.contents p (hsub p hp)⟩) (hd.filter _) ha
  rw [sramByte_imageWord _ ha]
  constructor
  · intro s hs hins
    obtain ⟨p, hp, rfl⟩ := List.mem_map.mp hs
    refine hplace.1 p (List.mem_filter.mpr ⟨hp, ?_⟩) hins
    rw [bne_iff_ne]
    intro hz
    have hlo := hins.1
    have hhi := hins.2
    dsimp only [Phdr.segment, Phdr.extent] at hlo hhi
    rw [hz] at hhi
    exact absurd hlo (Nat.not_le.mpr hhi)
  · intro hnone
    exact hplace.2 fun p hp hins => hnone _ (List.mem_map_of_mem (hsub p hp)) hins

end QinglongCore.Elf
