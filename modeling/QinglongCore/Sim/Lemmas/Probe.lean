import QinglongCore.Sim.Lemmas.Images

/-!
# Files with given segments

For every list of extents there is a file with these segments, and with any contents.
-/

namespace QinglongCore.Elf

/-! ## A file by its words -/

def ofWords (n : Nat) (w : Nat → Word) : File := (List.range (4 * n)).map fun k => byteOfWord (w (k / 4)) (k % 4)

section

variable {n q k : Nat} {w : Nat → Word}

@[simp] theorem length_ofWords : (ofWords n w).length = 4 * n := by simp [ofWords]

theorem byteAt_ofWords (h : k < 4 * n) : byteAt (ofWords n w) k = byteOfWord (w (k / 4)) (k % 4) := by
  rw [byteAt, List.getD_eq_getElem?_getD, List.getElem?_eq_getElem (by simpa using h)]
  simp [ofWords]

theorem byteAt_word {b : Nat} (h : q < n) (hb : b < 4) : byteAt (ofWords n w) (4 * q + b) = byteOfWord (w q) b := by
  rw [byteAt_ofWords (by omega), show (4 * q + b) / 4 = q by omega, show (4 * q + b) % 4 = b by omega]

theorem byteOfWord_bytes (v : Word) : byteOfWord v 3 ++ byteOfWord v 2 ++ byteOfWord v 1 ++ byteOfWord v 0 = v := by
  obtain ⟨h₀, h₁, h₂, h₃⟩ := byteOfWord_append (byteOfWord v 3) (byteOfWord v 2) (byteOfWord v 1) (byteOfWord v 0)
  apply word_ext
  intro b hb
  have hlane : b = 0 ∨ b = 1 ∨ b = 2 ∨ b = 3 := by omega
  rcases hlane with rfl | rfl | rfl | rfl
  · exact h₀
  · exact h₁
  · exact h₂
  · exact h₃

theorem word32_ofWords (h : q < n) : word32 (ofWords n w) (4 * q) = w q := by
  have h₀ := byteAt_word (w := w) (b := 0) h (by decide)
  rw [Nat.add_zero] at h₀
  rw [word32, byteAt_word h (by decide), byteAt_word h (by decide), byteAt_word h (by decide), h₀, byteOfWord_bytes]

end

/-! ## A file by its segments -/

def ehdrWord (phnum : Nat) : Nat → Word
  | 0 => 0x464C457F#32
  | 1 => 0x00000101#32
  | 4 => 0x00F30000#32
  | 7 => 52#32
  | 10 => 0x00200000#32
  | 11 => BitVec.ofNat 32 phnum
  | _ => 0

def phdrWord (e : Extent) (offset : Nat) : Nat → Word
  | 0 => PT_LOAD
  | 1 => BitVec.ofNat 32 offset
  | 2 => BitVec.ofNat 32 e.vaddr
  | 3 => BitVec.ofNat 32 e.vaddr
  | 4 => BitVec.ofNat 32 e.filesz
  | 5 => BitVec.ofNat 32 e.memsz
  | _ => 0

variable {l : List Extent} {offset : Nat → Nat} {n : Nat} {data : Nat → Word}

/-- The words of both headers. -/
def headerWords (l : List Extent) : Nat := 13 + 8 * l.length

def elfWord (l : List Extent) (offset : Nat → Nat) (data : Nat → Word) (q : Nat) : Word :=
  if q < 13 then ehdrWord l.length q
  else
    match l[(q - 13) / 8]? with
    | some e => phdrWord e (4 * headerWords l + offset ((q - 13) / 8)) ((q - 13) % 8)
    | none => data (q - headerWords l)

/-- The file with the segments `l` and `n` words of contents, of which segment `i` starts at `offset i`. -/
def elfFile (l : List Extent) (offset : Nat → Nat) (n : Nat) (data : Nat → Word) : File :=
  ofWords (headerWords l + n) (elfWord l offset data)

theorem word32_ehdr {q : Nat} (h : q < 13) : word32 (elfFile l offset n data) (4 * q) = ehdrWord l.length q := by
  rw [elfFile, word32_ofWords (by unfold headerWords; omega), elfWord, if_pos h]

theorem word32_phdr {i q : Nat} (hi : i < l.length) (hq : q < 8) :
    word32 (elfFile l offset n data) (52 + 32 * i + 4 * q) =
      phdrWord l[i] (4 * headerWords l + offset i) q := by
  rw [show 52 + 32 * i + 4 * q = 4 * (13 + 8 * i + q) by omega, elfFile,
    word32_ofWords (by unfold headerWords; omega), elfWord, if_neg (by omega),
    show (13 + 8 * i + q - 13) / 8 = i by omega, show (13 + 8 * i + q - 13) % 8 = q by omega,
    List.getElem?_eq_getElem hi]

/-- A byte of the contents. -/
theorem byteAt_contents {k : Nat} (hk : k < 4 * n) :
    byteAt (elfFile l offset n data) (4 * headerWords l + k) = byteOfWord (data (k / 4)) (k % 4) := by
  have hlt : 4 * headerWords l + k < 4 * (headerWords l + n) := by omega
  have hdiv : (4 * headerWords l + k) / 4 = headerWords l + k / 4 := by omega
  have hmod : (4 * headerWords l + k) % 4 = k % 4 := by omega
  have hpast : l.length ≤ (headerWords l + k / 4 - 13) / 8 := by
    unfold headerWords
    omega
  rw [elfFile, byteAt_ofWords hlt, hdiv, hmod, elfWord, if_neg (by unfold headerWords; omega),
    List.getElem?_eq_none hpast, Nat.add_sub_cancel_left]

/-- The header that segment `i` gets. -/
def phdrOf (l : List Extent) (offset : Nat → Nat) (e : Extent) (i : Nat) : Phdr where
  type := PT_LOAD
  offset := BitVec.ofNat 32 (4 * headerWords l + offset i)
  vaddr := BitVec.ofNat 32 e.vaddr
  paddr := BitVec.ofNat 32 e.vaddr
  filesz := BitVec.ofNat 32 e.filesz
  memsz := BitVec.ofNat 32 e.memsz

theorem phdrAt_elfFile {i : Nat} (hi : i < l.length) :
    phdrAt (elfFile l offset n data) (52 + 32 * i) = phdrOf l offset l[i] i := by
  have hword := fun q => @word32_phdr _ offset n data _ q hi
  have h₀ := hword 0 (by decide)
  have h₁ := hword 1 (by decide)
  have h₂ := hword 2 (by decide)
  have h₃ := hword 3 (by decide)
  have h₄ := hword 4 (by decide)
  have h₅ := hword 5 (by decide)
  simp only [Nat.mul_zero, Nat.add_zero, Nat.mul_one, Nat.reduceMul] at h₀ h₁ h₂ h₃ h₄ h₅
  rw [phdrAt, h₀, h₁, h₂, h₃, h₄, h₅]
  rfl

theorem half16_low {f : File} {k : Nat} : half16 f k = (word32 f k).extractLsb' 0 16 := by
  ext m hm
  simp only [half16, word32, BitVec.getElem_extractLsb', BitVec.getLsbD_append]
  grind

theorem half16_high {f : File} {k : Nat} : half16 f (k + 2) = (word32 f k).extractLsb' 16 16 := by
  have h₁ : (word32 f k).extractLsb' 16 16 =
      (byteAt f (k + 3) ++ byteAt f (k + 2) ++ byteAt f (k + 1)).extractLsb' 8 16 :=
    BitVec.extractLsb'_append_eq_of_le (by decide)
  have h₂ : (byteAt f (k + 3) ++ byteAt f (k + 2) ++ byteAt f (k + 1)).extractLsb' 8 16 =
      (byteAt f (k + 3) ++ byteAt f (k + 2)).extractLsb' 0 16 :=
    BitVec.extractLsb'_append_eq_of_le (by decide)
  rw [h₁, h₂]
  exact BitVec.extractLsb'_eq_self.symm

theorem ePhoff_elfFile : ePhoff (elfFile l offset n data) = 52 := by
  rw [ePhoff, show (28 : Nat) = 4 * 7 from rfl, word32_ehdr (by decide)]
  rfl

theorem ePhnum_elfFile (hl : l.length < 2 ^ 16) : ePhnum (elfFile l offset n data) = l.length := by
  rw [ePhnum, show (44 : Nat) = 4 * 11 from rfl, half16_low, word32_ehdr (by decide), ehdrWord,
    BitVec.extractLsb'_toNat, BitVec.toNat_ofNat]
  omega

theorem phdrs_elfFile (hl : l.length < 2 ^ 16) :
    phdrs (elfFile l offset n data) = l.zipIdx.map fun p => phdrOf l offset p.1 p.2 := by
  rw [phdrs, ePhnum_elfFile hl, ePhoff_elfFile]
  apply List.ext_getElem
  · simp
  intro i hi _
  have hlt : i < l.length := by simpa using hi
  simp only [List.getElem_map, List.getElem_range, List.getElem_zipIdx, Nat.zero_add, PHDR_SIZE]
  exact phdrAt_elfFile hlt

theorem loads_elfFile (hl : l.length < 2 ^ 16) :
    loads (elfFile l offset n data) = l.zipIdx.map fun p => phdrOf l offset p.1 p.2 := by
  rw [loads, phdrs_elfFile hl, List.filter_eq_self]
  intro p hp
  obtain ⟨q, -, rfl⟩ := List.mem_map.mp hp
  rfl

theorem extent_phdrOf {e : Extent} {i : Nat} (he : e.Inside) : (phdrOf l offset e i).extent = e := by
  obtain ⟨hlo, hhi⟩ := he
  rw [Phdr.extent, phdrOf, BitVec.toNat_ofNat, BitVec.toNat_ofNat, BitVec.toNat_ofNat, Nat.mod_eq_of_lt (by omega),
    Nat.mod_eq_of_lt (by omega), Nat.mod_eq_of_lt (by omega)]

theorem extents_elfFile (hl : l.length < 2 ^ 16) (hin : ∀ e ∈ l, e.Inside) :
    extents (elfFile l offset n data) = l := by
  rw [extents, loads_elfFile hl, List.map_map]
  apply List.ext_getElem
  · simp
  intro i hi _
  have hlt : i < l.length := by simpa using hi
  simp only [List.getElem_map, List.getElem_zipIdx, Function.comp_apply]
  exact extent_phdrOf (hin _ (List.getElem_mem hlt))

/-- Such a file is well formed when its contents hold the segments. -/
theorem elfFile_elf (hl : l.length < 2 ^ 16) (hin : ∀ e ∈ l, e.Inside) (hsize : headerWords l + n < 2 ^ 30)
    (hoff : ∀ i (hi : i < l.length), offset i + l[i].filesz ≤ 4 * n) : ElfFile (elfFile l offset n data) where
  magic := by
    have h : 4 * (headerWords l + n) = 4 + 4 * (headerWords l + n - 1) := by
      unfold headerWords
      omega
    rw [elfFile, ofWords, h, List.range_add, List.map_append, List.take_left' (by simp)]
    have hw : elfWord l offset data 0 = 0x464C457F#32 := rfl
    simp only [List.range_succ, List.range_zero, List.nil_append, List.cons_append, List.map_cons, List.map_nil,
      Nat.reduceDiv, Nat.reduceMod, hw]
    decide
  elfClass := by
    have hw : elfWord l offset data 1 = 0x00000101#32 := rfl
    rw [elfFile, byteAt_word (q := 1) (b := 0) (by unfold headerWords; omega) (by decide), hw]
    decide
  data := by
    have hw : elfWord l offset data 1 = 0x00000101#32 := rfl
    rw [elfFile, byteAt_word (q := 1) (b := 1) (by unfold headerWords; omega) (by decide), hw]
    decide
  machine := by
    rw [eMachine, show (18 : Nat) = 4 * 4 + 2 from rfl, half16_high, word32_ehdr (by decide), ehdrWord]
    decide
  phentsize := by
    rw [ePhentsize, show (42 : Nat) = 4 * 10 + 2 from rfl, half16_high, word32_ehdr (by decide), ehdrWord]
    decide
  header := by
    rw [elfFile, length_ofWords, EHDR_SIZE]
    unfold headerWords
    omega
  table := by
    rw [ePhoff_elfFile, ePhnum_elfFile hl, elfFile, length_ofWords, PHDR_SIZE]
    unfold headerWords
    omega
  paddr := by
    intro p hp
    rw [loads_elfFile hl] at hp
    obtain ⟨q, -, rfl⟩ := List.mem_map.mp hp
    rfl
  contents := by
    intro p hp
    rw [loads_elfFile hl] at hp
    obtain ⟨⟨e, i⟩, hq, rfl⟩ := List.mem_map.mp hp
    obtain ⟨hi, he⟩ := List.mk_mem_zipIdx_iff_getElem?.mp hq |> List.getElem?_eq_some_iff.mp
    have hfits := hoff i hi
    have hlo := (hin _ (List.getElem_mem hi))
    rw [he] at hfits hlo
    obtain ⟨hlo, hhi⟩ := hlo
    dsimp only [phdrOf]
    rw [elfFile, length_ofWords, BitVec.toNat_ofNat, BitVec.toNat_ofNat]
    unfold headerWords at *
    omega

end QinglongCore.Elf
