import QinglongCore.Sim.Lemmas.Probe

/-!
# When the two loaders agree

The simulator writes words, also over the tail of a segment and in front of a segment that starts inside a word. So the
image depends on how the segments are aligned.
-/

namespace QinglongCore.Elf

/-- Both loaders make the same image of a file, with every file byte at its address and zeros elsewhere. -/
def LoadersAgree (f : File) : Prop :=
  ∀ path, ∃ image, simImage f path = .ok image ∧ elf2mem f path = .ok image ∧ Holds (segments f) (sramByte image)

variable {f : File} {l : List Extent} {i j k a b : Nat}

/-! ## Aligned segments -/

/-- Files with aligned segments are loaded alike. -/
theorem agree_of_aligned (h : ElfFile f) (hfits : Fits (extents f)) (hal : Aligned (extents f)) : LoadersAgree f := by
  intro path
  obtain ⟨image, hscript, hholds⟩ := @script_holds _ path h hfits
  have hsim := @simImage_eq _ path h hfits.1
  rw [extents_eq] at hfits hal
  have hsame := sram_ext fun a ha => (sim_holds hfits hal).unique hholds ha
  rw [hsame] at hsim
  exact ⟨image, hsim, hscript, hholds⟩

/-! ## A file with a single byte that is not zero -/

/-- Segment `i` has a one as its byte `j`; the rest of the contents is zero. -/
def probe (l : List Extent) (i j : Nat) : File :=
  elfFile l (fun k => if k = i then 65536 else 0) 32768
    fun q => if q = 16384 + j / 4 then (1#8).setWidth 32 <<< (8 * (j % 4)) else 0

/-- Its segments. -/
def probeSegment (l : List Extent) (i j : Nat) (e : Extent) (k : Nat) : Segment where
  extent := e
  data := fun n => byteAt (probe l i j) ((phdrOf l (fun k => if k = i then 65536 else 0) e k).offset.toNat + n)

section

variable (hl : l.length < 2 ^ 16) (hin : ∀ e ∈ l, e.Inside)

include hl

theorem probe_byte (hj : j < 65536) {e : Extent} {n : Nat} (hn : n < 65536) :
    (probeSegment l i j e k).data n = if k = i ∧ n = j then 1 else 0 := by
  have hlt : (if k = i then 65536 else 0) + n < 4 * 32768 := by split <;> omega
  have hoff : 4 * headerWords l + (if k = i then 65536 else 0) < 2 ^ 32 := by
    unfold headerWords
    split <;> omega
  dsimp only [probeSegment, phdrOf, probe]
  rw [BitVec.toNat_ofNat, Nat.mod_eq_of_lt hoff, Nat.add_assoc, byteAt_contents hlt]
  by_cases hki : k = i
  · rw [if_pos hki, show (65536 + n) % 4 = n % 4 by omega]
    by_cases hq : (65536 + n) / 4 = 16384 + j / 4
    · rw [if_pos hq, byteOfWord_lane _ _ (by omega)]
      refine ite_congr ?_ (fun _ => rfl) fun _ => rfl
      rw [eq_iff_iff]
      omega
    · rw [if_neg hq, if_neg (by omega), byteOfWord_zero]
  · rw [if_neg hki, if_neg (by omega), if_neg (by omega), byteOfWord_zero]

/-- A write of another segment is zero, and so is a write that does not take the single byte to lane `b`. -/
theorem probe_quiet (hj : j < 65536) {e : Extent} (he : e.Inside) (hb : b < 4) (hi : k = i → j % 4 ≠ b)
    {w : BitVec 14 × Word} (hw : w ∈ (probeSegment l i j e k).writes) : byteOfWord w.2 b = 0 := by
  rcases mem_writes hw with ⟨m, hm, rfl⟩ | ⟨m, -, rfl⟩
  · have hsize := he.size
    have hlt : ∀ n, n < e.filesz → n < 65536 := fun n hn => by omega
    rw [byteOfWord_fileWord _ _ _ hb]
    split
    next hn =>
      rw [probe_byte hl hj (hlt _ hn), if_neg]
      rintro ⟨hki, hmj⟩
      exact hi hki (by omega)
    next => rfl
  · exact byteOfWord_zero b

include hin

theorem probe_elf : ElfFile (probe l i j) := by
  refine elfFile_elf hl hin (by unfold headerWords; omega) fun k hk => ?_
  have hsize := (hin _ (List.getElem_mem hk)).size
  split <;> omega

theorem segments_probe : segments (probe l i j) = l.zipIdx.map fun p => probeSegment l i j p.1 p.2 := by
  rw [segments, probe, loads_elfFile hl, List.map_map]
  refine List.map_congr_left fun p hp => ?_
  have he : p.1 ∈ l := List.fst_mem_of_mem_zipIdx hp
  rw [Function.comp_apply, Phdr.segment, extent_phdrOf (hin _ he)]
  rfl

variable (h : LoadersAgree (probe l i j))

include h

/-- When the loaders agree, the simulator has the single byte at its address. -/
theorem probe_loaded (hi : i < l.length) (hj : j < l[i].filesz) (ha : a = l[i].vaddr + j) :
    sramByte (Writes.apply (fun _ => 0) ((segments (probe l i j)).flatMap Segment.writes)) a = 1 := by
  have hii := hin _ (List.getElem_mem hi)
  have hext : extents (probe l i j) = l := extents_elfFile hl hin
  have hins : l[i].InFile a := ⟨by omega, by omega⟩
  obtain ⟨image, hsim, -, hholds⟩ := h ""
  rw [simImage_eq (probe_elf hl hin) (by rwa [hext])] at hsim
  cases hsim
  have hmem : probeSegment l i j l[i] i ∈ segments (probe l i j) := by
    rw [segments_probe hl hin]
    exact List.mem_map.mpr ⟨(l[i], i), List.mk_mem_zipIdx_iff_getElem?.mpr (List.getElem?_eq_getElem hi), rfl⟩
  have hsize := hii.size
  rw [(hholds a (hins.covers.inSram hii)).1 _ hmem hins, probe_byte hl (by omega) (by dsimp only [probeSegment]; omega),
    if_pos ⟨rfl, by dsimp only [probeSegment]; omega⟩]

/-- File contents start at a multiple of four. -/
theorem start_aligned (hi : i < l.length) (hpos : 0 < l[i].filesz) (hj : j = 0) : l[i].vaddr % 4 = 0 := by
  by_contra hne
  have hone := probe_loaded hl hin h hi (a := l[i].vaddr) (by omega) (by omega)
  -- the byte goes to lane zero wherever it goes
  have hzero : sramByte (Writes.apply (fun _ => 0) ((segments (probe l i j)).flatMap Segment.writes)) l[i].vaddr = 0 := by
    refine Writes.apply_induct (P := fun w => byteOfWord w (l[i].vaddr % 4) = 0) (byteOfWord_zero _) ?_
    intro w hw _
    obtain ⟨s, hs, hw⟩ := List.mem_flatMap.mp hw
    rw [segments_probe hl hin] at hs
    obtain ⟨p, hp, rfl⟩ := List.mem_map.mp hs
    exact probe_quiet hl (by omega) (hin _ (List.fst_mem_of_mem_zipIdx hp)) (Nat.mod_lt _ (by decide))
      (fun _ => by omega) hw
  rw [hzero] at hone
  exact absurd hone (by decide)

/-- Zeros do not go to the word of a file byte of the same segment or of an earlier one. -/
theorem zeros_elsewhere (hi : i < l.length) (hj : j < l[i].filesz) (hk : k < l.length) (hik : i ≤ k)
    (hz : l[k].filesz < l[k].memsz) : (l[i].vaddr + j) / 4 ≠ (l[k].vaddr + l[k].filesz) / 4 := by
  intro hword
  have hii := hin _ (List.getElem_mem hi)
  have hkk := hin _ (List.getElem_mem hk)
  have hone := probe_loaded hl hin h hi hj rfl
  have hsize := hii.size
  have hkey : key (l[i].vaddr + j) = key (l[k].vaddr + l[k].filesz) :=
    (key_eq_iff (Extent.Covers.inSram ⟨by omega, by omega⟩ hii) (Extent.Covers.inSram ⟨by omega, by omega⟩ hkk)).mpr
      hword
  have hzeros : (probeSegment l i j l[k] k).writes =
      (offsets 0 l[k].filesz).map (fun off =>
        (key (l[k].vaddr + off), fileWord (probeSegment l i j l[k] k).data l[k].filesz off)) ++
      (key (l[k].vaddr + l[k].filesz), 0) ::
        (List.range' (l[k].filesz + 4) ((l[k].memsz - l[k].filesz + 3) / 4 - 1) 4).map fun off =>
          (key (l[k].vaddr + off), 0) := by
    have hcount : (l[k].memsz - l[k].filesz + 3) / 4 = (l[k].memsz - l[k].filesz + 3) / 4 - 1 + 1 := by omega
    rw [Segment.writes]
    dsimp only [probeSegment]
    congr 1
    rw [offsets, hcount, List.range'_succ]
    rfl
  have hsplit : l.zipIdx = (l.zipIdx.take k) ++ (l[k], k) :: l.zipIdx.drop (k + 1) := by
    have hlen : k < l.zipIdx.length := by simpa using hk
    have hget : l.zipIdx[k] = (l[k], k) := by simp
    rw [← hget, List.getElem_cons_drop, List.take_append_drop]
  have hzero : sramByte (Writes.apply (fun _ => 0) ((segments (probe l i j)).flatMap Segment.writes))
      (l[i].vaddr + j) = 0 := by
    rw [segments_probe hl hin, hsplit, List.map_append, List.map_cons, List.flatMap_append, List.flatMap_cons, hzeros,
      List.append_assoc, List.cons_append, ← List.append_assoc, sramByte, hkey]
    refine Writes.apply_after (P := fun w => byteOfWord w ((l[i].vaddr + j) % 4) = 0) (byteOfWord_zero _) ?_
    intro w hw _
    rcases List.mem_append.mp hw with hw | hw
    · obtain ⟨off, -, rfl⟩ := List.mem_map.mp hw
      exact byteOfWord_zero _
    · obtain ⟨s, hs, hw⟩ := List.mem_flatMap.mp hw
      obtain ⟨p, hp, rfl⟩ := List.mem_map.mp hs
      obtain ⟨m, hm, rfl⟩ := List.mem_drop_iff_getElem.mp hp
      have hne : (l.zipIdx[k + 1 + m]).2 ≠ i := by
        rw [List.getElem_zipIdx]
        dsimp only
        omega
      exact probe_quiet hl (by omega) (hin _ (List.fst_mem_of_mem_zipIdx (List.mem_of_mem_drop hp)))
        (Nat.mod_lt _ (by decide)) (fun he => absurd he hne) hw
  rw [hzero] at hone
  exact absurd hone (by decide)

end

/-- Segments that do not overlap are loaded alike, whatever the contents, exactly when they are aligned. -/
theorem loaders_agree_iff (hl : l.length < 2 ^ 16) (hfits : Fits l) :
    (∀ f, ElfFile f → extents f = l → LoadersAgree f) ↔ Aligned l := by
  constructor
  · intro hall
    have hin := hfits.1
    have hprobe : ∀ i j, LoadersAgree (probe l i j) := fun i j =>
      hall _ (probe_elf hl hin) (extents_elfFile hl hin)
    constructor
    · intro e he hpos
      obtain ⟨i, hi, rfl⟩ := List.getElem_of_mem he
      have hstart := start_aligned hl hin (hprobe i 0) hi hpos rfl
      refine ⟨hstart, fun hz => ?_⟩
      -- otherwise the first zero word takes the last byte with it
      have hlast := zeros_elsewhere hl hin (hprobe i (l[i].filesz - 1)) hi (by omega) hi (Nat.le_refl i) hz
      omega
    · rw [List.pairwise_iff_getElem]
      intro i k hi hk hik hz hpos a hins
      obtain ⟨hlo, hhi⟩ := hins
      have hne := zeros_elsewhere hl hin (hprobe i (a - l[i].vaddr)) hi (by omega) hk (Nat.le_of_lt hik) (by omega)
      rw [hz] at hne
      omega
  · rintro hal f hf rfl
    exact agree_of_aligned hf hfits hal

/-- Two aligned segments, the second with zeros behind its contents. -/
theorem loaders_agree_iff_two :
    (∀ f, ElfFile f → extents f = [⟨0x80000000, 6, 6⟩, ⟨0x80000008, 4, 11⟩] → LoadersAgree f) ↔
      Aligned [⟨0x80000000, 6, 6⟩, ⟨0x80000008, 4, 11⟩] := by
  refine loaders_agree_iff (by decide) ⟨by simp [Extent.Inside], ?_⟩
  simp only [List.pairwise_cons, List.mem_singleton, List.not_mem_nil, forall_eq, Extent.Disjoint, Extent.Covers]
  exact ⟨fun a h => by omega, by simp⟩

/-- Five bytes of contents and three zeros: the last byte of the contents is lost. -/
def shortTail : File := elfFile [⟨0x80000000, 5, 8⟩] (fun _ => 0) 2 fun q => if q = 0 then 0x04030201#32 else 5#32

theorem shortTail_differs :
    ElfFile shortTail ∧ Fits (extents shortTail) ∧
      ∃ image image', simImage shortTail "" = .ok image ∧ elf2mem shortTail "" = .ok image' ∧ image 1 = 0 ∧
        image' 1 = 5 := by
  have hin : ∀ e ∈ [(⟨0x80000000, 5, 8⟩ : Extent)], e.Inside := by simp [Extent.Inside]
  have hext : extents shortTail = [⟨0x80000000, 5, 8⟩] := extents_elfFile (by decide) hin
  have helf : ElfFile shortTail := by
    refine elfFile_elf (by decide) hin (by decide) fun i hi => ?_
    have hzero : i = 0 := Nat.lt_one_iff.mp hi
    subst hzero
    show 0 + 5 ≤ 4 * 2
    decide
  refine ⟨helf, ?_, _, _, simImage_eq helf (by rwa [hext]), elf2mem_eq helf, ?_, ?_⟩
  · rw [hext]
    exact ⟨hin, List.pairwise_singleton _ _⟩
  · decide +kernel
  · decide +kernel

end QinglongCore.Elf
