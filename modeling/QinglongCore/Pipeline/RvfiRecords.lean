import QinglongCore.Pipeline.Lemmas.Shadow

/-!
# RVFI records

What a record says against what the core did for the instruction. The tap leaves the data of an AMO at zero, and it
knows no load of a reserved size.
-/

namespace QinglongCore.Rvfi

open CorePipeline

/-! ## Statement -/

/-- The memory side of a record names the beats and their data, and has an empty mask where there was no beat. -/
structure MemTruthful (p : Port) (b : Beats) : Prop where
  reads : b.reads = if p.memRmask = 0b0000#4 then [] else [(p.memAddr, p.memRmask)]
  answers : b.answers = if p.memRmask = 0b0000#4 then [] else [p.memRdata]
  writes : b.writes = if p.memWmask = 0b0000#4 then [] else [(p.memAddr, p.memWmask, p.memWdata)]

/-- The record `p` describes the instruction that retires from `s` to `s'` and has made the beats `b`. -/
structure Truthful (s s' : CorePipeline.State) (p : Port) (b : Beats) : Prop where
  rs1 : Decode.rs1Used s.wb.instr = true →
    p.rs1Addr = rs1Field s.wb.instr ∧ p.rs1Rdata = s.regs.read (rs1Field s.wb.instr)
  rs2 : Decode.rs2Used s.wb.instr = true →
    p.rs2Addr = rs2Field s.wb.instr ∧ p.rs2Rdata = s.regs.read (rs2Field s.wb.instr)
  rd : ∀ a, s'.regs.read a = if p.rdAddr ≠ 0#5 ∧ a = p.rdAddr then p.rdWdata else s.regs.read a
  mem : MemTruthful p b

/-- A word that the tap records: no load of a reserved size, and no AMO that loads or stores a word other than zero. -/
structure Recorded (w : Word) (g : RegFile) (b : Beats) : Prop where
  load : Decode.isLoad w = true → reservedLoad (funct3 w) = false
  amo : Decode.isAmoRmw w = true → ∀ d ∈ b.answers,
    d = 0#32 ∧ amoStoreData (amoFunct5 w) d (g.read (rs2Field w)) = 0#32

section
variable (pc : Word) (regs : RegFile) (inp : Nat → In)

/-- The ports in cycle `t` of a run. -/
def record (t : Nat) : Port := port (CorePipeline.run pc regs inp t) (run pc regs inp t) (inp t).ext

def TruthfulAt (t : Nat) : Prop :=
  Truthful (CorePipeline.run pc regs inp t) (CorePipeline.run pc regs inp (t + 1)) (record pc regs inp t)
    (carried pc regs inp t).2

def RecordedAt (t : Nat) : Prop :=
  Recorded (CorePipeline.run pc regs inp t).wb.instr (CorePipeline.run pc regs inp t).regs (carried pc regs inp t).2

end

variable {s : CorePipeline.State} {i : In} {r : State} {w : Word} {p : Port}

/-! ## Lanes -/

theorem readLanes_ne_zero (s : CorePipeline.State) : readLanes s ≠ 0b0000#4 := by
  unfold readLanes
  generalize s.mem.aluY.extractLsb' 0 2 = n
  split_ifs
  · revert n
    decide
  · decide
  · decide
  · decide

theorem readLanes_of_atomic (h : (s.mem.isLr || s.mem.isSc || s.mem.isAmoRmw) = true) : readLanes s = 0b1111#4 := by
  simp [readLanes, dmemReqSize, h]

theorem storeWmask_ne_zero {m : ExMem} (h : m.FromEx) : m.storeWmask ≠ 0b0000#4 := by
  obtain ⟨ex, rs1, rs2, dv, p, hit, ph, ls, hd, hv, rfl, hls⟩ := h
  simp only [ExMem.ofEx, IdEx.storeWmask]
  split_ifs
  · split <;> decide
  · decide
  · decide
  · decide

theorem fields_eq {m : ExMem} (h : m.FromEx) : m.funct3 = funct3 m.instr ∧ m.amoFunct5 = amoFunct5 m.instr := by
  obtain ⟨ex, rs1, rs2, dv, p, hit, ph, ls, ⟨id, md, d₁, d₂, rfl, -⟩, hv, rfl, hls⟩ := h
  exact ⟨rfl, rfl⟩

/-! ### The classes exclude each other -/

namespace Class

variable {m : ExMem} (h : m.FromEx) (ht : m.trap = false)

include h ht

theorem of_load (hl : m.isLoad = true) :
    m.isStore = false ∧ m.isSc = false ∧ m.isAmoRmw = false ∧ m.hasResult = false := by
  obtain ⟨hld, hst, -, hsc, ha⟩ := h.flags ht
  have hd : Decode.isLoad m.instr = true := hld ▸ hl
  obtain ⟨-, h₁, h₂⟩ := Decode.not_atomic_of_access (w := m.instr) (by simp [hd])
  rw [hst, hsc, ha]
  refine ⟨Decode.isStore_of_isLoad hd, h₁, h₂, ?_⟩
  obtain ⟨ex, rs1, rs2, dv, p, hit, ph, ls, hdec, hv, rfl, hls⟩ := h
  have hc : ex.ctrl.isLoad = true := hdec.flags.1.trans hd
  have hs : ex.ctrl.isSc = false := hdec.flags.2.2.2.1.trans h₁
  simp [ExMem.ofEx, hc, hs]

theorem of_store (hs : m.isStore = true) :
    m.isLoad = false ∧ m.isSc = false ∧ m.isAmoRmw = false ∧ m.hasResult = false := by
  obtain ⟨-, hst, -, hsc, ha⟩ := h.flags ht
  obtain ⟨-, h₁, h₂⟩ := Decode.not_atomic_of_access (w := m.instr) (by simp [← hst, hs])
  refine ⟨?_, hsc.trans h₁, ha.trans h₂, h.store hs⟩
  cases hl : m.isLoad
  · rfl
  · rw [(of_load h ht hl).1] at hs; simp at hs

theorem of_lr (hr : m.isLr = true) : m.isLoad = false ∧ m.isStore = false ∧ m.isSc = false ∧
    m.isAmoRmw = false ∧ m.hasResult = false := by
  obtain ⟨hl, hst, hlr, hsc, ha⟩ := h.flags ht
  have hd : Decode.isLr m.instr = true := hlr ▸ hr
  obtain ⟨h₁, h₂⟩ := Decode.of_isAmo (Decode.isAmo_of_isLr hd)
  obtain ⟨h₃, h₄⟩ := Decode.of_isLr hd
  exact ⟨hl.trans h₁, hst.trans h₂, hsc.trans h₃, ha.trans h₄, h.lr_result hr⟩

theorem of_sc (hc : m.isSc = true) :
    m.isLoad = false ∧ m.isStore = false ∧ m.isLr = false ∧ m.isAmoRmw = false := by
  obtain ⟨hl, hst, hlr, hsc, ha⟩ := h.flags ht
  have hd : Decode.isSc m.instr = true := hsc ▸ hc
  obtain ⟨h₁, h₂⟩ := Decode.of_isAmo (Decode.isAmo_of_isSc hd)
  obtain ⟨h₃, h₄⟩ := Decode.of_isSc hd
  exact ⟨hl.trans h₁, hst.trans h₂, hlr.trans h₃, ha.trans h₄⟩

end Class

/-! ## The instruction that leaves MEM -/

/-- What the instruction has made when it leaves MEM. -/
theorem made_of_leaves (h : Leaves s) (hop : s.mem.hasBusOp = true) (hres : s.mem.hasResult = false) :
    Beats.made s w =
      { reads := if memAmoStoreBeat s || !dmemReqWen s then [(dmemReqAddr s, readLanes s)] else []
        answers := if memAmoStoreBeat s then [s.bus.amoOld] else if dmemReqWen s then [] else [w]
        writes := if dmemReqWen s then [(dmemReqAddr s, dmemReqWmask s, dmemReqWdata s)] else [] } := by
  cases hb : memAmoStoreBeat s
  · cases hw : dmemReqWen s <;> simp [Beats.made, hop, hres, h.lsPending, hb, hw]
  · have hw : dmemReqWen s = true := by simp [dmemReqWen, memIsStoreOp, hb]
    simp [Beats.made, hop, hres, h.lsPending, hb, hw]

/-- The memory side of the record `p`, by the registers of the cycle before. -/
structure Reports (s : CorePipeline.State) (r : State) (p : Port) : Prop where
  addr : p.memAddr = r.mem.memAddr
  rmask : p.memRmask = r.mem.memRmask
  wmask : p.memWmask = r.mem.memWmask
  wdata : p.memWdata = r.mem.memWdata
  rdata : p.memRdata =
    if s.mem.isLoad || s.mem.isLr || (s.mem.isAmoRmw && !s.mem.amoPhase) then r.mem.memRdata else 0#32

section Leaving

variable (h : Leaves s) (hsp : Spaced s) (ht : Traces s r) (hp : Reports s r p)

include h hsp ht hp

theorem masks_of_leaves : (p.memRmask, p.memWmask, p.memWdata) = traced s ∧
    (s.mem.hasBusOp = true → p.memAddr = dmemReqAddr s) := by
  rw [hp.rmask, hp.wmask, hp.wdata, hp.addr]
  exact ⟨ht.masks h.valid (h.trap hsp), ht.addr h.valid⟩

theorem memTruthful_load (hl : s.mem.isLoad = true)
    (hk : s.mem.isStore = false ∧ s.mem.isSc = false ∧ s.mem.isAmoRmw = false ∧ s.mem.hasResult = false) :
    MemTruthful p (Beats.made s r.mem.memRdata) ↔ reservedLoad s.mem.funct3 = false := by
  obtain ⟨hmasks, haddr⟩ := masks_of_leaves h hsp ht hp
  have hop : s.mem.hasBusOp = true := by simp [ExMem.hasBusOp, hl]
  have hrdata : p.memRdata = r.mem.memRdata := by rw [hp.rdata]; simp [hl]
  have hbeat : memAmoStoreBeat s = false := by simp [memAmoStoreBeat, hk]
  have hwen : dmemReqWen s = false := by simp [dmemReqWen, memIsStoreOp, hbeat, hk]
  have hlanes := readLanes_ne_zero s
  simp only [traced, hl, if_true, Prod.mk.injEq] at hmasks
  obtain ⟨hr, hw, -⟩ := hmasks
  rw [made_of_leaves h hop hk.2.2.2]
  cases hf : reservedLoad s.mem.funct3
  · have hr' : p.memRmask = readLanes s := by simpa [hf] using hr
    refine iff_of_true ⟨?_, ?_, ?_⟩ rfl
    · simp [hbeat, hwen, hr', hlanes, haddr hop]
    · simp [hbeat, hwen, hr', hlanes, hrdata]
    · simp [hwen, hw]
  · have hr' : p.memRmask = 0b0000#4 := by simpa [hf] using hr
    refine iff_of_false (fun hm => ?_) (by simp)
    have hreads := hm.reads
    simp [hbeat, hwen, hr'] at hreads

theorem memTruthful_store (hst : s.mem.isStore = true)
    (hk : s.mem.isLoad = false ∧ s.mem.isSc = false ∧ s.mem.isAmoRmw = false ∧ s.mem.hasResult = false) :
    MemTruthful p (Beats.made s r.mem.memRdata) := by
  obtain ⟨hmasks, haddr⟩ := masks_of_leaves h hsp ht hp
  have hop : s.mem.hasBusOp = true := by simp [ExMem.hasBusOp, hst]
  have hbeat : memAmoStoreBeat s = false := by simp [memAmoStoreBeat, hk]
  have hwen : dmemReqWen s = true := by simp [dmemReqWen, memIsStoreOp, hst]
  have hmask : dmemReqWmask s = s.mem.storeWmask := by simp [dmemReqWmask, memIsStoreOp, hst, hk]
  have hdata : dmemReqWdata s = s.mem.storeWdata := by simp [dmemReqWdata, hbeat]
  have hlanes := storeWmask_ne_zero (hsp.mem_origin h.valid)
  simp only [traced, hst, hk, Bool.false_eq_true, if_false, if_true, Prod.mk.injEq] at hmasks
  obtain ⟨hr, hw, hd⟩ := hmasks
  rw [made_of_leaves h hop hk.2.2.2]
  refine ⟨?_, ?_, ?_⟩
  · simp [hbeat, hwen, hr]
  · simp [hbeat, hwen, hr]
  · simp [hwen, hw, hd, hlanes, haddr hop, hmask, hdata]

theorem memTruthful_lr (hlr : s.mem.isLr = true) (hk : s.mem.isLoad = false ∧ s.mem.isStore = false ∧
    s.mem.isSc = false ∧ s.mem.isAmoRmw = false ∧ s.mem.hasResult = false) :
    MemTruthful p (Beats.made s r.mem.memRdata) := by
  obtain ⟨hmasks, haddr⟩ := masks_of_leaves h hsp ht hp
  have hop : s.mem.hasBusOp = true := by simp [ExMem.hasBusOp, hlr]
  have hrdata : p.memRdata = r.mem.memRdata := by rw [hp.rdata]; simp [hlr]
  have hbeat : memAmoStoreBeat s = false := by simp [memAmoStoreBeat, hk]
  have hwen : dmemReqWen s = false := by simp [dmemReqWen, memIsStoreOp, hbeat, hk]
  have hlanes := readLanes_of_atomic (s := s) (by simp [hlr])
  simp only [traced, hlr, hk, Bool.false_eq_true, if_false, if_true, Prod.mk.injEq] at hmasks
  obtain ⟨hr, hw, -⟩ := hmasks
  rw [made_of_leaves h hop hk.2.2.2.2]
  refine ⟨?_, ?_, ?_⟩
  · simp [hbeat, hwen, hr, hlanes, haddr hop]
  · simp [hbeat, hwen, hr, hrdata]
  · simp [hwen, hw]

/-- A failed SC has no beat and no mask. -/
theorem memTruthful_sc (hsc : s.mem.isSc = true)
    (hk : s.mem.isLoad = false ∧ s.mem.isStore = false ∧ s.mem.isLr = false ∧ s.mem.isAmoRmw = false) :
    MemTruthful p (Beats.made s r.mem.memRdata) := by
  obtain ⟨hmasks, haddr⟩ := masks_of_leaves h hsp ht hp
  have hop : s.mem.hasBusOp = true := by simp [ExMem.hasBusOp, hsc]
  have hbeat : memAmoStoreBeat s = false := by simp [memAmoStoreBeat, hk]
  have hwen : dmemReqWen s = true := by simp [dmemReqWen, memIsStoreOp, hsc]
  have hmask : dmemReqWmask s = 0b1111#4 := by simp [dmemReqWmask, memIsStoreOp, hsc]
  have hdata : dmemReqWdata s = s.mem.storeWdata := by simp [dmemReqWdata, hbeat]
  simp only [traced, hsc, hk, Bool.false_eq_true, if_false, Bool.true_and] at hmasks
  cases hres : s.mem.hasResult
  · simp only [hres, Bool.not_false, if_true, Prod.mk.injEq] at hmasks
    obtain ⟨hr, hw, hd⟩ := hmasks
    rw [made_of_leaves h hop hres]
    refine ⟨?_, ?_, ?_⟩
    · simp [hbeat, hwen, hr]
    · simp [hbeat, hwen, hr]
    · simp [hwen, hw, hd, haddr hop, hmask, hdata]
  · simp only [hres, Bool.not_true, Bool.false_eq_true, if_false, Prod.mk.injEq] at hmasks
    obtain ⟨hr, hw, -⟩ := hmasks
    have hnone : Beats.made s r.mem.memRdata = Beats.none := by simp [Beats.made, hres]
    rw [hnone]
    constructor <;> simp [Beats.none, hr, hw]

/-- The record of an AMO says that it loaded and stored zero. -/
theorem memTruthful_amo (ha : s.mem.isAmoRmw = true) (hph : s.mem.amoPhase = true)
    (hk : s.mem.isStore = false ∧ s.mem.isSc = false ∧ s.mem.isLr = false ∧ s.mem.isLoad = false ∧
      s.mem.hasResult = false) : MemTruthful p (Beats.made s r.mem.memRdata) ↔
      s.bus.amoOld = 0#32 ∧ amoStoreData s.mem.amoFunct5 s.bus.amoOld s.mem.amoRs2 = 0#32 := by
  obtain ⟨hmasks, haddr⟩ := masks_of_leaves h hsp ht hp
  have hop : s.mem.hasBusOp = true := by simp [ExMem.hasBusOp, ha]
  have hbeat : memAmoStoreBeat s = true := by simp [memAmoStoreBeat, ha, hph]
  have hwen : dmemReqWen s = true := by simp [dmemReqWen, memIsStoreOp, hbeat]
  have hmask : dmemReqWmask s = 0b1111#4 := by simp [dmemReqWmask, memIsStoreOp, hbeat, hk]
  have hdata : dmemReqWdata s = amoStoreData s.mem.amoFunct5 s.bus.amoOld s.mem.amoRs2 := by
    simp [dmemReqWdata, hbeat]
  have hrdata : p.memRdata = 0#32 := by rw [hp.rdata]; simp [hk, hph]
  have hlanes := readLanes_of_atomic (s := s) (by simp [ha])
  simp only [traced, ha, hk, Bool.false_and, Bool.false_eq_true, if_false, if_true, Prod.mk.injEq] at hmasks
  obtain ⟨hr, hw, hd⟩ := hmasks
  rw [made_of_leaves h hop hk.2.2.2.2]
  constructor
  · intro hm
    have hans := hm.answers
    have hwr := hm.writes
    simp [hbeat, hr, hrdata] at hans
    simp [hwen, hw, hd, hdata] at hwr
    exact ⟨hans, hwr.2.2⟩
  · rintro ⟨hold, hnew⟩
    refine ⟨?_, ?_, ?_⟩
    · simp [hbeat, hr, hlanes, haddr hop]
    · simp [hbeat, hr, hrdata, hold]
    · simp [hwen, hw, hd, haddr hop, hmask, hdata, hnew]

end Leaving

/-- The memory side of a record is right exactly for what the tap can record. -/
theorem memTruthful_iff {g : RegFile} (h : Leaves s) (hsp : Spaced s) (ht : Traces s r) (hp : Reports s r p)
    (hamo : s.mem.isAmoRmw = true → s.mem.amoPhase = true ∧ s.mem.amoRs2 = g.read (rs2Field s.mem.instr)) :
    MemTruthful p (Beats.made s r.mem.memRdata) ↔ Recorded s.mem.instr g (Beats.made s r.mem.memRdata) := by
  have hfrom := hsp.mem_origin h.valid
  have hclean := h.trap hsp
  obtain ⟨hl, hst, hlr, hsc, ha⟩ := hfrom.flags hclean
  obtain ⟨hf3, hf5⟩ := fields_eq hfrom
  cases hload : s.mem.isLoad
  · have hld : Decode.isLoad s.mem.instr = false := hl ▸ hload
    cases ham : s.mem.isAmoRmw
    · have hd : Decode.isAmoRmw s.mem.instr = false := ha ▸ ham
      refine iff_of_true ?_ ⟨by simp [hld], by simp [hd]⟩
      cases h₁ : s.mem.isStore
      · cases h₂ : s.mem.isLr
        · cases h₃ : s.mem.isSc
          · obtain ⟨hmasks, -⟩ := masks_of_leaves h hsp ht hp
            simp only [traced, hload, ham, h₁, h₂, h₃, Bool.false_and, Bool.false_eq_true, if_false,
              Prod.mk.injEq] at hmasks
            have hnone : Beats.made s r.mem.memRdata = Beats.none := by
              simp [Beats.made, ExMem.hasBusOp, hload, ham, h₁, h₂, h₃]
            rw [hnone]
            constructor <;> simp [Beats.none, hmasks]
          · exact memTruthful_sc h hsp ht hp h₃ (Class.of_sc hfrom hclean h₃)
        · exact memTruthful_lr h hsp ht hp h₂ (Class.of_lr hfrom hclean h₂)
      · exact memTruthful_store h hsp ht hp h₁ (Class.of_store hfrom hclean h₁)
    · have hd : Decode.isAmoRmw s.mem.instr = true := ha ▸ ham
      obtain ⟨hph, hrs2⟩ := hamo ham
      have hk := hfrom.amo ham
      have hans : (Beats.made s r.mem.memRdata).answers = [s.bus.amoOld] := by
        rw [made_of_leaves h (by simp [ExMem.hasBusOp, ham]) hk.2.2.2.2]
        simp [memAmoStoreBeat, ham, hph]
      rw [memTruthful_amo h hsp ht hp ham hph hk, hf5, hrs2]
      constructor
      · intro hz
        exact ⟨by simp [hld], fun _ => by simpa [hans] using hz⟩
      · intro hrec
        exact hrec.amo hd _ (by simp [hans])
  · have hld : Decode.isLoad s.mem.instr = true := hl ▸ hload
    have hk := Class.of_load hfrom hclean hload
    have hd : Decode.isAmoRmw s.mem.instr = false := ha ▸ hk.2.2.1
    rw [memTruthful_load h hsp ht hp hload hk, hf3]
    exact ⟨fun hz => ⟨fun _ => hz, by simp [hd]⟩, fun hrec => hrec.load hld⟩

/-- The registers after a retirement are those before it with the write of the record. -/
theorem rd_written (s : CorePipeline.State) (i : In) (r : State) (a : BitVec 5) :
    (CorePipeline.step s i).regs.read a =
      if (port s r i.ext).rdAddr ≠ 0#5 ∧ a = (port s r i.ext).rdAddr then (port s r i.ext).rdWdata
      else s.regs.read a := by
  show (s.regs.write (rfWen s) s.wb.rd (wbCommitRdData s i.ext)).read a = _
  rw [RegFile.read_write]
  cases hw : rfWen s
  · simp [port, hw]
  · have hz : s.wb.rd ≠ 0#5 := by
      simp only [rfWen, Bool.and_eq_true, bne_iff_ne] at hw
      exact hw.2
    by_cases ha : a = s.wb.rd
    · simp [port, hw, hz, ha]
    · simp [port, hw, hz, ha, Ne.symm ha]

/-! ## Runs -/

variable {pc : Word} {regs : RegFile} {inp : Nat → In} {t : Nat}

/-- A record without a trap is of an instruction that left MEM without one in the cycle before. -/
theorem leaves_of_record (hv : (record pc regs inp t).valid = true) (ht : (record pc regs inp t).trap = false) :
    ∃ u, t = u + 1 ∧ Leaves (CorePipeline.run pc regs inp u) ∧
      (CorePipeline.run pc regs inp t).wb =
        MemWb.ofMem (CorePipeline.run pc regs inp u).mem (CorePipeline.run pc regs inp u).bus ∧
      (CorePipeline.run pc regs inp t).wb.valid = true ∧ (CorePipeline.run pc regs inp t).wb.trap = false := by
  cases t with
  | zero => simp [record, port, CorePipeline.run, CorePipeline.reset] at hv
  | succ u =>
      have hwb : (CorePipeline.run pc regs inp (u + 1)).wb.valid = true ∧
          (CorePipeline.run pc regs inp (u + 1)).wb.trap = false := by
        simp only [record, port] at hv ht
        cases htr : (CorePipeline.run pc regs inp (u + 1)).wb.trap
        · exact ⟨by simpa [htr] using hv, rfl⟩
        · rw [htr] at hv ht
          simp only [Bool.true_and, Bool.not_eq_false'] at ht
          simp [ht] at hv
      have hwb' : (CorePipeline.wbNext (CorePipeline.run pc regs inp u)).valid = true := hwb.1
      obtain ⟨-, hm, hsm, he⟩ := wbNext_valid hwb'
      have hclean : (CorePipeline.wbNext (CorePipeline.run pc regs inp u)).trap = false := hwb.2
      rw [he] at hclean
      exact ⟨u, rfl, ⟨hm, hsm, hclean⟩, he, hwb⟩

/-- In every run that keeps redirects off the data bus, the record of an instruction that retires without a trap is
right exactly when the tap can record it. -/
theorem truthfulAt_iff (pc : Word) (regs : RegFile) (inp : Nat → In) (t : Nat) (hbus : DmemServed pc regs inp)
    (hcalm : ∀ v, v < t → Calm pc regs inp v) (hv : (record pc regs inp t).valid = true)
    (ht : (record pc regs inp t).trap = false) : TruthfulAt pc regs inp t ↔ RecordedAt pc regs inp t := by
  obtain ⟨u, rfl, hl, hwb, hvalid, hclean⟩ := leaves_of_record hv ht
  have hmt : ∀ v, v < u → Matched pc regs inp v := fun v hv => matched_of_calm hbus fun w hw => hcalm w (by omega)
  have hsp : Spaced (CorePipeline.run pc regs inp u) := spaced_run u
  have hal : SerialAlone (CorePipeline.run pc regs inp u) := serialAlone_run u
  have hmir : Mirrors (CorePipeline.run pc regs inp u) (run pc regs inp u) := mirrors_run u
  have hregs : (CorePipeline.run pc regs inp (u + 1)).regs = afterWb (CorePipeline.run pc regs inp u) :=
    step_regs hal hsp (.inr hl.valid)
  have hinstr : (CorePipeline.run pc regs inp (u + 1)).wb.instr = (CorePipeline.run pc regs inp u).mem.instr := by
    rw [hwb, ofMem_instr]
  have hbeats : (carried pc regs inp (u + 1)).2 =
      Beats.made (CorePipeline.run pc regs inp u) (run pc regs inp u).mem.memRdata := by
    rw [← carried_run hmt hl.valid]
    exact Beats.step_idle _ hl.lsPending
  have hshadow : (run pc regs inp (u + 1)).wb = wbNext (CorePipeline.run pc regs inp u) (inp u) (run pc regs inp u) :=
    rfl
  have hnext : (CorePipeline.wbNext (CorePipeline.run pc regs inp u)).valid = true := hvalid
  have hp : Reports (CorePipeline.run pc regs inp u) (run pc regs inp u) (record pc regs inp (u + 1)) := by
    have hrsp : memRspThisCycle (CorePipeline.run pc regs inp u) (inp u) = false := by
      simp [memRspThisCycle, hl.lsPending]
    constructor <;> simp [record, port, hshadow, wbNext, hnext, hclean, hrsp]
  have hamo : (CorePipeline.run pc regs inp u).mem.isAmoRmw = true →
      (CorePipeline.run pc regs inp u).mem.amoPhase = true ∧ (CorePipeline.run pc regs inp u).mem.amoRs2 =
        (afterWb (CorePipeline.run pc regs inp u)).read (rs2Field (CorePipeline.run pc regs inp u).mem.instr) :=
    fun ha => ⟨hl.amoPhase hsp ha ((tracked_run hmt).faulted hl.valid), hmir.amo hl.valid ha⟩
  have hmem := memTruthful_iff hl hsp (traces_run u) hp hamo
  unfold TruthfulAt RecordedAt
  rw [hinstr, hregs, hbeats, ← hmem]
  refine ⟨Truthful.mem, fun hm => ⟨fun _ => ?_, fun _ => ?_, rd_written _ _ _, hm⟩⟩
  · rw [hinstr, hregs, ← (hmir.mem hl.valid).1, ← (hmir.addr hl.valid).1]
    simp [record, port, hshadow, wbNext, hnext]
  · rw [hinstr, hregs, ← (hmir.mem hl.valid).2, ← (hmir.addr hl.valid).2]
    simp [record, port, hshadow, wbNext, hnext]

/-- `lw x5, 0(x0)` over and over: the first one retires in cycle 7. -/
theorem truthfulAt_lw : TruthfulAt RESET_PC (fun _ => 0) (loopInp (fun _ => 0x00002283#32) fun _ => false) 7 := by
  refine (truthfulAt_iff RESET_PC _ _ 7 (loop_disciplined _ _).dmem ?_ ?_ ?_).mpr ⟨fun _ => ?_, fun ha => ?_⟩
  · simp only [Calm, run_loop]
    decide +kernel
  · decide +kernel
  · decide +kernel
  · decide +kernel
  · revert ha
    decide +kernel

/-- `addi x2, x0, 5` and `amoadd.w x3, x2, (x0)`: the AMO stores 5 and retires in cycle 13 with a record of 0. -/
theorem not_truthful : ¬ ∀ pc regs inp, Disciplined pc regs inp → ∀ t, (record pc regs inp t).valid = true →
    (record pc regs inp t).trap = false → TruthfulAt pc regs inp t := by
  intro h
  let word : Word → Word := fun a => if a = RESET_PC then 0x00500113#32 else 0x002021AF#32
  have hmem := (h RESET_PC (fun _ => 0) (loopInp word fun _ => false) (loop_disciplined _ _) 13 (by decide +kernel)
    (by decide +kernel)).mem
  have hwrites := hmem.writes
  revert hwrites
  decide +kernel

end QinglongCore.Rvfi
