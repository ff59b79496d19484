import QinglongCore.Pipeline.Lemmas.Beats
import QinglongCore.Pipeline.Lemmas.Operands
import QinglongCore.Rtl.Rvfi

/-!
# The RVFI tap beside the pipeline

The shadow registers move with the stage registers. They hold the operands as the older instructions leave them, and
a memory trace that is read off the request of the instruction in MEM.
-/

namespace QinglongCore.Rvfi

open CorePipeline

variable {s : CorePipeline.State} {i : In} {r : State}

/-! ## Operands -/

/-- The operands in the shadow registers. -/
structure Mirrors (s : CorePipeline.State) (r : State) : Prop where
  captured : s.ex.valid = true → r.stalled = false ∨ s.wb.valid = true →
    s.ex.rs1Data = s.regs.read s.ex.rs1 ∧ s.ex.rs2Data = s.regs.read s.ex.rs2
  held : r.stalled = true → s.ex.valid = true ∧ s.ex.ctrl.isDiv = true ∧ s.mem.valid = false ∧
    r.rs1Held = (settled s).read s.ex.rs1 ∧ r.rs2Held = (settled s).read s.ex.rs2
  addr : s.mem.valid = true → r.mem.rs1Addr = rs1Field s.mem.instr ∧ r.mem.rs2Addr = rs2Field s.mem.instr
  mem : s.mem.valid = true → r.mem.rs1Rdata = (afterWb s).read (rs1Field s.mem.instr) ∧
    r.mem.rs2Rdata = (afterWb s).read (rs2Field s.mem.instr)
  amo : s.mem.valid = true → s.mem.isAmoRmw = true → s.mem.amoRs2 = (afterWb s).read (rs2Field s.mem.instr)

theorem mirrors_reset (pc : Word) (regs : RegFile) : Mirrors (CorePipeline.reset pc regs) reset := by
  constructor <;> simp [CorePipeline.reset, reset]

/-- The forwarded operands are the settled registers, for an operand that was captured. -/
theorem Mirrors.fwd (h : Mirrors s r) (hsp : Spaced s) (hx : s.ex.valid = true) (hst : r.stalled = false) :
    exRs1Fwd s = (settled s).read s.ex.rs1 ∧ exRs2Fwd s = (settled s).read s.ex.rs2 := by
  obtain ⟨h₁, h₂⟩ := h.captured hx (.inl hst)
  rw [exRs1Fwd, exRs2Fwd, h₁, h₂, forward_eq hsp hx, forward_eq hsp hx]
  exact ⟨rfl, rfl⟩

theorem read_guarded (g : RegFile) (a : BitVec 5) : (if a = 0#5 then 0#32 else g.read a) = g.read a := by
  by_cases ha : a = 0#5
  · simp [ha, RegFile.read]
  · simp [ha]

/-- The operand view of the tap, through a stall or without one. -/
theorem Mirrors.now (h : Mirrors s r) (hsp : Spaced s) (hx : s.ex.valid = true) :
    rs1Now s r = (settled s).read s.ex.rs1 ∧ rs2Now s r = (settled s).read s.ex.rs2 := by
  cases hst : r.stalled
  · obtain ⟨h₁, h₂⟩ := h.fwd hsp hx hst
    simp only [rs1Now, rs2Now, rs1FwdZ, rs2FwdZ, hst, h₁, h₂, Bool.false_eq_true, if_false, read_guarded, and_self]
  · obtain ⟨-, -, -, h₁, h₂⟩ := h.held hst
    simp only [rs1Now, rs2Now, hst, h₁, h₂, if_true, and_self]

/-- A tap that is stalled behind the edge watches an operation that stays in EX. -/
theorem stalledNext_elim (h : Mirrors s r) (hst : stalledNext s r = true) :
    wbRedirect s = false ∧ s.ex.valid = true ∧ stallEx s = true ∧ (stalls s r = true ∨ r.stalled = true) := by
  have hoff : (wbRedirect s || advances s) = false := by
    cases ho : wbRedirect s || advances s
    · rfl
    · simp [stalledNext, ho] at hst
  simp only [Bool.or_eq_false_iff] at hoff
  have hon : stalls s r = true ∨ r.stalled = true := by
    cases hs : stalls s r
    · exact .inr (by simpa [stalledNext, hoff, hs] using hst)
    · exact .inl rfl
  have hx : s.ex.valid = true := by
    rcases hon with hs | hr
    · simp only [stalls, Bool.and_eq_true] at hs; exact hs.1.1
    · exact (h.held hr).1
  have hse : stallEx s = true := by simpa [advances, hx] using hoff.2
  exact ⟨hoff.1, hx, hse, hon⟩

/-- While the core has an instruction stalled in EX, a tap that is not stalled afterwards was told of a redirect. -/
theorem wbRedirect_of_unstalled (hx : s.ex.valid = true) (hse : stallEx s = true) (hst : stalledNext s r = false) :
    wbRedirect s = true := by
  cases hw : wbRedirect s
  · cases hr : r.stalled <;> simp [stalledNext, stalls, advances, hw, hx, hse, hr] at hst
  · rfl

theorem mirrors_step (hsp : Spaced s) (hal : SerialAlone s) (h : Mirrors s r) (i : In) :
    Mirrors (CorePipeline.step s i) (step s i r) where
  captured hv hcap := by
    rcases exNext_valid hv with ⟨hse, hx, he⟩ | ⟨-, -, -, -, -, he⟩
    · have he' : (CorePipeline.step s i).ex = s.ex := he
      have hquiet : (r.stalled = false ∨ s.wb.valid = true) ∧ rfWen s = false := by
        rcases hcap with hst | hwb
        · have hw := wbRedirect_of_unstalled hx hse hst
          exact ⟨.inr (wb_valid_of_wbRedirect hw), hal.rfWen_of_redirect hsp hw hx⟩
        · have hm := (wbNext_valid hwb).2.1
          have hst : r.stalled = false := by
            cases hst : r.stalled
            · rfl
            · rw [(h.held hst).2.2.1] at hm; simp at hm
          exact ⟨.inl hst, by simp [rfWen, hsp.not_three hx hm]⟩
      have hregs : (CorePipeline.step s i).regs = s.regs := by
        show s.regs.write (rfWen s) _ _ = s.regs
        rw [hquiet.2, RegFile.write_false]
      rw [he', hregs]
      exact h.captured hx hquiet.1
    · have he' : (CorePipeline.step s i).ex = exAdvance s i.ext := he
      rw [he']
      exact ⟨idRead_eq i, idRead_eq i⟩
  held hst := by
    obtain ⟨-, hx, hse, hon⟩ := stalledNext_elim h hst
    have he : (CorePipeline.step s i).ex = s.ex := by rw [step_ex]; simp [exNext, hse]
    have hm : (CorePipeline.step s i).mem.valid = false := by
      rw [step_mem]
      simp [CorePipeline.memNext, hse, hsp.stallMem_of_ex hx, ExMem.bubble]
    have hdiv : s.ex.ctrl.isDiv = true := by
      rw [hsp.stallEx_of_ex hx] at hse
      exact (exDivStall_elim hse).2.1
    rw [settled_step hal hsp hx hse, he]
    refine ⟨hx, hdiv, hm, ?_⟩
    show (if stalls s r then rs1FwdZ s else r.rs1Held) = _ ∧ (if stalls s r then rs2FwdZ s else r.rs2Held) = _
    have hnow := h.now hsp hx
    cases hs : stalls s r
    · have hr : r.stalled = true := by simpa [hs] using hon
      simpa [rs1Now, rs2Now, hr] using hnow
    · have hr : r.stalled = false := by simp only [stalls, Bool.and_eq_true, Bool.not_eq_true'] at hs; exact hs.2
      simpa [rs1Now, rs2Now, hr] using hnow
  addr hv := by
    show (memNext s i r).rs1Addr = rs1Field (CorePipeline.memNext s i).instr ∧
      (memNext s i r).rs2Addr = rs2Field (CorePipeline.memNext s i).instr
    obtain ⟨-, ⟨hst, hm, he⟩ | ⟨hse, hx, he⟩⟩ := memNext_valid hv
    · have ha : advances s = false := by simp [advances, stallEx_of_stallMem hst]
      simpa [memNext, ha, he] using h.addr hm
    · have ha : advances s = true := by simp [advances, hse, hx]
      simpa [memNext, ha, he] using (hsp.ex_decoded hx).rs_fields
  mem hv := by
    show (memNext s i r).rs1Rdata =
        (afterWb (CorePipeline.step s i)).read (rs1Field (CorePipeline.memNext s i).instr) ∧
      (memNext s i r).rs2Rdata = (afterWb (CorePipeline.step s i)).read (rs2Field (CorePipeline.memNext s i).instr)
    obtain ⟨-, ⟨hst, hm, he⟩ | ⟨hse, hx, he⟩⟩ := memNext_valid hv
    · have ha : advances s = false := by simp [advances, stallEx_of_stallMem hst]
      rw [afterWb_hold hal hsp hm hst, he, memHold_instr]
      simpa [memNext, ha] using h.mem hm
    · have ha : advances s = true := by simp [advances, hse, hx]
      obtain ⟨h₁, h₂⟩ := (hsp.ex_decoded hx).rs_fields
      rw [afterWb_step hal hsp hx, he, memAdvance_instr, ← h₁, ← h₂]
      simpa [memNext, ha] using h.now hsp hx
  amo hv hamo := by
    show (CorePipeline.memNext s i).amoRs2 =
      (afterWb (CorePipeline.step s i)).read (rs2Field (CorePipeline.memNext s i).instr)
    have hamo' : (CorePipeline.memNext s i).isAmoRmw = true := hamo
    obtain ⟨-, ⟨hst, hm, he⟩ | ⟨hse, hx, he⟩⟩ := memNext_valid hv
    · rw [he] at hamo' ⊢
      rw [afterWb_hold hal hsp hm hst, memHold_instr]
      have hkept : (memHold s i).isAmoRmw = s.mem.isAmoRmw ∧ (memHold s i).amoRs2 = s.mem.amoRs2 := by
        unfold memHold
        split_ifs <;> exact ⟨rfl, rfl⟩
      rw [hkept.2]
      exact h.amo hm (hkept.1 ▸ hamo')
    · rw [he] at hamo' ⊢
      have hst : r.stalled = false := by
        cases hr : r.stalled
        · rfl
        · have hdiv := (h.held hr).2.1
          rw [(hsp.ex_decoded hx).isDiv] at hdiv
          simp only [memAdvance, ExMem.ofEx, Bool.and_eq_true] at hamo'
          rw [(hsp.ex_decoded hx).flags.2.2.2.2, (Decode.not_bus_of_isDiv hdiv).2.2.2.2] at hamo'
          simp at hamo'
      rw [afterWb_step hal hsp hx, memAdvance_instr, ← (hsp.ex_decoded hx).rs_fields.2]
      exact (h.fwd hsp hx hst).2

/-! ## Memory trace -/

/-- The loads whose size the tap does not know; the core reads a word. -/
def reservedLoad (f : BitVec 3) : Bool := f == 0b011#3 || f == 0b110#3 || f == 0b111#3

/-- The trace of the instruction in MEM: the masks and the data to be written. -/
def traced (s : CorePipeline.State) : BitVec 4 × BitVec 4 × Word :=
  if s.mem.isLoad then (if reservedLoad s.mem.funct3 then 0b0000#4 else readLanes s, 0b0000#4, 0#32)
  else if s.mem.isStore then (0b0000#4, s.mem.storeWmask, s.mem.storeWdata)
  else if s.mem.isLr then (0b1111#4, 0b0000#4, 0#32)
  else if s.mem.isSc && !s.mem.hasResult then (0b0000#4, 0b1111#4, s.mem.storeWdata)
  else if s.mem.isAmoRmw then (0b1111#4, 0b1111#4, 0#32)
  else (0b0000#4, 0b0000#4, 0#32)

theorem funct3_of_isSc {ex : IdEx} (h : ex.Decoded) (hs : ex.ctrl.isSc = true) :
    ex.funct3 = F3_AMO_W := by
  obtain ⟨id, m, d₁, d₂, rfl, -⟩ := h
  have hsc : Decode.isSc id.instr = true := hs
  simp only [Decode.isSc, Decode.isAmoW, Bool.and_eq_true, beq_iff_eq] at hsc
  exact hsc.1.2

/-- What has just entered MEM without a trap is traced by the lanes that it asks for. -/
theorem memTrace_eq {s' : CorePipeline.State} (hm : s'.mem = memAdvance s) (hd : s.ex.Decoded)
    (hv : s.ex.valid = true) (ht : exTrap s = false) :
    memTrace s.ex (exRs1Fwd s) (exRs2Fwd s) (exScHit s) = traced s' := by
  obtain ⟨hld, hst, hlr, hsc, ham⟩ := hd.flags
  have hnone : exTrapInfo s = none := by simpa [exTrap] using ht
  have hal := IdEx.aligned_of_no_trap hv hnone
  have hflags : s'.mem.isLoad = s.ex.ctrl.isLoad ∧ s'.mem.isStore = s.ex.ctrl.isStore ∧
      s'.mem.isLr = s.ex.ctrl.isLr ∧ s'.mem.isSc = s.ex.ctrl.isSc ∧ s'.mem.isAmoRmw = s.ex.ctrl.isAmoRmw := by
    rw [hm]
    simp [memAdvance, ExMem.ofEx, hnone]
  have hf3 : s'.mem.funct3 = s.ex.funct3 := by rw [hm]; rfl
  cases hl : s.ex.ctrl.isLoad
  · cases hs : s.ex.ctrl.isStore
    · cases hr : s.ex.ctrl.isLr
      · cases hc : s.ex.ctrl.isSc
        · cases ha : s.ex.ctrl.isAmoRmw
          · simp [memTrace, traced, hflags, hl, hs, hr, hc, ha]
          · simp [memTrace, traced, hflags, hl, hs, hr, hc, ha, hal]
        · -- SC is word-sized, so its store data is the operand as it is
          have hres : s'.mem.hasResult = !exScHit s := by rw [hm]; simp [memAdvance, ExMem.ofEx, hnone, hc]
          have hdata : s'.mem.storeWdata = exRs2Fwd s := by
            rw [hm]
            have hf : s.ex.funct3 = F3_AMO_W := funct3_of_isSc hd hc
            simp [memAdvance, ExMem.ofEx, IdEx.storeWdata, hf, F3_AMO_W, F3_SB, F3_SH]
          have ha : s.ex.ctrl.isAmoRmw = false := by
            rw [ham]
            exact (Decode.of_isSc (hsc ▸ hc)).2
          cases hhit : exScHit s <;> simp [memTrace, traced, hflags, hl, hs, hr, hc, ha, hal, hres, hdata, hhit]
      · simp [memTrace, traced, hflags, hl, hs, hr, hal]
    · have hmask : s'.mem.storeWmask = s.ex.storeWmask (exRs1Fwd s) := by rw [hm]; rfl
      have hdata : s'.mem.storeWdata = s.ex.storeWdata (exRs1Fwd s) (exRs2Fwd s) := by rw [hm]; rfl
      simp [memTrace, traced, hflags, hl, hs, hal, hmask, hdata]
  · obtain ⟨hlr', hsc', ham'⟩ := Decode.not_atomic_of_access (w := s.ex.instr) (by simp [← hld, hl])
    have haddr : s'.mem.aluY = s.ex.lsAddr (exRs1Fwd s) := by rw [hm]; simp [memAdvance, ExMem.ofEx, hl]
    rw [hlr'] at hlr
    rw [hsc'] at hsc
    rw [ham'] at ham
    simp only [memTrace, traced, hflags, hl, hal (by simp [hl]), Bool.not_false, Bool.and_self, if_true, Prod.mk.injEq,
      and_true, loadRmask, readLanes, dmemReqSize, haddr, hf3, hlr, hsc, ham]
    generalize s.ex.funct3 = f
    have hf : f = 0#3 ∨ f = 1#3 ∨ f = 2#3 ∨ f = 3#3 ∨ f = 4#3 ∨ f = 5#3 ∨ f = 6#3 ∨ f = 7#3 := by
      revert f
      decide
    rcases hf with rfl | rfl | rfl | rfl | rfl | rfl | rfl | rfl <;>
      simp [F3_LB, F3_LBU, F3_LH, F3_LHU, F3_LW, F3_SB, F3_SH, reservedLoad]

/-- The shadow of the instruction in MEM traces its request. -/
structure Traces (s : CorePipeline.State) (r : State) : Prop where
  addr : s.mem.valid = true → s.mem.hasBusOp = true → r.mem.memAddr = dmemReqAddr s
  masks : s.mem.valid = true → s.mem.trap = false → (r.mem.memRmask, r.mem.memWmask, r.mem.memWdata) = traced s

theorem traces_reset (pc : Word) (regs : RegFile) : Traces (CorePipeline.reset pc regs) reset := by
  constructor <;> simp [CorePipeline.reset]

theorem traces_step (hsp : Spaced s) (h : Traces s r) (i : In) :
    Traces (CorePipeline.step s i) (step s i r) where
  addr hv hop := by
    show (memNext s i r).memAddr = alignWord (CorePipeline.memNext s i).aluY
    have hop' : (CorePipeline.memNext s i).hasBusOp = true := hop
    obtain ⟨-, ⟨hst, hm, he⟩ | ⟨hse, hx, he⟩⟩ := memNext_valid hv
    · have ha : advances s = false := by simp [advances, stallEx_of_stallMem hst]
      have hy : (memHold s i).aluY = s.mem.aluY := by
        unfold memHold
        split_ifs <;> rfl
      rw [he, memHold_hasBusOp] at hop'
      rw [he, hy]
      simpa [memNext, ha, dmemReqAddr] using h.addr hm hop'
    · have ha : advances s = true := by simp [advances, hse, hx]
      have hy : (memAdvance s).aluY = s.ex.lsAddr (exRs1Fwd s) := by
        rw [he] at hop'
        simp only [memAdvance, ExMem.ofEx, ExMem.hasBusOp, Bool.or_eq_true, Bool.and_eq_true] at hop'
        have hls : (s.ex.ctrl.isLoad || s.ex.ctrl.isStore || s.ex.isAtomic) = true := by
          simp only [IdEx.isAtomic, Bool.or_eq_true]
          tauto
        simp [memAdvance, ExMem.ofEx, hls]
      rw [he, hy]
      simp [memNext, ha]
  masks hv ht := by
    show ((memNext s i r).memRmask, (memNext s i r).memWmask, (memNext s i r).memWdata) = _
    obtain ⟨hw, ⟨hst, hm, he⟩ | ⟨hse, hx, he⟩⟩ := memNext_valid hv
    · have ha : advances s = false := by simp [advances, stallEx_of_stallMem hst]
      have he' : (CorePipeline.step s i).mem = memHold s i := he
      have hkept : traced (CorePipeline.step s i) = traced s := by
        unfold traced readLanes dmemReqSize
        rw [he']
        rcases memHold_cases (s := s) (i := i) with hc | hc | hc <;> rw [hc]
      rw [he', memHold_trap] at ht
      rw [hkept]
      simpa [memNext, ha] using h.masks hm ht
    · have ha : advances s = true := by simp [advances, hse, hx]
      have he' : (CorePipeline.step s i).mem = memAdvance s := he
      rw [he', memAdvance_trap] at ht
      rw [← memTrace_eq he' (hsp.ex_decoded hx) hx ht]
      simp [memNext, ha]

/-! ## Runs -/

/-- The requests that the tap listens to are those of the beats that read. -/
theorem reads_eq {m : ExMem} (h : m.FromEx) (hop : m.hasBusOp = true) :
    (m.isLoad || m.isLr || (m.isAmoRmw && !m.amoPhase)) = !(m.isStore || m.isSc || (m.isAmoRmw && m.amoPhase)) := by
  have ht : m.trap = false := by
    cases ht : m.trap
    · rfl
    · rw [h.trap_no_bus ht] at hop; simp at hop
  obtain ⟨hl, hs, hr, hc, ha⟩ := h.flags ht
  cases hamo : m.isAmoRmw
  · cases hst : m.isStore
    · cases hsc : m.isSc
      · have hld : (m.isLoad || m.isLr) = true := by simpa [ExMem.hasBusOp, hamo, hst, hsc] using hop
        simpa using hld
      · have hsc' : Decode.isSc m.instr = true := hc ▸ hsc
        have h₁ : m.isLoad = false := by rw [hl, (Decode.of_isAmo (Decode.isAmo_of_isSc hsc')).1]
        have h₂ : m.isLr = false := by rw [hr, (Decode.of_isSc hsc').1]
        simp [h₁, h₂]
    · have hst' : Decode.isStore m.instr = true := hs ▸ hst
      have h₁ : m.isLoad = false := by
        cases hld : m.isLoad
        · rfl
        · rw [Decode.isStore_of_isLoad (hl ▸ hld)] at hst'; simp at hst'
      have h₂ : m.isLr = false := by rw [hr, (Decode.not_atomic_of_access (by simp [hst'])).1]
      simp [h₁, h₂]
  · obtain ⟨h₁, h₂, h₃, h₄, -⟩ := h.amo hamo
    cases m.amoPhase <;> simp [h₁, h₂, h₃, h₄]

theorem memRdataNext_eq (hsp : Spaced s) : memRdataNext s i r = wordNext s i r.mem.memRdata := by
  cases hr : memRspThisCycle s i
  · simp [memRdataNext, wordNext, hr]
  · obtain ⟨hv, hl, -⟩ := memRspThisCycle_elim hr
    have hfrom := hsp.mem_origin hv
    rw [memRdataNext, wordNext, hr, reads_eq hfrom (hfrom.hasBusOp hl)]
    simp [dmemReqWen, memIsStoreOp, memAmoStoreBeat]

variable {pc : Word} {regs : RegFile} {inp : Nat → In} {t : Nat}

theorem mirrors_run (t : Nat) : Mirrors (CorePipeline.run pc regs inp t) (run pc regs inp t) := by
  induction t with
  | zero => exact mirrors_reset pc regs
  | succ t ih => exact mirrors_step (spaced_run t) (serialAlone_run t) ih (inp t)

theorem traces_run (t : Nat) : Traces (CorePipeline.run pc regs inp t) (run pc regs inp t) := by
  induction t with
  | zero => exact traces_reset pc regs
  | succ t ih => exact traces_step (spaced_run t) ih (inp t)

/-- The beats of the instruction in MEM, by its fields and the word that the tap has caught. -/
theorem carried_run (hmt : ∀ v, v < t → Matched pc regs inp v)
    (hv : (CorePipeline.run pc regs inp t).mem.valid = true) :
    (carried pc regs inp t).1 = Beats.made (CorePipeline.run pc regs inp t) (run pc regs inp t).mem.memRdata := by
  induction t with
  | zero => simp [CorePipeline.run, CorePipeline.reset] at hv
  | succ t ih =>
      have hsp : Spaced (CorePipeline.run pc regs inp t) := spaced_run t
      have hcaught : (run pc regs inp (t + 1)).mem.memRdata =
          wordNext (CorePipeline.run pc regs inp t) (inp t) (run pc regs inp t).mem.memRdata := by
        rw [← memRdataNext_eq hsp]
        show (memNext _ _ _).memRdata = _
        unfold memNext
        split_ifs <;> rfl
      show (if stallMem (CorePipeline.run pc regs inp t) then
        (carried pc regs inp t).1.step (CorePipeline.run pc regs inp t) (inp t) else Beats.none) = _
      obtain ⟨hw, ⟨hst, hm, -⟩ | ⟨hse, hx, -⟩⟩ := memNext_valid hv
      · rw [if_pos hst, ih (fun v hv => hmt v (by omega)) hm, hcaught]
        refine (hsp.made_hold hw hm hst fun hr => ?_).symm
        exact hmt t (by omega) (memRspThisCycle_elim hr).2.2
      · rw [if_neg (by simp [stallMem_false_of_stallEx hse])]
        exact (hsp.made_fresh hw hx hse).symm

end QinglongCore.Rvfi
