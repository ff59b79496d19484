import QinglongCore.Pipeline.Lemmas.DataBus
import QinglongCore.Pipeline.Lemmas.Passage

/-!
# What a store is answered

The core takes the data of every answer into `load_data`, and from there into the result of WB. Neither is looked at
for an instruction that writes no register.
-/

namespace QinglongCore.CorePipeline

open Isa (Retirement)

variable {s s' : State} {i i' : In} {x y : Word}

/-- The state with other data in `load_data` and in the result of WB. -/
def State.relabel (s : State) (x y : Word) : State :=
  { s with bus := { s.bus with loadData := x }, wb := { s.wb with result := y } }

/-- The inputs with other data of the data bus and with `b` for the readiness of the fetch bus. -/
def In.relabel (i : In) (d : Word) (b : Bool) : In := { i with dmemRspRdata := d, ifetchReqReady := b }

/-- MEM holds an instruction that stores or may store. -/
def memMayStore (s : State) : Bool := s.mem.valid && (s.mem.isStore || s.mem.isSc || s.mem.isAmoRmw)

/-- Two states that differ at most in what no register will take. -/
structure Alike (s s' : State) : Prop where
  eq : ∃ x y, s' = s.relabel x y
  load : memMayStore s = false → s'.bus.loadData = s.bus.loadData
  wb : s.wb.rdWen = true → s'.wb.result = s.wb.result

/-- Inputs that differ at most in the data of an answer to a write, and in whether a fetch that is not asked for would
be accepted. -/
structure AlikeIn (s : State) (i i' : In) : Prop where
  eq : ∃ d b, i' = i.relabel d b
  read : memRspThisCycle s i = true → dmemReqWen s = false → i'.dmemRspRdata = i.dmemRspRdata
  ready : ifetchReqValid s i.ext = true → i'.ifetchReqReady = i.ifetchReqReady

/-- The commit ports show the same, but for the data that goes to no register. -/
structure AlikeRetired (r r' : Retirement) : Prop where
  eq : ∃ x, r' = { r with rdData := x }
  data : r.rdWen = true → r'.rdData = r.rdData

theorem Alike.refl (s : State) : Alike s s := ⟨⟨s.bus.loadData, s.wb.result, rfl⟩, fun _ => rfl, fun _ => rfl⟩

/-! ## Operands -/

section
variable (h : s.wb.rdWen = true → y = s.wb.result)
include h

theorem forward_relabel (a : BitVec 5) (d : Word) : forward (s.relabel x y) a d = forward s a d := by
  unfold forward State.relabel
  cases hw : s.wb.rdWen
  · simp
  · rw [h hw]

theorem exRs1Fwd_relabel : exRs1Fwd (s.relabel x y) = exRs1Fwd s := forward_relabel h _ _

theorem exRs2Fwd_relabel : exRs2Fwd (s.relabel x y) = exRs2Fwd s := forward_relabel h _ _

theorem exTrapInfo_relabel : exTrapInfo (s.relabel x y) = exTrapInfo s := by
  unfold exTrapInfo
  rw [exRs1Fwd_relabel h, exRs2Fwd_relabel h]
  rfl

theorem branchRedirect_relabel : branchRedirect (s.relabel x y) = branchRedirect s := by
  unfold branchRedirect exTrap
  rw [exRs1Fwd_relabel h, exRs2Fwd_relabel h, exTrapInfo_relabel h]
  rfl

theorem branchRedirectPc_relabel : branchRedirectPc (s.relabel x y) = branchRedirectPc s := by
  unfold branchRedirectPc
  rw [exRs1Fwd_relabel h]
  rfl

theorem flushId_relabel : flushId (s.relabel x y) = flushId s := by
  unfold flushId
  rw [branchRedirect_relabel h]
  rfl

theorem ifetchReqValid_relabel (e : Ext) : ifetchReqValid (s.relabel x y) e = ifetchReqValid s e := by
  unfold ifetchReqValid ifCanIssue
  rw [branchRedirect_relabel h]
  rfl

theorem rfWen_commit (e : Ext) (hw : rfWen s = true) :
    wbCommitRdData (s.relabel x y) e = wbCommitRdData s e := by
  simp only [rfWen, Bool.and_eq_true] at hw
  unfold wbCommitRdData State.relabel
  rw [h hw.1.1.2]
  rfl

theorem idRead_relabel (e : Ext) (a : BitVec 5) : idRead (s.relabel x y) e a = idRead s e a := by
  show (if (rfWen s && s.wb.rd == a && a != 0#5) = true then wbCommitRdData (s.relabel x y) e else s.regs.read a) = _
  unfold idRead
  by_cases hw : rfWen s = true
  · rw [rfWen_commit h e hw]
  · simp [Bool.eq_false_iff.mpr hw]

/-! ## One clock edge -/

theorem fetchNext_relabel : fetchNext (s.relabel x y) i = fetchNext s i := by
  unfold fetchNext ifetchAccept
  rw [ifetchReqValid_relabel h, branchRedirect_relabel h, branchRedirectPc_relabel h, flushId_relabel h]
  rfl

theorem idNext_relabel : idNext (s.relabel x y) i = idNext s i := by
  unfold idNext
  rw [flushId_relabel h]
  rfl

theorem exNext_relabel : exNext (s.relabel x y) i = exNext s i := by
  unfold exNext exAdvance
  rw [idRead_relabel h, idRead_relabel h]
  rfl

theorem memAdvance_relabel : memAdvance (s.relabel x y) = memAdvance s := by
  unfold memAdvance exScHit
  rw [exRs1Fwd_relabel h, exRs2Fwd_relabel h, exTrapInfo_relabel h]
  rfl

theorem memNext_relabel : memNext (s.relabel x y) i = memNext s i := by
  unfold memNext
  rw [memAdvance_relabel h]
  rfl

theorem divIn_relabel : divIn (s.relabel x y) = divIn s := by
  unfold divIn
  rw [exRs1Fwd_relabel h, exRs2Fwd_relabel h]
  rfl

theorem trapPendingNext_relabel : trapPendingNext (s.relabel x y) = trapPendingNext s := by
  unfold trapPendingNext exTrap
  rw [exTrapInfo_relabel h]
  rfl

theorem regs_relabel (e : Ext) : (s.regs.write (rfWen (s.relabel x y)) s.wb.rd (wbCommitRdData (s.relabel x y) e)) =
    s.regs.write (rfWen s) s.wb.rd (wbCommitRdData s e) := by
  have hr : rfWen (s.relabel x y) = rfWen s := rfl
  rw [hr]
  by_cases hw : rfWen s = true
  · rw [rfWen_commit h e hw]
  · rw [Bool.eq_false_iff.mpr hw, RegFile.write_false, RegFile.write_false]

end

theorem wbNext_relabel : wbNext (s.relabel x y) = { wbNext s with result := (wbNext (s.relabel x y)).result } := by
  have hm : MemWb.ofMem s.mem { s.bus with loadData := x } =
      { MemWb.ofMem s.mem s.bus with result := (MemWb.ofMem s.mem { s.bus with loadData := x }).result } := by
    unfold MemWb.ofMem
    dsimp only
    split_ifs <;> rfl
  have hw : wbNext (s.relabel x y) =
      let w := if s.mem.valid && !stallMem s then MemWb.ofMem s.mem { s.bus with loadData := x }
        else MemWb.payload s.mem
      if wbRedirect s then w.bubble else w := rfl
  rw [hw, wbNext]
  dsimp only
  split_ifs
  · rw [hm]
    rfl
  · rfl
  · exact hm
  · rfl

/-! ## The instruction in MEM -/

/-- An instruction that reads does not write. -/
theorem ExMem.FromEx.reads {m : ExMem} (h : m.FromEx) (hr : (m.isLoad || m.isLr) = true) :
    m.isStore = false ∧ m.isSc = false ∧ m.isAmoRmw = false := by
  obtain ⟨ex, rs1, rs2, dv, p, hit, ph, ls, hd, hv, rfl, hls⟩ := h
  obtain ⟨hl, hst, hlr, hsc, ham⟩ := hd.flags
  simp only [ExMem.ofEx, hl, hlr, Bool.or_eq_true, Bool.and_eq_true] at hr
  rcases hr with ⟨hr, -⟩ | ⟨hr, -⟩
  · obtain ⟨-, hsc', ham'⟩ := Decode.not_atomic_of_access (w := ex.instr) (by simp [hr])
    simp [ExMem.ofEx, hst, hsc, ham, Decode.isStore_of_isLoad hr, hsc', ham']
  · obtain ⟨hsc', ham'⟩ := Decode.of_isLr hr
    have hst' := (Decode.of_isAmo (Decode.isAmo_of_isLr hr)).2
    simp [ExMem.ofEx, hst, hsc, ham, hst', hsc', ham']

/-- The beat of an AMO that reads is no write. -/
theorem dmemReqWen_of_amo (hfrom : s.mem.FromEx) (ha : s.mem.isAmoRmw = true) (hp : s.mem.amoPhase = false) :
    dmemReqWen s = false := by
  obtain ⟨hst, hsc, -⟩ := hfrom.amo ha
  simp [dmemReqWen, memIsStoreOp, memAmoStoreBeat, hst, hsc, hp]

theorem dmemReqWen_of_not_store (hv : s.mem.valid = true) (h : memMayStore s = false) : dmemReqWen s = false := by
  simp only [memMayStore, hv, Bool.true_and, Bool.or_eq_false_iff] at h
  simp [dmemReqWen, memIsStoreOp, memAmoStoreBeat, h]

/-! ## One clock edge on other inputs -/

/-- The data that an answer brings to AMO. -/
theorem amoOld_alike (hsp : Spaced s) (hi : AlikeIn s i i') :
    (busNext (s.relabel x y) i').amoOld = (busNext s i).amoOld := by
  obtain ⟨⟨d, b, rfl⟩, hread, -⟩ := hi
  show (if (wbRedirect s || (!stallMem s && s.mem.valid && memHasBusOp s)) = true then 0#32
    else if (memRspThisCycle s i && (s.mem.isAmoRmw && !s.mem.amoPhase)) = true then d else s.bus.amoOld) = _
  unfold busNext
  dsimp only
  split_ifs with hc hr
  · rfl
  · simp only [Bool.and_eq_true, Bool.not_eq_true'] at hr
    have hv := (memRspThisCycle_elim hr.1).1
    exact hread hr.1 (dmemReqWen_of_amo (hsp.mem_origin hv) hr.2.1 hr.2.2)
  · rfl

/-- The data that an answer brings to an instruction that does not store. -/
theorem loadData_alike (h : Alike s s') (hi : AlikeIn s i i') (hn : memMayStore (step s i) = false) :
    (busNext s' i').loadData = (busNext s i).loadData := by
  obtain ⟨⟨x, y, rfl⟩, hload, -⟩ := h
  obtain ⟨⟨d, b, rfl⟩, hread, -⟩ := hi
  show (if (wbRedirect s || (!stallMem s && s.mem.valid && memHasBusOp s)) = true then 0#32
    else if (memRspThisCycle s i && !(s.mem.isAmoRmw && !s.mem.amoPhase)) = true then
      (if s.mem.isLr then d else loadAligned s.mem.funct3 s.mem.aluY d) else x) = _
  unfold busNext
  dsimp only
  split_ifs with hc hr hlr
  · rfl
  all_goals
    have hkeep : memMayStore s = false := by
      cases hst : stallMem s
      · have hop : (s.mem.valid && memHasBusOp s) = false := by
          rw [hst] at hc
          simpa using (not_or.mp (Bool.or_eq_true_iff.not.mp hc)).2
        unfold memMayStore
        simp only [memHasBusOp, ExMem.hasBusOp] at hop
        cases hv : s.mem.valid <;> simp_all
      · have hw : wbRedirect s = false := by simpa using (not_or.mp (Bool.or_eq_true_iff.not.mp hc)).1
        have hm : (step s i).mem = memHold s i := memNext_of_stall hw hst
        have hf : ∀ m : ExMem, m = memHold s i → m.valid = s.mem.valid ∧ m.isStore = s.mem.isStore ∧
            m.isSc = s.mem.isSc ∧ m.isAmoRmw = s.mem.isAmoRmw := by
          rintro m rfl
          unfold memHold
          split_ifs <;> exact ⟨rfl, rfl, rfl, rfl⟩
        obtain ⟨h₁, h₂, h₃, h₄⟩ := hf _ hm
        rwa [memMayStore, h₁, h₂, h₃, h₄] at hn
  · have hv := (memRspThisCycle_elim (Bool.and_eq_true_iff.mp hr).1).1
    exact hread (Bool.and_eq_true_iff.mp hr).1 (dmemReqWen_of_not_store hv hkeep)
  · have hv := (memRspThisCycle_elim (Bool.and_eq_true_iff.mp hr).1).1
    rw [show d = i.dmemRspRdata from
      hread (Bool.and_eq_true_iff.mp hr).1 (dmemReqWen_of_not_store hv hkeep)]
  · exact hload hkeep

/-- What a register will take out of MEM. -/
theorem result_alike (hsp : Spaced s) (h : Alike s s') (hn : (wbNext s).rdWen = true) :
    (wbNext s').result = (wbNext s).result := by
  obtain ⟨⟨x, y, rfl⟩, hload, -⟩ := h
  have hw : wbRedirect s = false := by
    cases hw : wbRedirect s
    · rfl
    · simp [wbNext, hw, MemWb.bubble] at hn
  cases hm : s.mem.valid && !stallMem s
  · simp [wbNext, hw, hm, MemWb.payload] at hn
  have hof (s₁ : State) (hw₁ : wbRedirect s₁ = false) (hm₁ : (s₁.mem.valid && !stallMem s₁) = true) :
      wbNext s₁ = MemWb.ofMem s₁.mem s₁.bus := by
    rw [wbNext, hw₁, hm₁]
    rfl
  rw [hof _ hw hm] at hn ⊢
  rw [hof (s.relabel x y) hw hm]
  simp only [Bool.and_eq_true, Bool.not_eq_true'] at hm
  show (MemWb.ofMem s.mem { s.bus with loadData := x }).result = _
  cases hr : s.mem.isLoad || s.mem.isLr
  · -- neither a load nor LR: the data is taken into WB at most without a register
    simp only [Bool.or_eq_false_iff] at hr
    unfold MemWb.ofMem at hn ⊢
    simp only [hr.1, hr.2, Bool.false_and, Bool.false_eq_true, if_false] at hn ⊢
    split_ifs at hn ⊢
    all_goals rfl
  · obtain ⟨h₁, h₂, h₃⟩ := (hsp.mem_origin hm.1).reads hr
    rw [show x = s.bus.loadData from hload (by simp [memMayStore, h₁, h₂, h₃])]

theorem ifetchAccept_alike (hi : AlikeIn s i i') : ifetchAccept s i' = ifetchAccept s i := by
  obtain ⟨⟨d, b, rfl⟩, -, hready⟩ := hi
  show (ifetchReqValid s i.ext && b) = (ifetchReqValid s i.ext && i.ifetchReqReady)
  cases hv : ifetchReqValid s i.ext
  · rfl
  · rw [show b = i.ifetchReqReady from hready hv]

theorem fetchNext_alike (hi : AlikeIn s i i') : fetchNext s i' = fetchNext s i := by
  have ha := ifetchAccept_alike hi
  obtain ⟨⟨d, b, rfl⟩, -, -⟩ := hi
  unfold fetchNext
  rw [ha]
  rfl

/-- States that are alike stay so on inputs that are. -/
theorem alike_step (hsp : Spaced s) (h : Alike s s') (hi : AlikeIn s i i') : Alike (step s i) (step s' i') where
  load hn := loadData_alike h hi hn
  wb hn := result_alike hsp h hn
  eq := by
    have hf := fetchNext_alike hi
    obtain ⟨⟨x, y, rfl⟩, -, hwb⟩ := h
    have hwb : s.wb.rdWen = true → y = s.wb.result := hwb
    have hold := amoOld_alike (x := x) (y := y) hsp hi
    obtain ⟨⟨d, b, rfl⟩, -, -⟩ := hi
    refine ⟨(busNext (s.relabel x y) (i.relabel d b)).loadData, (wbNext (s.relabel x y)).result, ?_⟩
    have hb : busNext (s.relabel x y) (i.relabel d b) =
        { busNext s i with loadData := (busNext (s.relabel x y) (i.relabel d b)).loadData } := by
      show _ = MemBus.mk _ _ _ _ _
      rw [← hold]
      rfl
    have hr := regs_relabel (x := x) hwb i.ext
    unfold step
    rw [fetchNext_relabel hwb, idNext_relabel hwb, exNext_relabel hwb, memNext_relabel hwb, divIn_relabel hwb,
      trapPendingNext_relabel hwb, hf, hb, wbNext_relabel]
    show State.mk _ _ _ _ _ _ _ _ _ _ _ _ = State.mk _ _ _ _ _ _ _ _ _ _ _ _
    rw [← hr]
    rfl

/-! ## What is shown -/

theorem retired_isSome (s : State) (i : In) : (shows s i).retired.isSome = s.wb.valid := by
  unfold shows
  dsimp only
  split_ifs with hv
  · exact hv.symm
  · simpa using hv

theorem retired_isSome_alike (h : Alike s s') : (shows s' i').retired.isSome = (shows s i).retired.isSome := by
  obtain ⟨⟨x, y, rfl⟩, -, -⟩ := h
  rw [retired_isSome, retired_isSome]
  rfl

theorem retired_alike (h : Alike s s') (hi : i'.ext = i.ext) {r : Retirement} (hr : (shows s i).retired = some r) :
    ∃ r', (shows s' i').retired = some r' ∧ AlikeRetired r r' := by
  obtain ⟨⟨x, y, rfl⟩, -, hwb⟩ := h
  unfold shows at hr ⊢
  dsimp only at hr ⊢
  split_ifs at hr with hv
  cases hr
  rw [hi]
  refine ⟨_, if_pos hv, ⟨wbCommitRdData (s.relabel x y) i.ext, rfl⟩, fun hw => rfWen_commit hwb i.ext hw⟩

end QinglongCore.CorePipeline
