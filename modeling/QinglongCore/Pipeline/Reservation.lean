import QinglongCore.Isa.Reservation
import QinglongCore.Pipeline.BusEffects

/-!
# The reservation of the pipelined core

LR, SC and AMO run alone in EX, MEM and WB. So the reservation that an SC meets in EX is that of the last LR, and
nothing commits until the SC does.
-/

namespace QinglongCore.CorePipeline

open Isa (Retired ResvCycle ResvDisciplined LinkedAt)

variable {s : State} {i : In}

/-- The word address of an access in MEM. -/
def ExMem.word (m : ExMem) : BitVec 30 := m.aluY.extractLsb' 2 30

section
variable (pc : Word) (regs : RegFile) (inp : Nat → In)

/-- The address of what commits in a cycle is the one it had in MEM in the cycle before. -/
def resvCycle (t : Nat) : ResvCycle :=
  let s := run pc regs inp t
  { commit :=
      if s.wb.valid then
        some
          { trap := s.wb.trap, insn := s.wb.instr, addr := (run pc regs inp (t - 1)).mem.word
            rdData := wbCommitRdData s (inp t).ext }
      else none
    scStore := if dmemAccept s (inp t) && s.mem.isSc then some s.mem.word else none
    resvValid := s.resv.valid }

end

/-! ## One edge -/

theorem resv_of_redirect (h : wbRedirect s = true) : (step s i).resv.valid = false := by
  show (resvNext s i).valid = false
  simp [resvNext, h]

/-- A reservation that is valid behind the edge is one that LR arms now, or an old one that nothing has cleared. -/
theorem resv_cases (h : (step s i).resv.valid = true) :
    wbRedirect s = false ∧
      ((s.mem.isLr = true ∧ memRspThisCycle s i = true ∧ i.dmemRspFault = false ∧
          (step s i).resv.addr = s.mem.word) ∨
        (s.resv.valid = true ∧ (step s i).resv.addr = s.resv.addr ∧
          (stallMem s = false → s.mem.valid = true → s.mem.isSc = false ∧ s.mem.isAmoRmw = false))) := by
  have hn : (resvNext s i).valid = true := h
  have hclear : (wbRedirect s || (!stallMem s && s.mem.valid && (s.mem.isSc || s.mem.isAmoRmw))) = false := by
    cases hc : wbRedirect s || (!stallMem s && s.mem.valid && (s.mem.isSc || s.mem.isAmoRmw))
    · rfl
    · simp [resvNext, hc] at hn
  simp only [Bool.or_eq_false_iff] at hclear
  refine ⟨hclear.1, ?_⟩
  cases harm : s.mem.isLr && memRspThisCycle s i && !i.dmemRspFault
  · have he : (step s i).resv = s.resv := by
      show resvNext s i = s.resv
      simp [resvNext, hclear, harm]
    rw [he] at h ⊢
    refine .inr ⟨h, rfl, fun hst hv => ?_⟩
    simpa [hst, hv] using hclear.2
  · have he : (step s i).resv = { valid := true, addr := s.mem.word } := by
      show resvNext s i = _
      simp [resvNext, hclear, harm, ExMem.word]
    simp only [Bool.and_eq_true, Bool.not_eq_true'] at harm
    exact .inl ⟨harm.1.1, harm.1.2, harm.2, by rw [he]⟩

/-- A response changes neither what an instruction in MEM is nor its address. -/
theorem memHold_kept :
    (memHold s i).isLr = s.mem.isLr ∧ (memHold s i).isSc = s.mem.isSc ∧ (memHold s i).word = s.mem.word ∧
      (memHold s i).hasResult = s.mem.hasResult := by
  unfold memHold
  split_ifs <;> exact ⟨rfl, rfl, rfl, rfl⟩

theorem ExMem.FromEx.atomic {m : ExMem} (h : m.FromEx)
    (ha : m.isLr = true ∨ m.isSc = true ∨ m.isAmoRmw = true) : Decode.isAtomic m.instr = true := by
  obtain ⟨ex, rs1, rs2, dv, p, hit, ph, ls, ⟨id, md, d₁, d₂, rfl, -⟩, hv, rfl, hls⟩ := h
  simp only [ExMem.ofEx, IdEx.ofId, Ctrl.ofId, Bool.and_eq_true] at ha ⊢
  unfold Decode.isAtomic
  rcases ha with ha | ha | ha <;> simp [ha.1]

theorem Spaced.serial_of_atomic (h : Spaced s) (hv : s.mem.valid = true)
    (ha : s.mem.isLr = true ∨ s.mem.isSc = true ∨ s.mem.isAmoRmw = true) : s.mem.isSerial = true := by
  rw [(h.mem_origin hv).isSerial_eq, Decode.isSerial, (h.mem_origin hv).atomic ha]
  simp

/-- An atomic waits in MEM for its response only. -/
theorem Spaced.stallMem_of_atomic (h : Spaced s) (hv : s.mem.valid = true)
    (ha : s.mem.isLr = true ∨ s.mem.isSc = true ∨ s.mem.isAmoRmw = true) (hl : s.mem.lsPending = false) :
    stallMem s = false := by
  have hop : opcode s.mem.instr = OP_AMO := Decode.opcode_of_isAtomic ((h.mem_origin hv).atomic ha)
  have hne : (opcode s.mem.instr == OP_SYSTEM) = false := by
    rw [hop]
    decide
  simp [stallMem, memBusy, hl, memStallForIfetchDrain, memIsCsrwSatp, memIsCsrOp, hne]

theorem ExMem.FromEx.lr_result {m : ExMem} (h : m.FromEx) (hlr : m.isLr = true) : m.hasResult = false := by
  obtain ⟨ex, rs1, rs2, dv, p, hit, ph, ls, hd, hv, rfl, hls⟩ := h
  obtain ⟨-, -, hlr', hsc', -⟩ := hd.flags
  have hl : ex.ctrl.isLr = true := by
    simp only [ExMem.ofEx, Bool.and_eq_true] at hlr
    exact hlr.1
  have hs : ex.ctrl.isSc = false := by
    rw [hsc']
    exact (Decode.of_isLr (hlr' ▸ hl)).1
  simp [ExMem.ofEx, hl, hs]

theorem ExMem.FromEx.sc_no_csr {m : ExMem} {b : MemBus} (h : m.FromEx) (hs : m.isSc = true) :
    (MemWb.ofMem m b).isCsr = false := by
  have hc : m.isCsr = false := by
    have hop := Decode.opcode_of_isAtomic (h.atomic (.inr (.inl hs)))
    obtain ⟨ex, rs1, rs2, dv, p, hit, ph, ls, ⟨id, md, d₁, d₂, rfl, -⟩, hv, rfl, hls⟩ := h
    have hop' : opcode id.instr = OP_AMO := hop
    have hcsr : Decode.isCsr id.instr = false := by
      rw [Decode.isCsr, Decode.isSystem, hop']
      rfl
    simp [ExMem.ofEx, IdEx.ofId, Ctrl.ofId, hcsr]
  unfold MemWb.ofMem
  split_ifs <;> simp [MemWb.payload, hc]

/-- What a response leaves behind for an instruction held in MEM. -/
theorem busFault_of_rsp (hw : wbRedirect s = false) (hst : stallMem s = true) (hr : memRspThisCycle s i = true) :
    (step s i).bus.busFault = i.dmemRspFault := by
  show (busNext s i).busFault = i.dmemRspFault
  simp [busNext, hw, hst, hr]

/-! ## Runs -/

variable {pc : Word} {regs : RegFile} {inp : Nat → In} {t : Nat}

theorem commit_of_wb (hv : (run pc regs inp t).wb.valid = true) :
    (resvCycle pc regs inp t).commit =
      some
        { trap := (run pc regs inp t).wb.trap, insn := (run pc regs inp t).wb.instr
          addr := (run pc regs inp (t - 1)).mem.word
          rdData := wbCommitRdData (run pc regs inp t) (inp t).ext } := by
  simp [resvCycle, hv]

theorem commit_elim {r : Retired} (h : (resvCycle pc regs inp t).commit = some r) :
    (run pc regs inp t).wb.valid = true ∧
      { trap := (run pc regs inp t).wb.trap, insn := (run pc regs inp t).wb.instr
        addr := (run pc regs inp (t - 1)).mem.word
        rdData := wbCommitRdData (run pc regs inp t) (inp t).ext } = r := by
  simpa [resvCycle] using h

theorem event_of_no_wb (hv : (run pc regs inp t).wb.valid = false) : (resvCycle pc regs inp t).event = none :=
  Isa.event_of_no_commit (c := resvCycle pc regs inp) (by simp [resvCycle, hv])

/-- An instruction that leaves MEM without a trap shows its event in the next cycle. -/
theorem event_of_leaves (h : Leaves (run pc regs inp t)) (hw : wbRedirect (run pc regs inp t) = false) :
    (resvCycle pc regs inp (t + 1)).event =
      if (run pc regs inp t).mem.isLr then some (.linked (run pc regs inp t).mem.word)
      else if (run pc regs inp t).mem.isSc || (run pc regs inp t).mem.isAmoRmw then some .broken
      else none := by
  have hsp : Spaced (run pc regs inp t) := spaced_run t
  obtain ⟨-, -, hlr, hsc, ha⟩ := (hsp.mem_origin h.valid).flags (h.trap hsp)
  have hwb : (run pc regs inp (t + 1)).wb = MemWb.ofMem (run pc regs inp t).mem (run pc regs inp t).bus :=
    wbNext_of_mem hw h.valid h.ready
  rw [Isa.event_of_commit (commit_of_wb (t := t + 1) (by rw [hwb]; exact ofMem_valid _ _))]
  simp only [Retired.event, hwb, ofMem_instr, h.clean, ← hlr, ← hsc, ← ha, Nat.add_sub_cancel, Bool.false_eq_true,
    if_false]

/-- The reservation is that of the last LR, unless that LR has yet to leave MEM, or a trap is in WB to clear it. -/
structure Reserved (pc : Word) (regs : RegFile) (inp : Nat → In) (t : Nat) : Prop where
  linked : (run pc regs inp t).resv.valid = true →
    LinkedAt (resvCycle pc regs inp) (t + 1) (run pc regs inp t).resv.addr ∨
      ((run pc regs inp t).mem.valid = true ∧ (run pc regs inp t).mem.isLr = true ∧
        (run pc regs inp t).mem.lsPending = false) ∨
      ((run pc regs inp t).wb.valid = true ∧ (run pc regs inp t).wb.trap = true)
  armed : (run pc regs inp t).mem.valid = true → (run pc regs inp t).mem.isLr = true →
    (run pc regs inp t).mem.lsPending = false → (run pc regs inp t).bus.busFault = false →
      (run pc regs inp t).resv.valid = true ∧ (run pc regs inp t).resv.addr = (run pc regs inp t).mem.word
  sc : (run pc regs inp t).mem.valid = true → (run pc regs inp t).mem.isSc = true →
    (run pc regs inp t).mem.hasResult = false →
      LinkedAt (resvCycle pc regs inp) (t + 1) (run pc regs inp t).mem.word

theorem reserved_zero : Reserved pc regs inp 0 := by
  constructor <;> simp [run, reset]

theorem armed_step (hv : (run pc regs inp (t + 1)).mem.valid = true)
    (hlr : (run pc regs inp (t + 1)).mem.isLr = true) (hl : (run pc regs inp (t + 1)).mem.lsPending = false)
    (hf : (run pc regs inp (t + 1)).bus.busFault = false) :
    (run pc regs inp (t + 1)).resv.valid = true ∧
      (run pc regs inp (t + 1)).resv.addr = (run pc regs inp (t + 1)).mem.word := by
  have hsp : Spaced (run pc regs inp t) := spaced_run t
  obtain ⟨hw, ⟨hst, hm, he⟩ | ⟨hse, hx, he⟩⟩ := memNext_valid hv
  · have he' : (run pc regs inp (t + 1)).mem = memHold (run pc regs inp t) (inp t) := he
    obtain ⟨hlr₀, -, hword, -⟩ := memHold_kept (s := run pc regs inp t) (i := inp t)
    rw [he'] at hlr hl ⊢
    rw [hlr₀] at hlr
    cases hr : memRspThisCycle (run pc regs inp t) (inp t)
    · simp only [memHold, hr, Bool.false_eq_true, if_false] at hl
      rw [hsp.stallMem_of_atomic hm (.inl hlr) hl] at hst
      simp at hst
    · have hfault : (inp t).dmemRspFault = false := (busFault_of_rsp hw hst hr).symm.trans hf
      have hresv : (run pc regs inp (t + 1)).resv =
          { valid := true, addr := (run pc regs inp t).mem.word } := by
        show resvNext _ _ = _
        simp [resvNext, hw, hst, hlr, hr, hfault, ExMem.word]
      rw [hresv, hword]
      exact ⟨rfl, rfl⟩
  · have he' : (run pc regs inp (t + 1)).mem = memAdvance (run pc regs inp t) := he
    rw [he'] at hlr hl
    simp only [memAdvance, ExMem.ofEx, Bool.and_eq_true] at hlr hl
    simp [hlr] at hl

/-- What is in WB behind the edge has left MEM, with a trap or without. -/
theorem wb_cases (hv : (run pc regs inp (t + 1)).wb.valid = true) :
    (run pc regs inp (t + 1)).wb.trap = true ∨
      (Leaves (run pc regs inp t) ∧ wbRedirect (run pc regs inp t) = false) := by
  obtain ⟨hw, hm, hst, he⟩ := wbNext_valid hv
  have he' : (run pc regs inp (t + 1)).wb = _ := he
  rw [he']
  cases ht : (MemWb.ofMem (run pc regs inp t).mem (run pc regs inp t).bus).trap
  · exact .inr ⟨⟨hm, hst, ht⟩, hw⟩
  · exact .inl rfl

theorem linked_step (h : Reserved pc regs inp t) (hr : (run pc regs inp (t + 1)).resv.valid = true) :
    LinkedAt (resvCycle pc regs inp) (t + 2) (run pc regs inp (t + 1)).resv.addr ∨
      ((run pc regs inp (t + 1)).mem.valid = true ∧ (run pc regs inp (t + 1)).mem.isLr = true ∧
        (run pc regs inp (t + 1)).mem.lsPending = false) ∨
      ((run pc regs inp (t + 1)).wb.valid = true ∧ (run pc regs inp (t + 1)).wb.trap = true) := by
  have hsp : Spaced (run pc regs inp t) := spaced_run t
  obtain ⟨hw, ⟨hlr, hrsp, hfault, -⟩ | ⟨hold, haddr, hkept⟩⟩ := resv_cases (s := run pc regs inp t) (i := inp t) hr
  · -- an LR gets its word, and is still in MEM behind the edge
    obtain ⟨hv, hl, -⟩ := memRspThisCycle_elim hrsp
    have hst : stallMem (run pc regs inp t) = true := by simp [stallMem, memBusy, hv, hl]
    have he : (run pc regs inp (t + 1)).mem = memHold (run pc regs inp t) (inp t) := memNext_of_stall hw hst
    have hamo : (run pc regs inp t).mem.isAmoRmw = false := by
      cases ha : (run pc regs inp t).mem.isAmoRmw
      · rfl
      · rw [((hsp.mem_origin hv).amo ha).2.2.1] at hlr
        simp at hlr
    right; left
    rw [he]
    simp [memHold, hrsp, hamo, hv, hlr]
  · have haddr' : (run pc regs inp (t + 1)).resv.addr = (run pc regs inp t).resv.addr := haddr
    cases hv : (run pc regs inp (t + 1)).wb.valid
    · -- nothing commits
      rcases h.linked hold with hl | ⟨hm, hlr, hl⟩ | ⟨hwv, ht⟩
      · left
        rw [haddr']
        exact Isa.linkedAt_keep hl (event_of_no_wb hv)
      · have hst := hsp.stallMem_of_atomic hm (.inl hlr) hl
        have he : (run pc regs inp (t + 1)).wb = _ := wbNext_of_mem hw hm hst
        rw [he, ofMem_valid] at hv
        simp at hv
      · simp [wbRedirect, hwv, ht] at hw
    · rcases wb_cases hv with ht | ⟨hleaves, -⟩
      · exact .inr (.inr ⟨rfl, ht⟩)
      · left
        have hev := event_of_leaves hleaves hw
        obtain ⟨hsc, hamo⟩ := hkept hleaves.ready hleaves.valid
        cases hlr : (run pc regs inp t).mem.isLr
        · rw [hlr, hsc, hamo] at hev
          rcases h.linked hold with hl | ⟨-, hlr', -⟩ | ⟨hwv, ht⟩
          · rw [haddr']
            exact Isa.linkedAt_keep hl hev
          · rw [hlr] at hlr'
            simp at hlr'
          · simp [wbRedirect, hwv, ht] at hw
        · -- the LR that leaves MEM has armed the reservation
          have hop : (run pc regs inp t).mem.hasBusOp = true := by simp [ExMem.hasBusOp, hlr]
          have hfault := (hleaves.unfaulted hop ((hsp.mem_origin hleaves.valid).lr_result hlr)).2
          obtain ⟨-, hword⟩ := h.armed hleaves.valid hlr hleaves.lsPending hfault
          rw [hlr, if_pos rfl, ← hword, ← haddr'] at hev
          exact Isa.linkedAt_now hev

theorem sc_step (h : Reserved pc regs inp t) (hv : (run pc regs inp (t + 1)).mem.valid = true)
    (hsc : (run pc regs inp (t + 1)).mem.isSc = true) (hr : (run pc regs inp (t + 1)).mem.hasResult = false) :
    LinkedAt (resvCycle pc regs inp) (t + 2) (run pc regs inp (t + 1)).mem.word := by
  have hsp : Spaced (run pc regs inp t) := spaced_run t
  obtain ⟨hw, ⟨hst, hm, he⟩ | ⟨hse, hx, he⟩⟩ := memNext_valid hv
  · -- the SC stays in MEM, and nothing commits behind it
    have he' : (run pc regs inp (t + 1)).mem = memHold (run pc regs inp t) (inp t) := he
    have hwb : (run pc regs inp (t + 1)).wb.valid = false := wbNext_empty (.inr hst)
    obtain ⟨-, hsc₀, hword, hres⟩ := memHold_kept (s := run pc regs inp t) (i := inp t)
    rw [he', hsc₀] at hsc
    rw [he', hres] at hr
    rw [he', hword]
    exact Isa.linkedAt_keep (h.sc hm hsc hr) (event_of_no_wb hwb)
  · -- the SC enters MEM with a hit, alone in the pipe
    have he' : (run pc regs inp (t + 1)).mem = memAdvance (run pc regs inp t) := he
    have hdec := hsp.ex_decoded hx
    rw [he'] at hsc hr ⊢
    have hscx : (run pc regs inp t).ex.ctrl.isSc = true ∧ (exTrapInfo (run pc regs inp t)).isSome = false := by
      simpa [memAdvance, ExMem.ofEx] using hsc
    have hser : (run pc regs inp t).ex.ctrl.isSerial = true := by
      have hd : Decode.isSc (run pc regs inp t).ex.instr = true := hdec.flags.2.2.2.1 ▸ hscx.1
      rw [hdec.isSerial, Decode.isSerial, Decode.isAtomic, hd]
      simp
    obtain ⟨hm, hwv⟩ := (serialAlone_run t).ex hx hser
    have hhit : exScHit (run pc regs inp t) = true := by
      cases hh : exScHit (run pc regs inp t)
      · simp [memAdvance, ExMem.ofEx, hscx, hh] at hr
      · rfl
    simp only [exScHit, Bool.and_eq_true, beq_iff_eq] at hhit
    have hword : (memAdvance (run pc regs inp t)).word = (run pc regs inp t).resv.addr := by
      rw [hhit.2]
      simp [memAdvance, ExMem.ofEx, ExMem.word, IdEx.isAtomic, hscx.1]
    have hwb : (run pc regs inp (t + 1)).wb.valid = false := wbNext_empty (.inl hm)
    rw [hword]
    rcases h.linked hhit.1 with hl | ⟨hm', -⟩ | ⟨hwv', -⟩
    · exact Isa.linkedAt_keep hl (event_of_no_wb hwb)
    · rw [hm] at hm'
      simp at hm'
    · rw [hwv] at hwv'
      simp at hwv'

theorem reserved_run (t : Nat) : Reserved pc regs inp t := by
  induction t with
  | zero => exact reserved_zero
  | succ t ih => exact ⟨linked_step ih, armed_step, sc_step ih⟩

/-! ## The discipline -/

theorem resvDisciplined (pc : Word) (regs : RegFile) (inp : Nat → In) : ResvDisciplined (resvCycle pc regs inp) where
  stores t a h := by
    have hsp : Spaced (run pc regs inp t) := spaced_run t
    have hst : dmemAccept (run pc regs inp t) (inp t) = true ∧ (run pc regs inp t).mem.isSc = true ∧
        (run pc regs inp t).mem.word = a := by
      simpa [resvCycle, and_assoc] using h
    obtain ⟨hacc, hsc, rfl⟩ := hst
    obtain ⟨hv, hl, -⟩ := dmemAccept_elim hacc
    have hwv := ((serialAlone_run t).mem hv (hsp.serial_of_atomic hv (.inr (.inl hsc)))).2
    have hlink := (reserved_run t).sc hv hsc ((hsp.mem_origin hv).sc_hit hl hsc)
    unfold LinkedAt at hlink ⊢
    rwa [Events.latest_of_none (event_of_no_wb hwv)] at hlink
  writes t r h ht hsc hz := by
    cases t with
    | zero => simp [resvCycle, run, reset] at h
    | succ t =>
        have hsp : Spaced (run pc regs inp t) := spaced_run t
        obtain ⟨hv, rfl⟩ := commit_elim h
        have hleaves : Leaves (run pc regs inp t) ∧ wbRedirect (run pc regs inp t) = false := by
          rcases wb_cases hv with ht' | hl
          · rw [ht'] at ht
            simp at ht
          · exact hl
        obtain ⟨hleaves, hw⟩ := hleaves
        have he : (run pc regs inp (t + 1)).wb = MemWb.ofMem (run pc regs inp t).mem (run pc regs inp t).bus :=
          wbNext_of_mem hw hleaves.valid hleaves.ready
        obtain ⟨-, -, -, hflag, -⟩ := (hsp.mem_origin hleaves.valid).flags (hleaves.trap hsp)
        have hscm : (run pc regs inp t).mem.isSc = true := by
          rw [hflag, ← ofMem_instr, ← he]
          exact hsc
        have hres : (run pc regs inp t).mem.hasResult = false := by
          simp only [wbCommitRdData, he, (hsp.mem_origin hleaves.valid).sc_no_csr hscm, Bool.false_eq_true, if_false,
            hleaves.sc_result hsp hscm] at hz
          cases hr : (run pc regs inp t).mem.hasResult
          · rfl
          · simp [hr] at hz
        exact (reserved_run t).sc hleaves.valid hscm hres
  traps t r h ht := by
    obtain ⟨hv, rfl⟩ := commit_elim h
    have ht' : (run pc regs inp t).wb.trap = true := ht
    exact resv_of_redirect (s := run pc regs inp t) (by simp [wbRedirect, hv, ht'])

end QinglongCore.CorePipeline
