import QinglongCore.Pipeline.Reservation

/-!
# The beats of an instruction

What an instruction has read and written on the data bus, followed from MEM to its retirement.
-/

namespace QinglongCore.CorePipeline

/-- The beats of one instruction: the read requests that the bus took, with the lanes that the instruction uses, the
words that ended its reads, and the writes that the bus took. -/
structure Beats where
  reads : List (Word × BitVec 4)
  answers : List Word
  writes : List (Word × BitVec 4 × Word)

def Beats.none : Beats := ⟨[], [], []⟩

section

variable (s : State) (i : In)

/-- The lanes of an access of the size that is asked for. -/
def readLanes : BitVec 4 :=
  if dmemReqSize s = 0b00#2 then 0b0001#4 <<< (s.mem.aluY.extractLsb' 0 2).toNat
  else if dmemReqSize s = 0b01#2 then (if s.mem.aluY.getLsbD 1 then 0b1100#4 else 0b0011#4)
  else 0b1111#4

def Beats.step (b : Beats) : Beats where
  reads := b.reads ++ if dmemAccept s i && !dmemReqWen s then [(dmemReqAddr s, readLanes s)] else []
  answers := b.answers ++ if memRspThisCycle s i && !dmemReqWen s then [i.dmemRspRdata] else []
  writes := b.writes ++
    if dmemAccept s i && dmemReqWen s then [(dmemReqAddr s, dmemReqWmask s, dmemReqWdata s)] else []

end

section Run

variable (pc : Word) (regs : RegFile) (inp : Nat → In)

/-- The beats of the instructions in MEM and in WB; they move with the registers. -/
def carried : Nat → Beats × Beats
  | 0 => (Beats.none, Beats.none)
  | t + 1 =>
      let s := run pc regs inp t
      let b := (carried t).1.step s (inp t)
      (if stallMem s then b else Beats.none, b)

end Run

variable {s : State} {i : In} {w : Word}

/-! ## The beats by the fields that follow the access -/

theorem ExMem.FromEx.no_result {m : ExMem} (h : m.FromEx) (hl : m.lsPending = true) : m.hasResult = false := by
  obtain ⟨ex, rs1, rs2, dv, p, hit, ph, ls, hd, hv, rfl, hls⟩ := h
  have hp := hls hl
  obtain ⟨id, m, d₁, d₂, rfl, -⟩ := hd
  simp only [ExMem.ofEx, IdEx.ofId, Ctrl.ofId, Bool.and_eq_true, Bool.or_eq_true] at hp ⊢
  obtain ⟨hok, hp⟩ := hp
  rcases hp with (((hp | hp) | hp) | hp) | ⟨hp, hhit⟩
  · obtain ⟨-, hsc, -⟩ := Decode.not_atomic_of_access (w := id.instr) (by simp [hp])
    simp [hp, hsc]
  · obtain ⟨-, hsc, -⟩ := Decode.not_atomic_of_access (w := id.instr) (by simp [hp])
    simp [hp, hsc, Decode.writesRd_of_isStore hp]
  · simp [hp, (Decode.of_isLr hp).1]
  · simp [hp, (Decode.of_isAmoRmw hp).2.2]
  · simp [hp, hhit]

/-- The beats of the instruction in MEM; `w` is the word that ended its last read. -/
def Beats.made (s : State) (w : Word) : Beats :=
  let asked := !s.mem.lsPending || s.bus.reqFired
  if s.mem.hasBusOp && !s.mem.hasResult then
    { reads := (if memAmoStoreBeat s then [(dmemReqAddr s, readLanes s)] else []) ++
        if asked && !dmemReqWen s then [(dmemReqAddr s, readLanes s)] else []
      answers := (if memAmoStoreBeat s then [s.bus.amoOld] else []) ++
        if !s.mem.lsPending && !dmemReqWen s then [w] else []
      writes := if asked && dmemReqWen s then [(dmemReqAddr s, dmemReqWmask s, dmemReqWdata s)] else [] }
  else Beats.none

/-- The word after a response to a read. -/
def wordNext (s : State) (i : In) (w : Word) : Word :=
  if memRspThisCycle s i && !dmemReqWen s then i.dmemRspRdata else w

theorem Beats.step_idle (b : Beats) (hl : s.mem.lsPending = false) : b.step s i = b := by
  have ha : dmemAccept s i = false := by simp [dmemAccept, dmemReqValid, hl]
  have hr : memRspThisCycle s i = false := by simp [memRspThisCycle, hl]
  simp [Beats.step, ha, hr]

/-- The access on the ports does not depend on `lsPending`. -/
theorem access_of_done {s' : State} (hm : s'.mem = { s.mem with lsPending := false })
    (ho : memAmoStoreBeat s = true → s'.bus.amoOld = s.bus.amoOld) :
    memAmoStoreBeat s' = memAmoStoreBeat s ∧ dmemReqAddr s' = dmemReqAddr s ∧ readLanes s' = readLanes s ∧
      dmemReqWen s' = dmemReqWen s ∧ dmemReqWmask s' = dmemReqWmask s ∧ dmemReqWdata s' = dmemReqWdata s := by
  have hbeat : memAmoStoreBeat s' = memAmoStoreBeat s := by simp [memAmoStoreBeat, hm]
  refine ⟨hbeat, by simp [dmemReqAddr, hm], by simp [readLanes, dmemReqSize, hm],
    by simp [dmemReqWen, memIsStoreOp, hbeat, hm], by simp [dmemReqWmask, memIsStoreOp, hbeat, hm], ?_⟩
  cases hb : memAmoStoreBeat s
  · simp [dmemReqWdata, hbeat, hb, hm]
  · simp [dmemReqWdata, hbeat, hb, ho hb, hm]

/-- While MEM holds its instruction, its beats grow by what happens on the bus. -/
theorem Spaced.made_hold (h : Spaced s) (hw : wbRedirect s = false) (hv : s.mem.valid = true)
    (hst : stallMem s = true)
    (hm : memRspThisCycle s i = true → s.bus.reqFired = true ∨ dmemAccept s i = true) :
    Beats.made (step s i) (wordNext s i w) = (Beats.made s w).step s i := by
  have hmem : (step s i).mem = memHold s i := memNext_of_stall hw hst
  have hfrom := h.mem_origin hv
  have hbus : (step s i).bus = busNext s i := rfl
  cases hl : s.mem.lsPending
  · have hr : memRspThisCycle s i = false := by simp [memRspThisCycle, hl]
    have ha : dmemAccept s i = false := by simp [dmemAccept, dmemReqValid, hl]
    have hm' : (step s i).mem = s.mem := by rw [hmem, memHold, hr]; rfl
    rw [Beats.step_idle _ hl]
    simp [Beats.made, memAmoStoreBeat, dmemReqAddr, readLanes, dmemReqSize, dmemReqWen, memIsStoreOp, dmemReqWmask,
      dmemReqWdata, wordNext, hm', hbus, busNext, hr, ha, hw, hst]
  · have hop := hfrom.hasBusOp hl
    have hres := hfrom.no_result hl
    have hop' : (step s i).mem.hasBusOp = true ∧ (step s i).mem.hasResult = false := by
      rw [hmem, memHold_hasBusOp, hop, memHold_kept.2.2.2, hres]
      exact ⟨rfl, rfl⟩
    cases hr : memRspThisCycle s i
    · have hm' : (step s i).mem = s.mem := by rw [hmem, memHold, hr]; rfl
      have hfired : (step s i).bus.reqFired = (dmemAccept s i || s.bus.reqFired) := by
        rw [hbus]
        cases ha : dmemAccept s i <;> simp [busNext, hw, hr, ha]
      have hold : (step s i).bus.amoOld = s.bus.amoOld := by simp [hbus, busNext, hw, hst, hr]
      cases ha : dmemAccept s i
      · simp [Beats.made, Beats.step, memAmoStoreBeat, dmemReqAddr, readLanes, dmemReqSize, dmemReqWen, memIsStoreOp,
          dmemReqWmask, dmemReqWdata, wordNext, hm', hfired, hold, ha, hr]
      · have hf := (dmemAccept_elim ha).2.2.2.1
        cases hwen : dmemReqWen s
        all_goals
          simp only [dmemReqWen, memIsStoreOp] at hwen
          simp [Beats.made, Beats.step, memAmoStoreBeat, dmemReqAddr, readLanes, dmemReqSize, dmemReqWen, memIsStoreOp,
            dmemReqWmask, dmemReqWdata, hm', hfired, hold, ha, hr, hf, hl, hop, hres]
    · -- the request has been taken before or is taken now
      have hreq : (s.bus.reqFired = true ∧ dmemAccept s i = false) ∨
          (s.bus.reqFired = false ∧ dmemAccept s i = true) := by
        cases ha : dmemAccept s i
        · exact .inl ⟨by simpa [ha] using hm hr, rfl⟩
        · exact .inr ⟨(dmemAccept_elim ha).2.2.2.1, rfl⟩
      have hfired : (step s i).bus.reqFired = false := by simp [hbus, busNext, hw, hr]
      have hold : (step s i).bus.amoOld =
          if s.mem.isAmoRmw && !s.mem.amoPhase then i.dmemRspRdata else s.bus.amoOld := by
        simp [hbus, busNext, hw, hst, hr]
      cases hturn : s.mem.isAmoRmw && !s.mem.amoPhase && !i.dmemRspFault
      · have hm' : (step s i).mem = { s.mem with lsPending := false } := by rw [hmem]; simp [memHold, hr, hturn]
        have hl' : (step s i).mem.lsPending = false := by rw [hm']
        have hold' : memAmoStoreBeat s = true → (step s i).bus.amoOld = s.bus.amoOld := by
          intro hb
          simp only [memAmoStoreBeat, Bool.and_eq_true] at hb
          simp [hold, hb.2]
        obtain ⟨hbeat, haddr, hlanes, hwen, hmask, hdata⟩ := access_of_done hm' hold'
        have hold₁ : (if memAmoStoreBeat s then [(step s i).bus.amoOld] else []) =
            if memAmoStoreBeat s then [s.bus.amoOld] else [] := by
          cases hb : memAmoStoreBeat s
          · rfl
          · rw [hold' hb]
        rcases hreq with ⟨hf, ha⟩ | ⟨hf, ha⟩
        all_goals
          cases hwn : dmemReqWen s
          all_goals
            simp [Beats.made, Beats.step, wordNext, hop', hop, hres, hl', hl, hbeat, haddr, hlanes, hwen, hmask, hdata,
              hold₁, hwn, ha, hr, hf]
      · have hm' : (step s i).mem = { s.mem with amoPhase := true } := by rw [hmem]; simp [memHold, hr, hturn]
        simp only [Bool.and_eq_true, Bool.not_eq_true'] at hturn
        obtain ⟨⟨ham, hph⟩, -⟩ := hturn
        obtain ⟨h₁, h₂, -⟩ := hfrom.amo ham
        rcases hreq with ⟨hf, ha⟩ | ⟨hf, ha⟩
        all_goals
          simp [Beats.made, Beats.step, memAmoStoreBeat, dmemReqAddr, readLanes, dmemReqSize, dmemReqWen, memIsStoreOp,
            ExMem.hasBusOp, hm', hfired, hold, ha, hr, hf, hl, hres, ham, hph, h₁, h₂]

/-- An instruction enters MEM without a beat. -/
theorem Spaced.made_fresh (h : Spaced s) (hw : wbRedirect s = false) (hv : s.ex.valid = true)
    (hst : stallEx s = false) : Beats.made (step s i) w = Beats.none := by
  have hm : (step s i).mem = memAdvance s := memNext_of_ex hw hv hst
  have hf := (h.progress_fresh (i := i) hw hv hst).2
  have hph : (memAdvance s).amoPhase = false := rfl
  cases hl : (memAdvance s).lsPending
  · obtain ⟨h₁, h₂, h₃, h₄, h₅⟩ := memAdvance_idle hl
    cases hsc : (memAdvance s).isSc
    · simp [Beats.made, ExMem.hasBusOp, hm, h₁, h₃, h₄, h₅, hsc]
    · simp [Beats.made, hm, h₂ hsc]
  · simp [Beats.made, memAmoStoreBeat, hm, hf, hl, hph, Beats.none]

end QinglongCore.CorePipeline
