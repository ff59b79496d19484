import QinglongCore.Pipeline.Lemmas.Quotients

/-!
# Operand values

What the datapath makes of the operands of an instruction, from the start of the divider and the exit from EX up to
MEM/WB, against the values that the instructions retired before it had left in the registers.
-/

namespace QinglongCore.CorePipeline

/-! ## Statement -/

/-- EX/MEM of the instruction in EX if it leaves with the operands `x` and `y`, at a given stage of its access. -/
def memOf (s : State) (x y : Word) (amoPhase lsPending : Bool) : ExMem :=
  { ExMem.ofEx s.ex x y s.div.result (s.ex.trapInfo x y (priv s))
      (s.resv.valid && s.resv.addr == (s.ex.lsAddr x).extractLsb' 2 30) with
    amoPhase := amoPhase
    lsPending := lsPending }

section Run

variable (pc : Word) (regs : RegFile) (inp : Nat → In)

/-- The instruction in WB in cycle `t` left EX in cycle `u`: MEM took it over, held it while it stalled, and passed
it on. -/
structure LeftEx (u t : Nat) : Prop where
  before : u + 2 ≤ t
  valid : (run pc regs inp u).ex.valid = true
  moves : stallEx (run pc regs inp u) = false
  stays : wbRedirect (run pc regs inp u) = false
  held : ∀ v, u < v → v + 1 < t → stallMem (run pc regs inp v) = true
  passed : stallMem (run pc regs inp (t - 1)) = false

/-- The instruction that leaves EX in cycle `u` and reaches WB in cycle `t` computes with the operands `x` and `y`: the
redirect and its target, all that MEM works with until then, and what MEM/WB takes over. -/
structure Computes (u t : Nat) (x y : Word) : Prop where
  redirect : branchRedirect (run pc regs inp u) =
    ((run pc regs inp u).ex.takeBranch x y || (run pc regs inp u).ex.takeJal || (run pc regs inp u).ex.takeJalr)
  target : branchRedirect (run pc regs inp u) = true → (run pc regs inp (u + 1)).fetch.pc =
    if (run pc regs inp u).ex.takeJalr then (run pc regs inp u).ex.jalrTarget x
    else if (run pc regs inp u).ex.takeJal then (run pc regs inp u).ex.jalTarget
    else (run pc regs inp u).ex.branchTarget
  mem : ∀ v, u < v → v < t → ∃ ph ls, (run pc regs inp v).mem = memOf (run pc regs inp u) x y ph ls
  wb : (run pc regs inp t).wb = MemWb.ofMem (run pc regs inp (t - 1)).mem (run pc regs inp (t - 1)).bus

/-- The instruction that leaves EX in cycle `u` had the divider started with the operands `x` and `y`, and takes its
answer to them. -/
structure Divided (u : Nat) (x y : Word) : Prop where
  started : ∃ v, v < u ∧ (run pc regs inp v).divUnit.state = .idle ∧
    (∀ k, v ≤ k → k < u → stallEx (run pc regs inp k) = true) ∧
    divIn (run pc regs inp v) = (run pc regs inp u).ex.divIn x y true
  result : (run pc regs inp u).div.result = DivUnit.answer ((run pc regs inp u).ex.divIn x y true)

/-- The instruction that retires in cycle `t` computed with the values left by the instructions before it; DIV/REM use
their operands in the divider only. -/
def OperandsCorrect (t : Nat) : Prop :=
  let w := (run pc regs inp t).wb.instr
  let x := archReg pc regs inp t (rs1Field w)
  let y := archReg pc regs inp t (rs2Field w)
  retireWb (run pc regs inp t) = true → ∃ u, LeftEx pc regs inp u t ∧
    if Decode.isDiv w then (∃ a b, Computes pc regs inp u t a b) ∧ Divided pc regs inp u x y
    else Computes pc regs inp u t x y

end Run

/-! ## From EX to WB -/

theorem memAdvance_eq (s : State) :
    ∃ ph ls, memAdvance s = memOf s (exRs1Fwd s) (exRs2Fwd s) ph ls :=
  ⟨false, (memAdvance s).lsPending, rfl⟩

theorem memHold_memOf {r s : State} {i : In} {x y : Word} {ph ls : Bool} (h : s.mem = memOf r x y ph ls) :
    ∃ ph' ls', memHold s i = memOf r x y ph' ls' := by
  rcases memHold_cases (s := s) (i := i) with he | he | he <;> rw [he, h]
  · exact ⟨ph, ls, rfl⟩
  · exact ⟨true, ls, rfl⟩
  · exact ⟨ph, false, rfl⟩

section Run

variable {pc : Word} {regs : RegFile} {inp : Nat → In} {u t v : Nat}

/-- MEM holds in cycle `v` the instruction that left EX in cycle `u`, and the older ones have left the registers as
EX saw them. -/
structure TakenOver (pc : Word) (regs : RegFile) (inp : Nat → In) (u v : Nat) : Prop where
  before : u < v
  valid : (run pc regs inp u).ex.valid = true
  moves : stallEx (run pc regs inp u) = false
  stays : wbRedirect (run pc regs inp u) = false
  held : ∀ k, u < k → k < v → stallMem (run pc regs inp k) = true
  mem : ∀ k, u < k → k ≤ v → ∃ ph ls, (run pc regs inp k).mem =
    memOf (run pc regs inp u) (exRs1Fwd (run pc regs inp u)) (exRs2Fwd (run pc regs inp u)) ph ls
  regs : afterWb (run pc regs inp v) = settled (run pc regs inp u)

theorem takenOver_step (h : ∃ u, TakenOver pc regs inp u v) (hm : (run pc regs inp v).mem.valid = true)
    (hs : stallMem (run pc regs inp v) = true)
    (he : (run pc regs inp (v + 1)).mem = memHold (run pc regs inp v) (inp v)) :
    ∃ u, TakenOver pc regs inp u (v + 1) := by
  obtain ⟨u, h⟩ := h
  have hb := h.before
  refine ⟨u, by omega, h.valid, h.moves, h.stays, fun k hk hkv => ?_, fun k hk hkv => ?_, ?_⟩
  · rcases Nat.lt_succ_iff_lt_or_eq.mp hkv with hlt | rfl
    · exact h.held k hk hlt
    · exact hs
  · rcases Nat.le_succ_iff.mp hkv with hle | rfl
    · exact h.mem k hk hle
    · obtain ⟨ph, ls, hmem⟩ := h.mem v hb le_rfl
      rw [he]
      exact memHold_memOf hmem
  · rw [← h.regs]
    exact afterWb_hold (serialAlone_run v) (spaced_run v) hm hs

/-- What is in MEM left EX before, and MEM has stalled since. -/
theorem takenOver_run (hv : (run pc regs inp v).mem.valid = true) : ∃ u, TakenOver pc regs inp u v := by
  induction v with
  | zero => simp [reset] at hv
  | succ v ih =>
      have hv' : (memNext (run pc regs inp v) (inp v)).valid = true := hv
      obtain ⟨hr, ⟨hs, hm, he⟩ | ⟨hs, hx, he⟩⟩ := memNext_valid hv'
      · exact takenOver_step (ih hm) hm hs he
      · refine ⟨v, by omega, hx, hs, hr, fun k hk hkv => by omega, fun k hk hkv => ?_, ?_⟩
        · obtain rfl : k = v + 1 := by omega
          have he' : (run pc regs inp (v + 1)).mem = memAdvance (run pc regs inp v) := he
          rw [he']
          exact memAdvance_eq _
        · exact afterWb_step (serialAlone_run v) (spaced_run v) hx

/-! ## The divider -/

theorem divides_run (h : ∀ v, v < t → startedAfresh (run pc regs inp v) = false) :
    Divides (run pc regs inp t) (uses pc regs inp t) := by
  induction t with
  | zero => exact divides_reset pc regs _
  | succ t ih =>
      have h' : ∀ v, v < t → startedAfresh (run pc regs inp v) = false := fun v hv => h v (by omega)
      exact divides_step (spaced_run t) (divOwned_run h') (ih h') (inp t)

/-- The divider has something of an operation: it works, it is done, or its result is latched. -/
def divActive (s : State) : Prop :=
  (s.divUnit.done = true ∨ s.divUnit.state ≠ .idle) ∨ s.div.doneLatched = true

/-- An operation is started, or goes on while its word stays in EX. -/
theorem divActive_step {s : State} {i : In} (hown : DivOwned s) (hsp : Spaced s) (ha : divActive (step s i)) :
    s.divUnit.state = .idle ∧ divStartPulse s = true ∨ divActive s ∧ stallEx s = true := by
  rcases ha with ha | hl
  · by_cases hs : s.divUnit.state = .idle ∧ divStartPulse s = true
    · exact .inl hs
    · have hact : s.divUnit.done = true ∨ s.divUnit.state ≠ .idle := by
        by_contra hn
        simp only [not_or, Bool.not_eq_true, ne_eq, not_not] at hn
        have hp : divStartPulse s = false := by simpa [hn.2] using hs
        obtain ⟨hu, hdn⟩ := divUnit_step_idle (i := i) hn.2 hp
        simp [hu, hdn] at ha
      exact .inr ⟨.inl hact, (hown.stallEx_of_active hact).2⟩
  · cases hdn : s.divUnit.done
    · -- a latched result leaves with its word
      have hl' : (divNext s).doneLatched = true := hl
      cases hld : s.div.doneLatched
      · simp [divNext, hdn, hld] at hl'
      · obtain ⟨hx, hd⟩ := hown.owner (.inr (.inl hld))
        rw [(hown.step_of_leave (i := i) hsp hx hd hld).2.1] at hl
        simp at hl
    · exact .inr ⟨.inl (.inl hdn), (hown.stallEx_of_active (.inl hdn)).2⟩

/-- The divider was started in cycle `v` for the instruction that has been in EX up to cycle `u`. -/
structure StartedIn (pc : Word) (regs : RegFile) (inp : Nat → In) (v u : Nat) : Prop where
  before : v < u
  idle : (run pc regs inp v).divUnit.state = .idle
  pulse : divStartPulse (run pc regs inp v) = true
  held : ∀ k, v ≤ k → k < u → stallEx (run pc regs inp k) = true
  ex : (run pc regs inp u).ex = (run pc regs inp v).ex
  regs : settled (run pc regs inp u) = settled (run pc regs inp v)

theorem startedIn_run (h : ∀ v, v < t → startedAfresh (run pc regs inp v) = false)
    (ha : divActive (run pc regs inp t)) : ∃ v, StartedIn pc regs inp v t := by
  induction t with
  | zero => simp [divActive, reset, DivUnit.reset] at ha
  | succ t ih =>
      have h' : ∀ v, v < t → startedAfresh (run pc regs inp v) = false := fun v hv => h v (by omega)
      have hown := divOwned_run h'
      have hsp : Spaced (run pc regs inp t) := spaced_run t
      rcases divActive_step (i := inp t) hown hsp ha with ⟨hs, hp⟩ | ⟨ha', hst⟩
      · have hst := divStartPulse_stallEx hp
        refine ⟨t, by omega, hs, hp, fun k hk hkt => ?_, exNext_of_stall hst,
          settled_step (serialAlone_run t) hsp (divStartPulse_elim hp).1 hst⟩
        obtain rfl : k = t := by omega
        exact hst
      · obtain ⟨v, hv⟩ := ih h' ha'
        have hx : (run pc regs inp t).ex.valid = true := by
          rw [hv.ex]
          exact (divStartPulse_elim hv.pulse).1
        refine ⟨v, by have := hv.before; omega, hv.idle, hv.pulse, fun k hk hkt => ?_, ?_, ?_⟩
        · rcases Nat.lt_succ_iff_lt_or_eq.mp hkt with hlt | rfl
          · exact hv.held k hk hlt
          · exact hst
        · exact (exNext_of_stall hst).trans hv.ex
        · exact (settled_step (serialAlone_run t) hsp hx hst).trans hv.regs

/-- A DIV/REM word leaves EX with the answer to the settled values of its registers, for which it had the divider
started. -/
theorem divided (h : ∀ v, v < u → startedAfresh (run pc regs inp v) = false)
    (hx : (run pc regs inp u).ex.valid = true) (hd : (run pc regs inp u).ex.ctrl.isDiv = true)
    (hse : stallEx (run pc regs inp u) = false) :
    Divided pc regs inp u ((settled (run pc regs inp u)).read (run pc regs inp u).ex.rs1)
      ((settled (run pc regs inp u)).read (run pc regs inp u).ex.rs2) := by
  have hsp : Spaced (run pc regs inp u) := spaced_run u
  have hl : (run pc regs inp u).div.doneLatched = true := by
    rw [hsp.stallEx_of_ex hx] at hse
    simpa [exDivStall, hx, hd] using hse
  constructor
  · obtain ⟨v, hv⟩ := startedIn_run h (.inr hl)
    have hb := hv.before
    obtain ⟨hvx, -, hns, -, -⟩ := divStartPulse_elim hv.pulse
    have hops := (held_run fun k hk => h k (by omega)).forwarded (spaced_run v) hvx hns
    rw [Prod.mk.injEq] at hops
    refine ⟨v, hb, hv.idle, hv.held, ?_⟩
    rw [divIn, hv.pulse, hops.1, hops.2, hv.ex, hv.regs]
  · obtain ⟨id, m, d₁, d₂, he, -⟩ := hsp.ex_decoded hx
    have hans : (run pc regs inp u).ex.divIn ((settled (run pc regs inp u)).read (run pc regs inp u).ex.rs1)
        ((settled (run pc regs inp u)).read (run pc regs inp u).ex.rs2) true =
          Isa.divIn (run pc regs inp u).ex.instr ((settled (run pc regs inp u)).read (run pc regs inp u).ex.rs1)
            ((settled (run pc regs inp u)).read (run pc regs inp u).ex.rs2) := by
      rw [he]
      rfl
    rw [hans, (divides_run h).latched hl, (held_run h).latched hl]

/-! ## The retiring instruction -/

/-- An instruction that passes from MEM to WB without a trap has computed with the operands it had when it left EX. -/
theorem TakenOver.computes (h : TakenOver pc regs inp u v) (hr : retireWb (run pc regs inp (v + 1)) = true) :
    LeftEx pc regs inp u (v + 1) ∧
      Computes pc regs inp u (v + 1) (exRs1Fwd (run pc regs inp u)) (exRs2Fwd (run pc regs inp u)) := by
  have hb := h.before
  simp only [retireWb, Bool.and_eq_true, Bool.not_eq_true'] at hr
  obtain ⟨-, hm, hs, hwb⟩ := wbNext_valid (s := run pc regs inp v) hr.1
  have hwb' : (run pc regs inp (v + 1)).wb = MemWb.ofMem (run pc regs inp v).mem (run pc regs inp v).bus := hwb
  have htrap : exTrap (run pc regs inp u) = false := by
    cases ht : exTrap (run pc regs inp u)
    · rfl
    · obtain ⟨ph, ls, hmem⟩ := h.mem v hb le_rfl
      have hmt : (run pc regs inp v).mem.trap = true := by
        rw [hmem]
        exact ht
      rw [hwb', ((spaced_run v).mem_origin hm).ofMem_trap _ hmt] at hr
      simp at hr
  refine ⟨⟨by omega, h.valid, h.moves, h.stays, fun k hk hkv => h.held k hk (by omega), hs⟩, ?_, fun hbr => ?_,
    fun k hk hkv => h.mem k hk (by omega), hwb'⟩
  · simp [branchRedirect, htrap, h.moves]
  · show (fetchNext (run pc regs inp u) (inp u)).pc = _
    simp [fetchNext, h.stays, hbr, branchRedirectPc]

/-- The values left by the instructions before the one that retires are those that it saw in EX. -/
theorem TakenOver.archReg (h : TakenOver pc regs inp u v) (hr : retireWb (run pc regs inp (v + 1)) = true)
    (a : BitVec 5) :
    archReg pc regs inp (v + 1) a = (settled (run pc regs inp u)).read a := by
  simp only [retireWb, Bool.and_eq_true] at hr
  obtain ⟨-, hm, -, -⟩ := wbNext_valid (s := run pc regs inp v) hr.1
  have hregs : (run pc regs inp (v + 1)).regs = afterWb (run pc regs inp v) :=
    step_regs (serialAlone_run v) (spaced_run v) (.inr hm)
  rw [archReg_eq, hregs, h.regs]

theorem TakenOver.instr (h : TakenOver pc regs inp u v) (hr : retireWb (run pc regs inp (v + 1)) = true) :
    (run pc regs inp (v + 1)).wb.instr = (run pc regs inp u).ex.instr := by
  obtain ⟨ph, ls, hmem⟩ := h.mem v h.before le_rfl
  rw [(h.computes hr).2.wb, ofMem_instr]
  show (run pc regs inp v).mem.instr = _
  rw [hmem]
  rfl

/-- As long as no redirect has met the divider in its short exit, every instruction computed with the
register values that the instructions retired before it had left. -/
theorem operandsCorrect_of_run (h : ∀ v, v < t → startedAfresh (run pc regs inp v) = false) :
    OperandsCorrect pc regs inp t := by
  intro hr
  have hv : (run pc regs inp t).wb.valid = true := by
    simp only [retireWb, Bool.and_eq_true] at hr
    exact hr.1
  cases t with
  | zero => simp [reset] at hv
  | succ v =>
      obtain ⟨-, hm, -, -⟩ := wbNext_valid (s := run pc regs inp v) hv
      obtain ⟨u, hu⟩ := takenOver_run hm
      have hb := hu.before
      obtain ⟨hleft, hcomp⟩ := hu.computes hr
      have hsp : Spaced (run pc regs inp u) := spaced_run u
      have h' : ∀ k, k < u → startedAfresh (run pc regs inp k) = false := fun k hk => h k (by omega)
      have hdec := hsp.ex_decoded hu.valid
      have hdiv : (run pc regs inp u).ex.ctrl.isDiv = Decode.isDiv (run pc regs inp u).ex.instr := by
        obtain ⟨id, m, d₁, d₂, he, -⟩ := hdec
        rw [he]
        rfl
      refine ⟨u, hleft, ?_⟩
      rw [hu.archReg hr, hu.archReg hr, hu.instr hr, ← hdec.rs_fields.1, ← hdec.rs_fields.2]
      split_ifs with hd
      · exact ⟨⟨_, _, hcomp⟩, divided h' hu.valid (hdiv.trans hd) hu.moves⟩
      · have hns := ((divOwned_run h').idle (by simp [hdiv, hd])).1
        have hops := (held_run h').forwarded hsp hu.valid hns
        rw [Prod.mk.injEq] at hops
        rw [hops.1, hops.2] at hcomp
        exact hcomp

end Run

/-- `addi x1, x0, 6` and `mul x2, x1, x1`, which retires in cycle 7. -/
theorem operandsCorrect_mul :
    let inp := fun t => In.fetching
      (if t = 1 then some 0x00600093#32 else if t = 3 then some 0x02108133#32 else none)
    retireWb (run RESET_PC (fun _ => 0) inp 7) = true ∧ (run RESET_PC (fun _ => 0) inp 7).wb.result = 36 ∧
      OperandsCorrect RESET_PC (fun _ => 0) inp 7 :=
  ⟨by decide +kernel, by decide +kernel, operandsCorrect_of_run (by decide +kernel)⟩

/-- A DIV word whose fetch faults, with `div x3, x1, x2` by zero adjacent behind it; the handler loads
100 and 7 and divides them. That division leaves EX in cycle 16 with the answer to the operands of the first one. -/
theorem not_operandsCorrect : ¬ ∀ pc regs inp t, OperandsCorrect pc regs inp t := by
  intro h
  obtain ⟨u, hleft, hdiv⟩ := h RESET_PC (fun _ => 0) (fun t =>
    { In.fetching (if t = 1 ∨ t = 3 then some 0x0220C1B3#32 else if t = 7 then some 0x00000013#32
        else if t = 10 then some 0x06400093#32 else if t = 12 then some 0x00700113#32
        else if t = 14 then some 0x0220C233#32 else none) with
      ifetchRspFault := t == 1 }) 18 (by decide +kernel)
  have hu : u = 16 := by
    have hb := hleft.before
    by_contra hne
    exact absurd (hleft.held 16 (by omega) (by omega)) (by decide +kernel)
  subst hu
  rw [if_pos (by decide +kernel)] at hdiv
  exact absurd hdiv.2.result (by decide +kernel)

end QinglongCore.CorePipeline
