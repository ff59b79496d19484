import QinglongCore.Pipeline.Lemmas.Successor
import QinglongCore.Pipeline.WrongPath

/-!
# Precise interrupts

As long as nothing that a redirect had left behind has retired, the retired instructions form one chain
of successors, and an interrupt is taken between two of its members.
-/

namespace QinglongCore.CorePipeline

/-! ## Statement -/

section Run

variable (pc : Word) (regs : RegFile) (inp : Nat → In)

/-- The pc of the architecturally next instruction in cycle `t`: the successor of the last retired
instruction, or the target of the last redirect. -/
def archNextPc : Nat → Word
  | 0 => pc
  | t + 1 =>
      let s := run pc regs inp t
      if wbRedirect s then wbRedirectPc s
      else if s.wb.valid then
        Isa.nextPc s.wb.instr s.wb.pc (archReg pc regs inp t (rs1Field s.wb.instr))
          (archReg pc regs inp t (rs2Field s.wb.instr))
      else archNextPc t

/-- Before cycle `t` nothing has retired that stood behind an earlier redirect. -/
def OnlyPathRetired (t : Nat) : Prop :=
  ∀ u, u < t → (run pc regs inp u).wb.valid = true →
    ∀ r, r < u → wbRedirect (run pc regs inp r) = true → r < (births pc regs inp u).wb

/-- The interrupt taken in cycle `t` falls between two instructions. -/
structure Precise (t : Nat) : Prop where
  /-- The pc that the trap saves is that of the next instruction. -/
  savedPc : savedPc pc regs inp t = archNextPc pc regs inp t
  /-- Every retired instruction, the last one included, was the next one in its turn. -/
  path : ∀ u, u ≤ t → (run pc regs inp u).wb.valid = true →
    (run pc regs inp u).wb.pc = archNextPc pc regs inp u
  /-- No instruction has retired twice. -/
  once : ∀ u v, u < v → v ≤ t → (run pc regs inp u).wb.valid = true → (run pc regs inp v).wb.valid = true →
    (births pc regs inp u).wb < (births pc regs inp v).wb
  /-- Registers and CSRs were written by retired instructions only, and not by this one. -/
  writes : ∀ u, u ≤ t → (rfWen (run pc regs inp u) = true ∨ csrEnWb (run pc regs inp u) = true) →
    u < t ∧ (run pc regs inp u).wb.valid = true
  /-- Every data request was made by an instruction that has retired or was behind a redirect. -/
  dmem : ∀ u, u ≤ t → dmemReqValid (run pc regs inp u) = true →
    ∃ v, u ≤ v ∧ v < t ∧
      ((run pc regs inp v).wb.valid = true ∧ (births pc regs inp v).wb = (births pc regs inp u).mem ∨
        wbRedirect (run pc regs inp v) = true ∧ (births pc regs inp u).mem ≤ v)

end Run

variable {pc : Word} {regs : RegFile} {inp : Nat → In} {s : State} {i : In} {b : Births} {t u v r : Nat}

/-! ## A word left behind by a redirect -/

/-- A DIV/REM word older than `r` is alone on its way to WB. -/
def Doomed (r : Nat) (s : State) (b : Births) : Prop :=
  s.ex.valid = true ∧ s.ex.ctrl.isDiv = true ∧ s.mem.valid = false ∧ s.wb.valid = false ∧ b.ex ≤ r ∨
  s.mem.valid = true ∧ Decode.isDiv s.mem.instr = true ∧ s.wb.valid = false ∧ b.mem ≤ r ∨
  s.wb.valid = true ∧ Decode.isDiv s.wb.instr = true ∧ b.wb ≤ r

theorem doomed_of_redirect (hw : wbRedirect s = true) (hdiv : exDivStall s = true) (hb : b.ex ≤ r) (now : Nat) :
    Doomed r (step s i) (b.step s i now) := by
  obtain ⟨hx, hd, -⟩ := exDivStall_elim hdiv
  have hst := stallEx_of_exDivStall hdiv
  refine Or.inl ⟨?_, ?_, ?_, ?_, ?_⟩
  · rw [exNext_of_stall hst]; exact hx
  · rw [exNext_of_stall hst]; exact hd
  · rw [step_mem]
    simp [memNext, hw, ExMem.bubble]
  · rw [step_wb]
    simp [wbNext, hw, MemWb.bubble]
  · rw [Births.step_ex]
    rw [if_pos hst]; exact hb

theorem doomed_step (hsp : Spaced s) (h : Doomed r s b) (hwb : s.wb.valid = false) (now : Nat) :
    Doomed r (step s i) (b.step s i now) := by
  have hw : wbRedirect s = false := by simp [wbRedirect, hwb]
  rcases h with ⟨hx, hd, hm, -, hb⟩ | ⟨hm, hd, -, hb⟩ | ⟨hv, -, -⟩
  · have hwb' : (step s i).wb.valid = false := wbNext_empty (Or.inl hm)
    cases hst : stallEx s
    · refine Or.inr (Or.inl ?_)
      have he : (step s i).mem = memAdvance s := memNext_of_ex hw hx hst
      rw [he]
      refine ⟨rfl, ?_, hwb', ?_⟩
      · rw [memAdvance_instr, ← (hsp.ex_decoded hx).isDiv]; exact hd
      · rw [Births.step_mem]
        rw [if_neg (by simp [stallMem_false_of_invalid hm])]; exact hb
    · refine Or.inl ⟨?_, ?_, memNext_empty hm (Or.inl hst), hwb', ?_⟩
      · rw [exNext_of_stall hst]; exact hx
      · rw [exNext_of_stall hst]; exact hd
      · rw [Births.step_ex]
        rw [if_pos hst]; exact hb
  · have he : (step s i).wb = MemWb.ofMem s.mem s.bus := wbNext_of_mem hw hm (hsp.stallMem_of_div hm hd)
    refine Or.inr (Or.inr ?_)
    rw [he, ofMem_valid, ofMem_instr]
    exact ⟨rfl, hd, hb⟩
  · rw [hwb] at hv; simp at hv

/-! ## Following the path -/

/-- What is in flight agrees with the instructions retired so far. -/
structure OnPath (pc : Word) (regs : RegFile) (inp : Nat → In) (t : Nat) : Prop where
  owned : DivOwned (run pc regs inp t)
  held : Held (run pc regs inp t) (uses pc regs inp t)
  chained : Chained (run pc regs inp t) (uses pc regs inp t)
  head : headPc (run pc regs inp t) = archNextPc pc regs inp t

theorem onPath_zero : OnPath pc regs inp 0 where
  owned := divOwned_reset pc regs
  held := held_reset pc regs _
  chained := chained_reset pc regs _
  head := by simp [run, reset, headPc, behindPc, afterMem, afterEx, archNextPc]

/-- The divider is started afresh only for a word that a redirect leaves in EX. -/
theorem DivOwned.startedAfresh_of_clean (h : DivOwned s)
    (hc : wbRedirect s = true → exDivStall s = false) : startedAfresh s = false := by
  cases hs : startedAfresh s
  · rfl
  simp only [startedAfresh, Bool.and_eq_true, beq_iff_eq] at hs
  obtain ⟨hx, hd⟩ := h.owner (Or.inr (Or.inr (Or.inr (by rw [hs.2.1]; simp))))
  have hl := (h.early hx (wb_valid_of_wbRedirect hs.1)).2.2
  have := hc hs.1
  simp [exDivStall, hx, hd, hl] at this

theorem OnPath.step (h : OnPath pc regs inp t)
    (hc : wbRedirect (run pc regs inp t) = true → exDivStall (run pc regs inp t) = false) :
    OnPath pc regs inp (t + 1) where
  owned := divOwned_step (spaced_run t) h.owned (h.owned.startedAfresh_of_clean hc) (inp t)
  held := held_step (spaced_run t) (serialAlone_run t) h.owned h.held (inp t)
  chained := by
    cases hw : wbRedirect (run pc regs inp t)
    · exact chained_step (spaced_run t) h.chained hw (inp t)
    · exact ((spaced_run t).drained_of_redirect hw (hc hw)).chained
  head := by
    rw [archNextPc]
    cases hw : wbRedirect (run pc regs inp t)
    · have hstep : headPc (run pc regs inp (t + 1)) = behindPc (run pc regs inp t) := headPc_step hw (inp t)
      cases hv : (run pc regs inp t).wb.valid
      · rw [hstep, ← headPc_of_no_wb hv, h.head]; simp
      · have ht : (run pc regs inp t).wb.trap = false := by
          cases ht : (run pc regs inp t).wb.trap
          · rfl
          · simp [wbRedirect, hv, ht] at hw
        rw [hstep, h.chained.wb hv ht, h.held.wb hv, archReg_eq, archReg_eq]; simp
    · have hd : Drained (run pc regs inp (t + 1)) := (spaced_run t).drained_of_redirect hw (hc hw)
      have hpc : (run pc regs inp (t + 1)).fetch.pc = _ := step_fetch_pc_of_redirect hw
      rw [hd.headPc, hpc]; simp

/-- On a run whose retired instructions are on the path, the pipe is on the path too, unless a word left
behind by a redirect is about to retire. -/
theorem onPath_or_doomed (h : OnlyPathRetired pc regs inp t) :
    OnPath pc regs inp t ∨ ∃ r, r < t ∧ wbRedirect (run pc regs inp r) = true ∧
      Doomed r (run pc regs inp t) (births pc regs inp t) := by
  induction t with
  | zero => exact Or.inl onPath_zero
  | succ t ih =>
      rcases ih fun u hu => h u (by omega) with hp | ⟨r, hr, hw, hd⟩
      · by_cases hc : wbRedirect (run pc regs inp t) = true ∧ exDivStall (run pc regs inp t) = true
        · exact Or.inr ⟨t, by omega, hc.1, doomed_of_redirect hc.1 hc.2 (births_le t).2.2.1 t⟩
        · exact Or.inl (hp.step fun hw => by simpa [hw] using hc)
      · cases hv : (run pc regs inp t).wb.valid
        · exact Or.inr ⟨r, by omega, hw, doomed_step (spaced_run t) hd hv t⟩
        · rcases hd with ⟨-, -, -, hv', -⟩ | ⟨-, -, hv', -⟩ | ⟨-, -, hb⟩
          · rw [hv] at hv'; simp at hv'
          · rw [hv] at hv'; simp at hv'
          · have := h t (by omega) hv r hr hw
            omega

/-! ## Interrupts -/

/-- A trap in WB is a fault of the data bus or was brought from MEM. -/
theorem ofMem_trap_elim (m : ExMem) (mb : MemBus) (ht : (MemWb.ofMem m mb).trap = true) :
    (MemWb.ofMem m mb).cause.msb = false ∨ m.trap = true ∧ (MemWb.ofMem m mb).cause = m.cause := by
  unfold MemWb.ofMem at ht ⊢
  by_cases hb : (m.hasBusOp && !m.hasResult) = true
  · left
    by_cases hp : mb.busPagefault = true
    · cases m.isStore || m.isSc || m.isAmoRmw <;> simp only [hb, hp, Bool.false_eq_true, ↓reduceIte] <;> rfl
    · by_cases hf : mb.busFault = true
      · cases m.isStore || m.isSc || m.isAmoRmw <;>
          simp only [hb, hp, hf, Bool.false_eq_true, ↓reduceIte] <;> rfl
      · simp only [hb, hp, hf, Bool.false_eq_true, ↓reduceIte] at ht
        split_ifs at ht <;> simp [MemWb.payload] at ht
  · right
    simp only [hb, Bool.false_eq_true, ↓reduceIte] at ht ⊢
    exact ⟨ht, rfl⟩

/-- The word 0 of an interrupt bubble is what traps with an interrupt cause. -/
theorem MemWb.FromMem.irq_instr {w : MemWb} (h : w.FromMem) (ht : w.trap = true) (hc : w.cause.msb = true) :
    w.instr = 0#32 := by
  obtain ⟨m, mb, hm, -, rfl⟩ := h
  rw [ofMem_instr]
  rcases ofMem_trap_elim m mb ht with hf | ⟨htr, hcause⟩
  · rw [hc] at hf; simp at hf
  · exact hm.irq_instr htr (hcause ▸ hc)

theorem irqTrapWb_elim (h : irqTrapWb s = true) :
    s.wb.valid = true ∧ s.wb.trap = true ∧ s.wb.cause.msb = true := by
  simpa [irqTrapWb, trapTakeWb, and_assoc] using h

/-- An interrupt in WB is no DIV/REM word. -/
theorem Spaced.irq_not_div (h : Spaced s) (hq : irqTrapWb s = true) : Decode.isDiv s.wb.instr = false := by
  obtain ⟨hv, ht, hc⟩ := irqTrapWb_elim hq
  rw [(h.wb_origin hv).irq_instr ht hc]; decide

/-- Where an instruction that has driven a data request can be. -/
def Accounted (pc : Word) (regs : RegFile) (inp : Nat → In) (u k t : Nat) : Prop :=
  (run pc regs inp t).mem.valid = true ∧ (run pc regs inp t).mem.hasBusOp = true ∧
    (births pc regs inp t).mem = k ∨
  (run pc regs inp t).wb.valid = true ∧ (births pc regs inp t).wb = k ∧
    irqTrapWb (run pc regs inp t) = false ∨
  ∃ v, u ≤ v ∧ v < t ∧
    ((run pc regs inp v).wb.valid = true ∧ (births pc regs inp v).wb = k ∨
      wbRedirect (run pc regs inp v) = true ∧ k ≤ v)

/-- A data access does not end in an interrupt. -/
theorem ofMem_not_irq {m : ExMem} (mb : MemBus) (hm : m.FromEx) (hb : m.hasBusOp = true)
    (ht : (MemWb.ofMem m mb).trap = true) : (MemWb.ofMem m mb).cause.msb = false := by
  rcases ofMem_trap_elim m mb ht with hf | ⟨htr, -⟩
  · exact hf
  · rw [hm.trap_no_bus htr] at hb; simp at hb

theorem accounted_step {k : Nat} (hut : u ≤ t) (hk : k ≤ u) (h : Accounted pc regs inp u k t) :
    Accounted pc regs inp u k (t + 1) := by
  rcases h with ⟨hm, hb, hbirth⟩ | ⟨hv, hbirth, -⟩ | ⟨v, huv, hvt, hv⟩
  · cases hw : wbRedirect (run pc regs inp t)
    · cases hst : stallMem (run pc regs inp t)
      · have he : (run pc regs inp (t + 1)).wb = _ := wbNext_of_mem hw hm hst
        refine Or.inr (Or.inl ⟨by rw [he]; exact ofMem_valid _ _, hbirth, ?_⟩)
        cases ht : (run pc regs inp (t + 1)).wb.trap
        · simp [irqTrapWb, trapTakeWb, ht]
        · have hc : (run pc regs inp (t + 1)).wb.cause.msb = false := by
            rw [he] at ht ⊢
            exact ofMem_not_irq _ ((spaced_run t).mem_origin hm) hb ht
          simp [irqTrapWb, hc]
      · have he : (run pc regs inp (t + 1)).mem = _ := memNext_of_stall hw hst
        refine Or.inl ⟨by rw [he, memHold_valid]; exact hm, by rw [he, memHold_hasBusOp]; exact hb, ?_⟩
        show (if stallMem (run pc regs inp t) then _ else _) = k
        rw [if_pos hst]; exact hbirth
    · exact Or.inr (Or.inr ⟨t, hut, by omega, Or.inr ⟨hw, by omega⟩⟩)
  · exact Or.inr (Or.inr ⟨t, hut, by omega, Or.inl ⟨hv, hbirth⟩⟩)
  · exact Or.inr (Or.inr ⟨v, huv, by omega, hv⟩)

theorem accounted_of_request (hreq : dmemReqValid (run pc regs inp u) = true) (hut : u ≤ t) :
    Accounted pc regs inp u (births pc regs inp u).mem t := by
  induction t, hut using Nat.le_induction with
  | base =>
      simp only [dmemReqValid, Bool.and_eq_true] at hreq
      exact Or.inl ⟨hreq.1.1.1, hreq.1.1.2, rfl⟩
  | succ t hut ih => exact accounted_step hut (births_le u).2.2.2.1 ih

theorem OnlyPathRetired.mono (h : OnlyPathRetired pc regs inp t) (hut : u ≤ t) :
    OnlyPathRetired pc regs inp u :=
  fun v hv => h v (by omega)

/-- A retiring instruction that is not doomed is the architecturally next one. -/
theorem retire_pc (h : OnlyPathRetired pc regs inp t) (hut : u < t)
    (hv : (run pc regs inp u).wb.valid = true) : (run pc regs inp u).wb.pc = archNextPc pc regs inp u := by
  rcases onPath_or_doomed (h.mono (by omega : u ≤ t)) with hp | ⟨r, hr, hw, hd⟩
  · rw [← hp.head, headPc_of_wb hv]
  · rcases hd with ⟨-, -, -, hv', -⟩ | ⟨-, -, hv', -⟩ | ⟨-, -, hb⟩
    · rw [hv] at hv'; simp at hv'
    · rw [hv] at hv'; simp at hv'
    · have := h u hut hv r hr hw
      omega

theorem irq_pc (h : OnlyPathRetired pc regs inp t) (hq : irqTrapWb (run pc regs inp t) = true) :
    (run pc regs inp t).wb.pc = archNextPc pc regs inp t := by
  have hv := (irqTrapWb_elim hq).1
  rcases onPath_or_doomed h with hp | ⟨r, -, -, hd⟩
  · rw [← hp.head, headPc_of_wb hv]
  · rcases hd with ⟨-, -, -, hv', -⟩ | ⟨-, -, hv', -⟩ | ⟨-, hdiv, -⟩
    · rw [hv] at hv'; simp at hv'
    · rw [hv] at hv'; simp at hv'
    · rw [(spaced_run t).irq_not_div hq] at hdiv; simp at hdiv

/-- An interrupt is taken between two instructions of the path. -/
theorem precise_of_irq (h : OnlyPathRetired pc regs inp t) (hq : irqTrapWb (run pc regs inp t) = true) :
    Precise pc regs inp t where
  savedPc := by
    rw [savedPc_of_trap, irq_pc h hq]
    simp only [irqTrapWb, Bool.and_eq_true] at hq; exact hq.1
  path u hut hv := by
    rcases Nat.lt_or_ge u t with hlt | hge
    · exact retire_pc h hlt hv
    · obtain rfl : u = t := by omega
      exact irq_pc h hq
  once u v huv _ hu hv := births_retire_lt huv hu hv
  writes u hut hwr := by
    obtain ⟨hv, ht, -⟩ := irqTrapWb_elim hq
    have hwb : (run pc regs inp u).wb.valid = true ∧ (run pc regs inp u).wb.trap = false := by
      simp only [rfWen, csrEnWb, Bool.and_eq_true, Bool.not_eq_true'] at hwr
      rcases hwr with hwr | hwr
      · exact ⟨hwr.1.1.1, hwr.1.2⟩
      · exact ⟨hwr.1.1, hwr.2⟩
    refine ⟨Nat.lt_of_le_of_ne hut fun he => ?_, hwb.1⟩
    rw [he, ht] at hwb; simp at hwb
  dmem u hut hreq := by
    rcases accounted_of_request hreq hut with ⟨hm, -, -⟩ | ⟨-, -, hn⟩ | hdone
    · have hsp := @spaced_run pc regs inp t
      rw [hsp.mem_empty (irqTrapWb_elim hq).1 (hsp.irq_not_div hq)] at hm; simp at hm
    · rw [hq] at hn; simp at hn
    · exact hdone

/-- `csrrsi mie, 8` and `csrrsi mstatus, 8` with the software interrupt line raised; the `nop` behind them
is in ID when the interrupt pre-empts it, and the trap is taken in cycle 14. -/
theorem precise_msi : Precise RESET_PC (fun _ => 0) (fun t =>
    { In.fetching (if t = 1 then some 0x30446073#32 else if t = 3 then some 0x30046073#32
        else if t = 7 then some 0x00000013#32 else none) with
      ext := ⟨false, true, false, false, 0⟩ }) 14 :=
  precise_of_irq (by unfold OnlyPathRetired; decide +kernel) (by decide +kernel)

end QinglongCore.CorePipeline
