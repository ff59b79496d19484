import QinglongCore.Pipeline.Lemmas.DivLiveness

/-!
# What a redirect in WB leaves behind

A trap, an xRET, a fence or a write to satp redirects fetch from WB. The instructions behind it must not
act any more. Two of them do: a DIV/REM word that the divider holds in EX, which the flush does not
reach, and a data beat that starts in the redirect cycle itself.
-/

namespace QinglongCore.CorePipeline

variable (pc : Word) (regs : RegFile) (inp : Nat → In)

/-! ## Statement -/

/-- An interrupt is taken in WB. -/
def irqTrapWb (s : State) : Bool := trapTakeWb s && s.wb.cause.msb

/-- `mepc` or `sepc`, whichever the trap in WB writes, as it is after the clock edge. -/
def savedPc (t : Nat) : Word :=
  let s := run pc regs inp t
  let s' := run pc regs inp (t + 1)
  if Csr.trapToS s.csr (csrIn s) then s'.csr.sepc else s'.csr.mepc

/-- After the redirect of cycle `t` only instructions that entered the pipe later act, and the first to
retire sits at the redirect pc. -/
structure RedirectClean (t : Nat) : Prop where
  retires : ∀ u, t < u → (run pc regs inp u).wb.valid = true → t < (births pc regs inp u).wb
  writesReg : ∀ u, t < u → rfWen (run pc regs inp u) = true → t < (births pc regs inp u).wb
  writesCsr : ∀ u, t < u → csrEnWb (run pc regs inp u) = true → t < (births pc regs inp u).wb
  startsDmem : ∀ u, t ≤ u → dmemReqValid (run pc regs inp u) = true → t < (births pc regs inp u).mem
  next : ∀ u, t < u → (run pc regs inp u).wb.valid = true →
    (∀ v, t < v → v < u → (run pc regs inp v).wb.valid = false) →
    (run pc regs inp u).wb.pc = wbRedirectPc (run pc regs inp t) ∧
      (irqTrapWb (run pc regs inp u) = true → savedPc pc regs inp u = wbRedirectPc (run pc regs inp t))

variable {pc regs inp} {t u r : Nat} {s : State}

/-! ## After a clean redirect -/

/-- While nothing retires the oldest instruction keeps its pc. -/
theorem headPc_from (h : ∀ v, t ≤ v → v < u → (run pc regs inp v).wb.valid = false) (htu : t ≤ u) :
    headPc (run pc regs inp u) = headPc (run pc regs inp t) := by
  induction u, htu using Nat.le_induction with
  | base => rfl
  | succ u htu ih =>
      have hwb := h u htu (by omega)
      rw [← ih fun v hv hu => h v hv (by omega), headPc_of_no_wb hwb]
      exact headPc_step (by simp [wbRedirect, hwb]) _

/-- A trap saves the pc of the instruction in WB. -/
theorem savedPc_of_trap (h : trapTakeWb (run pc regs inp t) = true) :
    savedPc pc regs inp t = (run pc regs inp t).wb.pc := by
  have hstep : (run pc regs inp (t + 1)).csr =
      Csr.step (run pc regs inp t).csr (inp t).ext (csrIn (run pc regs inp t)) := rfl
  have htake : (csrIn (run pc regs inp t)).trapTake = true := h
  simp only [savedPc, hstep, Csr.step, htake, if_true]
  cases Csr.trapToS (run pc regs inp t).csr (csrIn (run pc regs inp t)) <;> rfl

theorem dmemReqValid_elim (h : dmemReqValid s = true) : s.mem.valid = true ∧ memBusy s = true := by
  simp only [dmemReqValid, Bool.and_eq_true] at h
  exact ⟨h.1.1.1, by simp [memBusy, h.1.1.1, h.1.2]⟩

theorem redirectClean_of_drained (hw : wbRedirect (run pc regs inp t) = true)
    (hdiv : exDivStall (run pc regs inp t) = false) (hmem : memBusy (run pc regs inp t) = false) :
    RedirectClean pc regs inp t := by
  have hd : Drained (run pc regs inp (t + 1)) := (spaced_run t).drained_of_redirect hw hdiv
  have hy : ∀ u, t < u → Younger t (run pc regs inp u) (births pc regs inp u) := fun u hu =>
    younger_from hd.younger (by omega) hu
  refine ⟨fun u hu hv => (hy u hu).2 hv, fun u hu hv => (hy u hu).2 ?_, fun u hu hv => (hy u hu).2 ?_,
    fun u hu hv => ?_, fun u hu hv hfirst => ?_⟩
  · simp only [rfWen, Bool.and_eq_true] at hv; exact hv.1.1.1
  · simp only [csrEnWb, Bool.and_eq_true] at hv; exact hv.1.1
  · obtain ⟨hm, hb⟩ := dmemReqValid_elim hv
    rcases Nat.lt_or_ge t u with htu | htu
    · exact (hy u htu).1.2 hm
    · obtain rfl : u = t := by omega
      rw [hmem] at hb; simp at hb
  · have hpc : (run pc regs inp u).wb.pc = wbRedirectPc (run pc regs inp t) := by
      rw [← headPc_of_wb hv, headPc_from (t := t + 1) (fun v htv hvu => hfirst v htv hvu) hu, hd.headPc]
      exact step_fetch_pc_of_redirect hw
    refine ⟨hpc, fun hirq => ?_⟩
    simp only [irqTrapWb, Bool.and_eq_true] at hirq
    rw [savedPc_of_trap hirq.1, hpc]

/-- A beat pending in MEM behind WB is driven on the data bus in that very cycle. -/
theorem Spaced.dmemReqValid_behind_wb (h : Spaced s) (hw : s.wb.valid = true) (hb : memBusy s = true) :
    dmemReqValid s = true := by
  simp only [memBusy, Bool.and_eq_true] at hb
  simp [dmemReqValid, memHasBusOp, hb.1, hb.2, (h.mem_origin hb.1).hasBusOp hb.2, h.unfired_behind_wb hb.1 hw]

/-- A redirect kills everything behind it exactly when the divider does not hold EX and MEM has no
pending data beat. -/
theorem redirectClean_iff (hw : wbRedirect (run pc regs inp t) = true) :
    RedirectClean pc regs inp t ↔
      exDivStall (run pc regs inp t) = false ∧ memBusy (run pc regs inp t) = false := by
  refine ⟨fun h => ⟨?_, ?_⟩, fun h => redirectClean_of_drained hw h.1 h.2⟩
  · by_contra hdiv
    obtain ⟨u, htu, hv, hb⟩ := div_retires_after_redirect hw (by simpa using hdiv) (births_le t).2.2.1
    have := h.retires u htu hv
    omega
  · by_contra hmem
    have hreq := (spaced_run t).dmemReqValid_behind_wb (wb_valid_of_wbRedirect hw) (by simpa using hmem)
    have hlt := h.startsDmem t (le_refl t) hreq
    have := (@births_le pc regs inp t).2.2.2.1
    omega

/-- The word 0, which traps as illegal, and nothing behind it. -/
theorem redirectClean_illegal : RedirectClean RESET_PC (fun _ => 0) (fun t => .fetching
    (if t = 1 then some 0#32 else none)) 5 :=
  (redirectClean_iff (by decide +kernel)).mpr ⟨by decide +kernel, by decide +kernel⟩

/-- The word 0 at the reset vector with `div x3, x1, x2` behind it: the trap retires in cycle 5 and the
DIV in cycle 11. -/
theorem not_redirectClean : ¬ ∀ pc regs inp t, wbRedirect (run pc regs inp t) = true →
    RedirectClean pc regs inp t := by
  intro h
  have hlt := (h RESET_PC (fun _ => 0) (fun t => .fetching
    (if t = 1 then some 0#32 else if t = 3 then some 0x0220C1B3#32 else none)) 5
    (by decide +kernel)).retires 11 (by decide) (by decide +kernel)
  exact absurd hlt (by decide +kernel)

end QinglongCore.CorePipeline
