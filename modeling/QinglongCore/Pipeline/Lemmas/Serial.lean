import QinglongCore.Pipeline.Lemmas.Spacing

/-!
# Serialised instructions

CSR accesses, system instructions, fences and atomics leave ID only when the pipe in front of them is
empty, and hold the next instruction in ID until they have left WB.
-/

namespace QinglongCore.CorePipeline

variable {s : State} {i : In}

/-- A serialised instruction is the only one in EX, MEM and WB. -/
structure SerialAlone (s : State) : Prop where
  ex : s.ex.valid = true → s.ex.ctrl.isSerial = true → s.mem.valid = false ∧ s.wb.valid = false
  mem : s.mem.valid = true → s.mem.isSerial = true → s.ex.valid = false ∧ s.wb.valid = false
  wb : s.wb.valid = true → s.wb.isSerial = true → s.ex.valid = false ∧ s.mem.valid = false

theorem serialAlone_reset (pc : Word) (regs : RegFile) : SerialAlone (reset pc regs) := by
  constructor <;> simp [reset]

/-- ID lets nothing pass while a serialised instruction is in front of it. -/
theorem stallId_of_serialInflight (hid : s.id.valid = true) (h : serialInflight s = true) : stallId s = true := by
  have hbusy : pipeBusyAheadOfId s = true := by
    simp only [serialInflight, Bool.or_eq_true, Bool.and_eq_true] at h
    rcases h with (h | h) | h <;> simp [pipeBusyAheadOfId, h.1]
  cases hd : Decode.isSerial s.id.instr <;> simp [stallId, hid, h, hd, hbusy]

/-- A serialised instruction leaves ID into an empty pipe. -/
theorem pipe_empty_of_serial (hid : s.id.valid = true) (hs : stallId s = false)
    (hd : Decode.isSerial s.id.instr = true) :
    s.ex.valid = false ∧ s.mem.valid = false ∧ s.wb.valid = false := by
  simp only [stallId, hid, hd, Bool.true_and, Bool.or_eq_false_iff, pipeBusyAheadOfId] at hs
  exact ⟨hs.1.2.1.1, hs.1.2.1.2, hs.1.2.2⟩

/-- Nothing enters EX while a serialised instruction is in front of it. -/
theorem exNext_of_serialInflight (h : serialInflight s = true) (hv : (exNext s i).valid = true) :
    stallEx s = true ∧ s.ex.valid = true := by
  rcases exNext_valid hv with ⟨hst, hx, -⟩ | ⟨hid, hs, -⟩
  · exact ⟨hst, hx⟩
  · rw [stallId_of_serialInflight hid h] at hs; simp at hs

theorem serialAlone_step (h : SerialAlone s) (i : In) : SerialAlone (step s i) where
  ex hv hd := by
    rw [step_mem, step_wb]
    rcases exNext_valid hv with ⟨hst, hx, he⟩ | ⟨hid, hs, hse, -, -, he⟩
    · have hd' : (exNext s i).ctrl.isSerial = true := hd
      rw [he] at hd'
      obtain ⟨hm, -⟩ := h.ex hx hd'
      exact ⟨memNext_empty hm (Or.inl hst), wbNext_empty (Or.inl hm)⟩
    · have hd' : (exNext s i).ctrl.isSerial = true := hd
      rw [he] at hd'
      obtain ⟨hx, hm, -⟩ := pipe_empty_of_serial hid hs hd'
      exact ⟨memNext_empty hm (Or.inr hx), wbNext_empty (Or.inl hm)⟩
  mem hv hd := by
    rw [step_ex, step_wb]
    have hd' : (memNext s i).isSerial = true := hd
    obtain ⟨-, ⟨hst, hm, he⟩ | ⟨hse, hx, he⟩⟩ := memNext_valid hv
    · rw [he, memHold_isSerial] at hd'
      refine ⟨?_, wbNext_empty (Or.inr hst)⟩
      cases hx : (exNext s i).valid
      · rfl
      · have hx' := (exNext_of_serialInflight (by simp [serialInflight, hm, hd']) hx).2
        rw [(h.mem hm hd').1] at hx'; simp at hx'
    · rw [he, memAdvance_isSerial] at hd'
      refine ⟨?_, wbNext_empty (Or.inl (h.ex hx hd').1)⟩
      cases hn : (exNext s i).valid
      · rfl
      · have hst := (exNext_of_serialInflight (by simp [serialInflight, hx, hd']) hn).1
        rw [hse] at hst; simp at hst
  wb hv hd := by
    rw [step_ex, step_mem]
    obtain ⟨-, hm, hsm, he⟩ := wbNext_valid hv
    have hd' : (wbNext s).isSerial = true := hd
    rw [he, ofMem_isSerial] at hd'
    have hx := (h.mem hm hd').1
    constructor
    · cases hn : (exNext s i).valid
      · rfl
      · have hx' := (exNext_of_serialInflight (by simp [serialInflight, hm, hd']) hn).2
        rw [hx] at hx'; simp at hx'
    · cases hn : (memNext s i).valid
      · rfl
      obtain ⟨-, ⟨hst, -, -⟩ | ⟨-, hx', -⟩⟩ := memNext_valid hn
      · rw [hsm] at hst; simp at hst
      · rw [hx] at hx'; simp at hx'

variable {pc : Word} {regs : RegFile} {inp : Nat → In}

theorem serialAlone_run (t : Nat) : SerialAlone (run pc regs inp t) :=
  Sync.run_invariant (serialAlone_reset pc regs) (fun _ i h => serialAlone_step h i) t

/-! ## What redirects from WB -/

theorem MemWb.FromMem.isSerial_eq {w : MemWb} (h : w.FromMem) : w.isSerial = Decode.isSerial w.instr := by
  obtain ⟨m, b, hm, -, rfl⟩ := h
  rw [ofMem_isSerial, ofMem_instr, hm.isSerial_eq]

theorem ExMem.FromEx.xret_serial {m : ExMem} (h : m.FromEx) (hr : m.isMret = true ∨ m.isSret = true) :
    m.isSerial = true := by
  obtain ⟨ex, rs1, rs2, dv, p, hit, ph, ls, ⟨id, md, d₁, d₂, rfl, -⟩, hv, rfl, hls⟩ := h
  simp only [ExMem.ofEx, IdEx.ofId, Ctrl.ofId, Bool.and_eq_true] at hr ⊢
  rcases hr with hr | hr <;> simp [Decode.isSerial, hr.1]

theorem MemWb.FromMem.xret_serial {w : MemWb} (h : w.FromMem) (hr : w.isMret = true ∨ w.isSret = true) :
    w.isSerial = true := by
  obtain ⟨m, b, hm, -, rfl⟩ := h
  rw [ofMem_isSerial]
  refine hm.xret_serial ?_
  unfold MemWb.ofMem at hr
  dsimp only at hr
  split_ifs at hr
  all_goals simp only [MemWb.payload, Bool.false_eq_true, or_self, Bool.and_eq_true] at hr
  exact hr.imp And.left And.left

/-- Only a trap or a serialised instruction redirects from WB. -/
theorem Spaced.redirect_elim (h : Spaced s) (hw : wbRedirect s = true) :
    s.wb.trap = true ∨ s.wb.isSerial = true := by
  have hv := wb_valid_of_wbRedirect hw
  have hser := (h.wb_origin hv).isSerial_eq
  simp only [wbRedirect, wbIsFenceI, wbIsSfence, wbIsCsrwSatp, wbIsCsrOp, Bool.and_eq_true, Bool.or_eq_true,
    beq_iff_eq, bne_iff_ne] at hw
  rcases hw.2 with ((((ht | hr) | hr) | hf) | hf) | hf
  · exact Or.inl ht
  · exact Or.inr ((h.wb_origin hv).xret_serial (Or.inl hr))
  · exact Or.inr ((h.wb_origin hv).xret_serial (Or.inr hr))
  · right; rw [hser]; simp [Decode.isSerial, Decode.isMisc, hf.1.2]
  · right; rw [hser]; simp [Decode.isSerial, Decode.isSfence, Decode.isSystem, hf.1.1.2, hf.1.2, hf.2]
  · right; rw [hser]; simp [Decode.isSerial, Decode.isCsr, Decode.isSystem, hf.1.1.2, hf.1.2]

/-- A redirect with an instruction left in EX is a trap, which writes no register. -/
theorem SerialAlone.rfWen_of_redirect (h : SerialAlone s) (hsp : Spaced s) (hw : wbRedirect s = true)
    (hx : s.ex.valid = true) : rfWen s = false := by
  rcases hsp.redirect_elim hw with ht | hs
  · simp [rfWen, ht]
  · rw [(h.wb (wb_valid_of_wbRedirect hw) hs).1] at hx; simp at hx

/-! ## Traps in flight -/

/-- While `trapPending` blocks fetch, the instruction that trapped is in MEM or WB. -/
def TrapAhead (s : State) : Prop :=
  s.trapPending = true → s.mem.valid = true ∧ s.mem.trap = true ∨ s.wb.valid = true ∧ s.wb.trap = true

/-- An instruction that trapped in EX passes MEM without a stall. -/
theorem Spaced.stallMem_of_trap (h : Spaced s) (hv : s.mem.valid = true) (ht : s.mem.trap = true) :
    stallMem s = false := by
  have hb := (h.mem_origin hv).trap_no_bus ht
  have hl : s.mem.lsPending = false := by
    cases hl : s.mem.lsPending
    · rfl
    · rw [(h.mem_origin hv).hasBusOp hl] at hb; simp at hb
  simp [stallMem, memBusy, memStallForIfetchDrain, memIsCsrwSatp, memIsCsrOp, hl, ht]

/-- An instruction that trapped in EX traps in WB. -/
theorem ExMem.FromEx.ofMem_trap {m : ExMem} (h : m.FromEx) (b : MemBus) (ht : m.trap = true) :
    (MemWb.ofMem m b).trap = true := by
  simp [MemWb.ofMem, h.trap_no_bus ht, ht]

theorem trapAhead_step (hs : Spaced s) (h : TrapAhead s) (i : In) : TrapAhead (step s i) := by
  intro hp
  have hp' : trapPendingNext s = true := hp
  unfold trapPendingNext at hp'
  cases hw : wbRedirect s <;> simp only [hw, Bool.false_eq_true, ↓reduceIte] at hp'
  by_cases hx : (exTrap s && s.ex.valid && !stallEx s) = true
  · left
    simp only [Bool.and_eq_true, Bool.not_eq_true'] at hx
    have he : (step s i).mem = memAdvance s := memNext_of_ex hw hx.1.2 hx.2
    rw [he]
    exact ⟨rfl, hx.1.1⟩
  · rw [if_neg hx] at hp'
    right
    rcases h hp' with ⟨hv, ht⟩ | ⟨hv, ht⟩
    · have he : (step s i).wb = MemWb.ofMem s.mem s.bus := wbNext_of_mem hw hv (hs.stallMem_of_trap hv ht)
      rw [he]
      exact ⟨ofMem_valid _ _, (hs.mem_origin hv).ofMem_trap _ ht⟩
    · simp [wbRedirect, hv, ht] at hw

theorem trapAhead_run (t : Nat) : TrapAhead (run pc regs inp t) := by
  induction t with
  | zero => intro h; simp [run, reset] at h
  | succ t ih => exact trapAhead_step (spaced_run t) ih (inp t)

end QinglongCore.CorePipeline
