import QinglongCore.Pipeline.Lemmas.Serial

/-!
# The fetch path around a write to satp

MEM holds a CSR access to satp until the fetch in flight is answered. A request that the bus accepts in
the cycle in which the access leaves MEM is not seen by that stall.
-/

namespace QinglongCore.CorePipeline

variable {pc : Word} {regs : RegFile} {inp : Nat → In} {s : State} {i : In} {t : Nat}

theorem isSerial_of_memIsCsrwSatp (h : Spaced s) (hm : memIsCsrwSatp s = true) : s.mem.isSerial = true := by
  simp only [memIsCsrwSatp, memIsCsrOp, Bool.and_eq_true] at hm
  rw [(h.mem_origin hm.1.1.1.1).isSerial_eq]
  simp [Decode.isSerial, Decode.isCsr, Decode.isSystem, hm.1.1.2, hm.1.2]

/-- The access to satp in WB was in MEM one cycle before, with no fetch in flight. -/
theorem satp_left_mem (h : wbIsCsrwSatp (run pc regs inp (t + 1)) = true) :
    memIsCsrwSatp (run pc regs inp t) = true ∧ (run pc regs inp t).fetch.inflight = false := by
  have hsp := @spaced_run pc regs inp t
  generalize hs : run pc regs inp t = s at hsp
  have hwb : (run pc regs inp (t + 1)).wb = wbNext s := by rw [← hs]; rfl
  simp only [wbIsCsrwSatp, wbIsCsrOp, Bool.and_eq_true, Bool.not_eq_true', hwb] at h
  obtain ⟨-, hv, hst, he⟩ := wbNext_valid h.1.1.1.1
  rw [he, ofMem_instr] at h
  have htrap : s.mem.trap = false := by
    cases ht : s.mem.trap
    · rfl
    · have := (hsp.mem_origin hv).ofMem_trap s.bus ht
      rw [h.1.1.1.2] at this; simp at this
  have hsatp : memIsCsrwSatp s = true := by
    simp [memIsCsrwSatp, memIsCsrOp, hv, htrap, h.1.1.2, h.2]
    simpa using h.1.2
  refine ⟨hsatp, ?_⟩
  cases hin : s.fetch.inflight
  · rfl
  · simp [stallMem, memStallForIfetchDrain, hsatp, hin] at hst

/-- While an access to satp leaves MEM, a fetch is accepted unless ID is full or the bus not ready. -/
theorem ifetchAccept_beside_satp (hsp : Spaced s) (hal : SerialAlone s) (htr : TrapAhead s)
    (hm : memIsCsrwSatp s = true) (hin : s.fetch.inflight = false) :
    ifetchAccept s i = (!s.id.valid && i.ifetchReqReady) := by
  have hser := isSerial_of_memIsCsrwSatp hsp hm
  have hm' := hm
  simp only [memIsCsrwSatp, memIsCsrOp, Bool.and_eq_true, Bool.not_eq_true'] at hm'
  obtain ⟨hx, hw⟩ := hal.mem hm'.1.1.1.1 hser
  have hslot : ifIdSlotFreeNext s = !s.id.valid := by
    cases hid : s.id.valid
    · simp [ifIdSlotFreeNext, hid]
    · simp [ifIdSlotFreeNext, hid,
        stallId_of_serialInflight hid (by simp [serialInflight, hm'.1.1.1.1, hser])]
  have hb : branchRedirect s = false := by
    simp [branchRedirect, IdEx.takeBranch, IdEx.takeJal, IdEx.takeJalr, hx]
  have hr : wbRedirect s = false := by simp [wbRedirect, hw]
  have htp : s.trapPending = false := by
    cases hp : s.trapPending
    · rfl
    · rcases htr hp with h | h
      · simp [hm'.1.1.1.2] at h
      · simp [hw] at h
  simp [ifetchAccept, ifetchReqValid, ifCanIssue, allowIrqInject, hin, hslot, hb, hr, htp, hm'.1.1.1.1]

/-- When an access to satp retires, the fetch path is quiet exactly if one cycle earlier the next
instruction was already in ID or the fetch bus was not ready. -/
theorem satp_quiet_iff (h : wbIsCsrwSatp (run pc regs inp (t + 1)) = true) :
    (run pc regs inp (t + 1)).fetch.inflight = false ↔
      (run pc regs inp t).id.valid = true ∨ (inp t).ifetchReqReady = false := by
  obtain ⟨hm, hin⟩ := satp_left_mem h
  have hacc := ifetchAccept_beside_satp (i := inp t) (spaced_run t) (serialAlone_run t) (trapAhead_run t) hm hin
  have hnext : (run pc regs inp (t + 1)).fetch.inflight = ifetchAccept (run pc regs inp t) (inp t) := by
    show (fetchNext (run pc regs inp t) (inp t)).inflight = _
    simp [fetchNext, hin]
  rw [hnext, hacc]
  cases (run pc regs inp t).id.valid <;> simp

/-- `csrw satp, x1` at the reset vector with a fetch bus that is always ready. -/
theorem satp_quiet_always_ready :
    (run RESET_PC (fun _ => 0) (fun t => .fetching
      (if t = 1 then some 0x18009073#32 else if t = 3 then some 0x00000013#32 else none)) 5).fetch.inflight =
      false :=
  (satp_quiet_iff (t := 4) (by decide +kernel)).mpr (Or.inl (by decide +kernel))

/-- `csrw satp, x1` at the reset vector; the request behind it waits for ready until the access is in
MEM, and is in flight when satp is written. -/
theorem not_satp_quiet : ¬ ∀ pc regs inp t, wbIsCsrwSatp (run pc regs inp t) = true →
    (run pc regs inp t).fetch.inflight = false := by
  intro h
  have hq := h RESET_PC (fun _ => 0) (fun t =>
    { In.fetching (if t = 1 then some 0x18009073#32 else none) with
      ifetchReqReady := t == 0 || t == 4 }) 5 (by decide +kernel)
  exact absurd hq (by decide +kernel)

end QinglongCore.CorePipeline
