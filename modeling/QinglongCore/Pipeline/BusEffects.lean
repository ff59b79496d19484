import QinglongCore.Pipeline.Lemmas.DataBus
import QinglongCore.Pipeline.Lemmas.Successor
import QinglongCore.Pipeline.WrongPath

/-!
# Each instruction makes its data accesses once

A load, a store or an atomic makes its requests while it waits in MEM. An instruction that does not get there
alive makes none, unless a redirect in WB crosses its beat: that of a faulted fetch whose word is a DIV/REM.
-/

namespace QinglongCore.CorePipeline

/-! ## Statement -/

/-- A redirect squashes the instruction named `r`. -/
def Squashes (s : State) (b : Births) (r : Nat) : Prop :=
  flushId s = true ∧ (s.fetch.inflight = true ∧ s.fetch.squash = false ∧ b.fetch = r ∨ s.id.valid = true ∧ b.id = r) ∨
  wbRedirect s = true ∧ (s.ex.valid = true ∧ stallEx s = false ∧ b.ex = r ∨ s.mem.valid = true ∧ b.mem = r)

section Statement

variable (pc : Word) (regs : RegFile) (inp : Nat → In)

/-- What the instructions seen before cycle `T` have issued by then. -/
structure ExactlyOnce (T : Nat) : Prop where
  load : ∀ t, t < T → retireWb (run pc regs inp t) = true →
    (Decode.isLoad (run pc regs inp t).wb.instr || Decode.isLr (run pc regs inp t).wb.instr) = true →
    ∃ a, issued pc regs inp T (births pc regs inp t).wb = [.read a]
  store : ∀ t, t < T → retireWb (run pc regs inp t) = true → Decode.isStore (run pc regs inp t).wb.instr = true →
    ∃ a, issued pc regs inp T (births pc regs inp t).wb = [.write a]
  sc : ∀ t, t < T → retireWb (run pc regs inp t) = true → Decode.isSc (run pc regs inp t).wb.instr = true →
    ((run pc regs inp t).wb.result = 0#32 → ∃ a, issued pc regs inp T (births pc regs inp t).wb = [.write a]) ∧
      ((run pc regs inp t).wb.result ≠ 0#32 → issued pc regs inp T (births pc regs inp t).wb = [])
  amo : ∀ t, t < T → retireWb (run pc regs inp t) = true → Decode.isAmoRmw (run pc regs inp t).wb.instr = true →
    ∃ a, issued pc regs inp T (births pc regs inp t).wb = [.read a, .write a]
  trapped : ∀ t, t < T → exTrap (run pc regs inp t) = true → issued pc regs inp T (births pc regs inp t).ex = []
  faulted : ∀ t, t < T → (run pc regs inp t).id.valid = true →
    ((run pc regs inp t).id.fault || (run pc regs inp t).id.pagefault) = true →
    issued pc regs inp T (births pc regs inp t).id = []
  squashed : ∀ t, t < T → ∀ r, Squashes (run pc regs inp t) (births pc regs inp t) r → issued pc regs inp T r = []

/-- Both buses go on accepting requests, and answer each one once in a later cycle. -/
structure Disciplined : Prop where
  dmem : DmemServed pc regs inp
  dmemPrompt : InOrder.Prompt (fun t => dmemAccept (run pc regs inp t) (inp t)) fun t => (inp t).dmemRspValid
  dmemReady : ∀ t, ∃ u, t ≤ u ∧ (inp u).dmemReqReady = true
  ifetch : InOrder.Serves (fun t => ifetchAccept (run pc regs inp t) (inp t)) (fun t => (inp t).ifetchRspValid)
    fun _ _ => True
  ifetchPrompt : InOrder.Prompt (fun t => ifetchAccept (run pc regs inp t) (inp t)) fun t => (inp t).ifetchRspValid
  ifetchReady : ∀ t, ∃ u, t ≤ u ∧ (inp u).ifetchReqReady = true

end Statement

variable {pc : Word} {regs : RegFile} {inp : Nat → In} {s : State} {i : In} {b : Births} {t u r now : Nat}

/-! ## Names that make no further request -/

theorem issued_from (h : YoungerWb r (run pc regs inp u) (births pc regs inp u)) (hr : r < u) (hut : u ≤ t) :
    issued pc regs inp t r = issued pc regs inp u r := by
  induction t, hut using Nat.le_induction with
  | base => rfl
  | succ t hut ih =>
      rw [issued_succ, ih, if_neg, List.append_nil]
      rintro ⟨ha, hb⟩
      have hlt := (youngerWb_from h hr hut).2 (dmemAccept_elim ha).1
      omega

/-- Instruction `r` is gone from the pipe, or it will not drive the data bus. -/
structure Inert (r : Nat) (s : State) (b : Births) : Prop where
  fetch : s.fetch.inflight = true → s.fetch.squash = false → r < b.fetch
  id : s.id.valid = true → r < b.id ∨ b.id = r ∧ (s.id.fault || s.id.pagefault) = true
  ex : s.ex.valid = true → b.ex ≠ r ∨
    (s.ex.ctrl.fetchFault || s.ex.ctrl.fetchPagefault || s.ex.ctrl.isDiv) = true
  mem : s.mem.valid = true → b.mem ≠ r ∨ s.mem.lsPending = false

theorem exTrap_of_fetchFault (hv : s.ex.valid = true)
    (hf : (s.ex.ctrl.fetchFault || s.ex.ctrl.fetchPagefault) = true) : exTrap s = true := by
  simp only [Bool.or_eq_true] at hf
  cases hq : s.ex.ctrl.irq
  · cases hp : s.ex.ctrl.fetchPagefault
    · have hf' : s.ex.ctrl.fetchFault = true := by simpa [hp] using hf
      simp [exTrap, exTrapInfo, IdEx.trapInfo, hv, hq, hp, hf']
    · simp [exTrap, exTrapInfo, IdEx.trapInfo, hv, hq, hp]
  · exact exTrap_of_irq hv hq

theorem memAdvance_lsPending_of_trap (h : exTrap s = true) : (memAdvance s).lsPending = false := by
  simp only [exTrap] at h
  simp [memAdvance, ExMem.ofEx, h]

theorem memAdvance_lsPending_of_div (hd : s.ex.Decoded) (h : s.ex.ctrl.isDiv = true) :
    (memAdvance s).lsPending = false := by
  obtain ⟨hl, hst, hlr, hsc, ha⟩ := hd.flags
  rw [hd.isDiv] at h
  obtain ⟨hl', hst', hlr', hsc', ha'⟩ := Decode.not_bus_of_isDiv h
  simp [memAdvance, ExMem.ofEx, hl, hst, hlr, hsc, ha, hl', hst', hlr', hsc', ha']

theorem inert_step (hsp : Spaced s) (h : Inert r s b) (hnow : r < now) :
    Inert r (step s i) (b.step s i now) where
  fetch hf hq := by
    rw [Births.step_fetch]
    rcases fetchNext_inflight hf with ⟨ha, -, -⟩ | ⟨ha, hin, -, -, hs⟩
    · rw [if_pos ha]; exact hnow
    · rw [if_neg (by simp [ha])]
      have hq' : (fetchNext s i).squash = false := hq
      simp only [hs, Bool.or_eq_false_iff] at hq'
      exact h.fetch hin hq'.2
  id hv := by
    show r < (if ifIdSlotFreeNext s then (if allowIrqInject s i.ext then now else b.fetch) else b.id) ∨
      (if ifIdSlotFreeNext s then (if allowIrqInject s i.ext then now else b.fetch) else b.id) = r ∧
        ((idNext s i).fault || (idNext s i).pagefault) = true
    obtain ⟨-, ⟨hid, hst, he⟩ | ⟨hfree, hirq, -⟩ | ⟨hfree, hirq, hr, -⟩⟩ := idNext_valid hv
    · rw [if_neg (by simp [ifIdSlotFreeNext, hid, hst]), he]; exact h.id hid
    · rw [if_pos hfree, if_pos hirq]; exact Or.inl hnow
    · rw [if_pos hfree, if_neg (by simp [hirq])]
      simp only [rspConsumable, rspArriving, Bool.and_eq_true, Bool.not_eq_true'] at hr
      exact Or.inl (h.fetch hr.1.1 hr.2)
  ex hv := by
    show (if stallEx s then b.ex else b.id) ≠ r ∨
      ((exNext s i).ctrl.fetchFault || (exNext s i).ctrl.fetchPagefault || (exNext s i).ctrl.isDiv) = true
    rcases exNext_valid hv with ⟨hst, hx, he⟩ | ⟨hid, -, hse, -, -, he⟩
    · rw [if_pos hst, he]; exact h.ex hx
    · rw [if_neg (by simp [hse]), he]
      rcases h.id hid with hlt | ⟨hb, hf⟩
      · exact Or.inl (by omega)
      · refine Or.inr ?_
        simp only [exAdvance, IdEx.ofId, Ctrl.ofId, hf, Bool.true_or]
  mem hv := by
    rw [step_mem, Births.step_mem]
    obtain ⟨-, ⟨hst, hm, he⟩ | ⟨hse, hx, he⟩⟩ := memNext_valid hv
    · rw [if_pos hst, he]
      rcases h.mem hm with hb | hl
      · exact Or.inl hb
      · have hr : memRspThisCycle s i = false := by simp [memRspThisCycle, hl]
        exact Or.inr (by simp [memHold, hr, hl])
    · rw [if_neg (by simp [stallMem_false_of_stallEx hse]), he]
      rcases h.ex hx with hb | hf
      · exact Or.inl hb
      · right
        rw [Bool.or_eq_true] at hf
        rcases hf with hf | hd
        · exact memAdvance_lsPending_of_trap (exTrap_of_fetchFault hx hf)
        · exact memAdvance_lsPending_of_div (hsp.ex_decoded hx) hd

theorem issued_inert (h : Inert r (run pc regs inp u) (births pc regs inp u)) (hr : r < u) (hut : u ≤ t) :
    issued pc regs inp t r = issued pc regs inp u r := by
  have hy : ∀ v, u ≤ v → Inert r (run pc regs inp v) (births pc regs inp v) := fun v hv =>
    Sync.run_invariant_from (P := fun v s => Inert r s (births pc regs inp v)) h
      (fun v hv h => inert_step (spaced_run v) h (by omega)) hv
  induction t, hut using Nat.le_induction with
  | base => rfl
  | succ t hut ih =>
      rw [issued_succ, ih, if_neg, List.append_nil]
      rintro ⟨ha, hb⟩
      obtain ⟨hv, hl, -⟩ := dmemAccept_elim ha
      rcases (hy t hut).mem hv with hne | hl'
      · exact hne hb
      · rw [hl] at hl'; simp at hl'

/-! ## What is squashed, faults or traps -/

/-- A redirect leaves nothing of what it squashes. -/
theorem inert_of_squashes (hsp : Spaced s) (ho : Ordered s b) (h : Squashes s b r) :
    Inert r (step s i) (b.step s i now) := by
  have hfl : flushId s = true := by
    rcases h with ⟨hf, -⟩ | ⟨hw, -⟩
    · exact hf
    · simp [flushId, hw]
  refine ⟨fun hf hq => ?_, fun hv => ?_, fun hv => Or.inl ?_, fun hv => Or.inl ?_⟩
  · exfalso
    rcases fetchNext_inflight hf with ⟨ha, -, -⟩ | ⟨-, -, -, -, hs⟩
    · obtain ⟨-, -, hb, hw, -⟩ := ifetchAccept_elim ha
      simp [flushId, hb, hw] at hfl
    · have hq' : (fetchNext s i).squash = false := hq
      simp [hs, hfl] at hq'
  · rw [(idNext_valid hv).1] at hfl; simp at hfl
  · rw [Births.step_ex]
    rcases exNext_valid hv with ⟨hst, hx, -⟩ | ⟨hid, -, hse, hw, -⟩
    · rw [if_pos hst]
      rcases h with ⟨-, ⟨hin, hq, rfl⟩ | ⟨hid, rfl⟩⟩ | ⟨-, ⟨-, hse, -⟩ | ⟨hm, rfl⟩⟩
      · exact Nat.ne_of_lt ((ho.ex hx).1 hin hq)
      · exact Nat.ne_of_lt ((ho.ex hx).2 hid)
      · rw [hse] at hst; simp at hst
      · exact Nat.ne_of_gt ((ho.mem hm).2 hx)
    · -- the instruction in ID stays behind a redirect in WB, and none comes from EX in front of it
      exfalso
      simp [flushId, hw, hsp.branchRedirect_of_id hid] at hfl
  · rw [Births.step_mem]
    obtain ⟨hw, hm⟩ := memNext_valid hv
    rcases h with ⟨-, hr⟩ | ⟨hw', -⟩
    · rcases hm with ⟨hst, hm, -⟩ | ⟨hse, hx, -⟩
      · rw [if_pos hst]
        have hy := (ho.mem hm).1
        rcases hr with ⟨hin, hq, rfl⟩ | ⟨hid, rfl⟩
        · exact Nat.ne_of_lt (hy.1 hin hq)
        · exact Nat.ne_of_lt (hy.2 hid)
      · rw [if_neg (by simp [stallMem_false_of_stallEx hse])]
        rcases hr with ⟨hin, hq, rfl⟩ | ⟨hid, rfl⟩
        · exact Nat.ne_of_lt ((ho.ex hx).1 hin hq)
        · exact Nat.ne_of_lt ((ho.ex hx).2 hid)
    · rw [hw] at hw'; simp at hw'

theorem inert_of_fault (hsp : Spaced s) (ho : Ordered s b) (hv : s.id.valid = true)
    (hf : (s.id.fault || s.id.pagefault) = true) : Inert b.id s b := by
  refine ⟨fun hin => ?_, fun _ => Or.inr ⟨rfl, hf⟩, fun hx => Or.inl ?_, fun hm => Or.inl ?_⟩
  · rw [hsp.fetch_id hin] at hv; simp at hv
  · exact Nat.ne_of_lt ((ho.ex hx).2 hv)
  · exact Nat.ne_of_lt ((ho.mem hm).1.2 hv)

theorem ex_valid_of_exTrap (h : exTrap s = true) : s.ex.valid = true := by
  cases hv : s.ex.valid
  · simp [exTrap, exTrapInfo, IdEx.trapInfo, hv] at h
  · rfl

theorem inert_of_trap (hsp : Spaced s) (ho : Ordered s b) (ht : exTrap s = true) (hnow : b.ex < now) :
    Inert b.ex (step s i) (b.step s i now) := by
  have hx := ex_valid_of_exTrap ht
  have hy : YoungerEx b.ex (step s i) (b.step s i now) := youngerEx_step (ho.ex hx) hnow
  refine ⟨hy.1, fun hv => Or.inl (hy.2 hv), fun hv => ?_, fun hv => ?_⟩
  · show (if stallEx s then b.ex else b.id) ≠ b.ex ∨
      ((exNext s i).ctrl.fetchFault || (exNext s i).ctrl.fetchPagefault || (exNext s i).ctrl.isDiv) = true
    rcases exNext_valid hv with ⟨hst, -, he⟩ | ⟨hid, -, hse, -⟩
    · rw [hsp.stallEx_of_ex hx] at hst
      right
      rw [he, (exDivStall_elim hst).2.1, Bool.or_true]
    · rw [if_neg (by simp [hse])]
      exact Or.inl (Nat.ne_of_gt ((ho.ex hx).2 hid))
  · right
    obtain ⟨-, ⟨hst, -, -⟩ | ⟨-, -, he⟩⟩ := memNext_valid hv
    · rw [hsp.stallMem_of_ex hx] at hst; simp at hst
    · rw [step_mem]
      rw [he]; exact memAdvance_lsPending_of_trap ht

/-! ## What retires -/

/-- The instruction in MEM leaves without a trap. -/
structure Leaves (s : State) : Prop where
  valid : s.mem.valid = true
  ready : stallMem s = false
  clean : (MemWb.ofMem s.mem s.bus).trap = false

namespace Leaves

variable (h : Leaves s) (hsp : Spaced s)

include h

theorem lsPending : s.mem.lsPending = false := by
  have hr := h.ready
  cases hl : s.mem.lsPending
  · rfl
  · simp [stallMem, memBusy, h.valid, hl] at hr

include hsp

theorem trap : s.mem.trap = false := by
  cases ht : s.mem.trap
  · rfl
  · have hc := (hsp.mem_origin h.valid).ofMem_trap s.bus ht
    rw [h.clean] at hc; simp at hc

theorem progress_load (hd : (Decode.isLoad s.mem.instr || Decode.isLr s.mem.instr) = true) :
    progress s = [.read (dmemReqAddr s)] := by
  obtain ⟨hld, hst, hlr, hsc, ha⟩ := (hsp.mem_origin h.valid).flags (h.trap hsp)
  rw [← hld, ← hlr] at hd
  have hnot : s.mem.isAmoRmw = false ∧ s.mem.isSc = false ∧ s.mem.isStore = false := by
    rw [hst, hsc, ha]
    rw [hld, hlr, Bool.or_eq_true] at hd
    rcases hd with hd | hd
    · obtain ⟨-, h₁, h₂⟩ := Decode.not_atomic_of_access (w := s.mem.instr) (by simp [hd])
      exact ⟨h₂, h₁, Decode.isStore_of_isLoad hd⟩
    · obtain ⟨h₁, h₂⟩ := Decode.of_isLr hd
      exact ⟨h₂, h₁, (Decode.of_isAmo (Decode.isAmo_of_isLr hd)).2⟩
  simp [progress, h.lsPending, hnot, hd]

theorem progress_store (hd : Decode.isStore s.mem.instr = true) : progress s = [.write (dmemReqAddr s)] := by
  obtain ⟨hld, hst, hlr, hsc, ha⟩ := (hsp.mem_origin h.valid).flags (h.trap hsp)
  obtain ⟨-, h₁, h₂⟩ := Decode.not_atomic_of_access (w := s.mem.instr) (by simp [hd])
  rw [← hst] at hd
  rw [← hsc] at h₁
  rw [← ha] at h₂
  simp [progress, h.lsPending, h₁, h₂, hd]

omit hsp in
/-- An access that leaves MEM without a trap has met no fault. -/
theorem unfaulted (hop : s.mem.hasBusOp = true) (hr : s.mem.hasResult = false) :
    s.bus.busPagefault = false ∧ s.bus.busFault = false := by
  have hclean := h.clean
  cases hp : s.bus.busPagefault
  · cases hf : s.bus.busFault
    · exact ⟨rfl, rfl⟩
    · simp [MemWb.ofMem, hop, hr, hp, hf] at hclean
  · simp [MemWb.ofMem, hop, hr, hp] at hclean

/-- The result of an SC says whether it has stored. -/
theorem sc_result (hd : s.mem.isSc = true) :
    (MemWb.ofMem s.mem s.bus).result = if s.mem.hasResult then 1#32 else 0#32 := by
  have hfrom := hsp.mem_origin h.valid
  cases hr : s.mem.hasResult
  · have hop : s.mem.hasBusOp = true := by simp [ExMem.hasBusOp, hd]
    obtain ⟨hp, hf⟩ := h.unfaulted hop hr
    have hlr : s.mem.isLr = false := by
      obtain ⟨-, -, hlr, hsc, -⟩ := hfrom.flags (h.trap hsp)
      rw [hlr]
      exact (Decode.of_isSc (hsc ▸ hd)).1
    simp [MemWb.ofMem, hop, hr, hp, hf, hlr, hd]
  · simp [MemWb.ofMem, hr, ((hfrom.sc hd).2 hr).2]

/-- A successful SC has a result of zero and has written; a failed one has not. -/
theorem progress_sc (hd : Decode.isSc s.mem.instr = true) :
    ((MemWb.ofMem s.mem s.bus).result = 0#32 → progress s = [.write (dmemReqAddr s)]) ∧
      ((MemWb.ofMem s.mem s.bus).result ≠ 0#32 → progress s = []) := by
  have hfrom := hsp.mem_origin h.valid
  obtain ⟨-, -, -, hsc, -⟩ := hfrom.flags (h.trap hsp)
  rw [← hsc] at hd
  have ha := (hfrom.sc hd).1
  rw [h.sc_result hsp hd]
  cases hr : s.mem.hasResult
  · refine ⟨fun _ => by simp [progress, h.lsPending, ha, hd, hr], fun hn => ?_⟩
    simp at hn
  · refine ⟨fun hz => ?_, fun _ => by simp [progress, ha, hd, hr]⟩
    simp at hz

/-- An AMO leaves without a trap only after its store beat: a read that faults is all it makes otherwise. -/
theorem amoPhase (hd : s.mem.isAmoRmw = true)
    (hf : s.mem.isAmoRmw = true → s.mem.lsPending = false → s.mem.amoPhase = false → s.bus.busFault = true) :
    s.mem.amoPhase = true := by
  cases hp : s.mem.amoPhase
  · have hb := hf hd h.lsPending hp
    rw [(h.unfaulted (by simp [ExMem.hasBusOp, hd]) ((hsp.mem_origin h.valid).amo hd).2.2.2.2).2] at hb
    simp at hb
  · rfl

theorem progress_amo (hd : Decode.isAmoRmw s.mem.instr = true)
    (hf : s.mem.isAmoRmw = true → s.mem.lsPending = false → s.mem.amoPhase = false → s.bus.busFault = true) :
    progress s = [.read (dmemReqAddr s), .write (dmemReqAddr s)] := by
  obtain ⟨-, -, -, -, ha⟩ := (hsp.mem_origin h.valid).flags (h.trap hsp)
  rw [← ha] at hd
  simp [progress, h.lsPending, hd, h.amoPhase hsp hd hf]

end Leaves

/-! ## Runs -/

/-- What retires in cycle `t` left MEM in the cycle before, and its requests are those it had made there. -/
theorem issued_of_retired (hmt : ∀ v, v < t → Matched pc regs inp v)
    (hr : retireWb (run pc regs inp t) = true) (htu : t ≤ u) :
    ∃ v, Leaves (run pc regs inp v) ∧ Tracked pc regs inp v ∧
      (run pc regs inp t).wb = MemWb.ofMem (run pc regs inp v).mem (run pc regs inp v).bus ∧
      issued pc regs inp u (births pc regs inp t).wb = progress (run pc regs inp v) := by
  cases t with
  | zero => simp [retireWb, run, reset] at hr
  | succ t =>
      simp only [retireWb, Bool.and_eq_true, Bool.not_eq_true'] at hr
      have htr : Tracked pc regs inp t := tracked_run fun v hv => hmt v (by omega)
      have hwb : (wbNext (run pc regs inp t)).valid = true := hr.1
      obtain ⟨-, hm, hsm, he⟩ := wbNext_valid hwb
      have hclean : (wbNext (run pc regs inp t)).trap = false := hr.2
      rw [he] at hclean
      have hleaves : Leaves (run pc regs inp t) := ⟨hm, hsm, hclean⟩
      refine ⟨t, hleaves, htr, he, ?_⟩
      have hname : (births pc regs inp (t + 1)).wb = (births pc regs inp t).mem := rfl
      have hlt := mem_birth_lt hm
      rw [issued_from ((ordered_run (t + 1)).wb hr.1) (by rw [hname]; omega) htu, hname, issued_succ, htr.mem hm,
        if_neg, List.append_nil]
      rintro ⟨ha, -⟩
      have hl := (dmemAccept_elim ha).2.1
      rw [hleaves.lsPending] at hl; simp at hl

theorem Tracked.issued_of_younger (h : Tracked pc regs inp t)
    (hy : ∀ p, p < t → YoungerMem p (run pc regs inp t) (births pc regs inp t) → p < r) :
    issued pc regs inp (t + 1) r = [] := by
  refine issued_of_behind fun q hq => ?_
  obtain ⟨hlt, hq', -⟩ := h.taken q hq
  have hr := hy q.1 hlt hq'
  omega

theorem exactlyOnce_of_calm (hbus : DmemServed pc regs inp) (hcalm : ∀ v, v < u → Calm pc regs inp v) :
    ExactlyOnce pc regs inp u := by
  have hmt : ∀ v, v < u → Matched pc regs inp v := fun v hv => matched_of_calm hbus fun w hw => hcalm w (by omega)
  have htr : ∀ t, t < u → Tracked pc regs inp t := fun t ht => tracked_run fun v hv => hmt v (by omega)
  have hret : ∀ t, t < u → retireWb (run pc regs inp t) = true → ∃ v, Leaves (run pc regs inp v) ∧
      Tracked pc regs inp v ∧
      (run pc regs inp t).wb = MemWb.ofMem (run pc regs inp v).mem (run pc regs inp v).bus ∧
      issued pc regs inp u (births pc regs inp t).wb = progress (run pc regs inp v) := fun t ht hr =>
    issued_of_retired (fun v hv => hmt v (by omega)) hr (by omega)
  constructor
  case load =>
    intro t ht hr hd
    obtain ⟨v, hl, -, hwb, hi⟩ := hret t ht hr
    rw [hwb, ofMem_instr] at hd
    exact ⟨_, hi.trans (hl.progress_load (spaced_run v) hd)⟩
  case store =>
    intro t ht hr hd
    obtain ⟨v, hl, -, hwb, hi⟩ := hret t ht hr
    rw [hwb, ofMem_instr] at hd
    exact ⟨_, hi.trans (hl.progress_store (spaced_run v) hd)⟩
  case sc =>
    intro t ht hr hd
    obtain ⟨v, hl, -, hwb, hi⟩ := hret t ht hr
    rw [hwb, ofMem_instr] at hd
    obtain ⟨hok, hmiss⟩ := hl.progress_sc (spaced_run v) hd
    rw [hwb]
    exact ⟨fun hz => ⟨_, hi.trans (hok hz)⟩, fun hn => hi.trans (hmiss hn)⟩
  case amo =>
    intro t ht hr hd
    obtain ⟨v, hl, hv, hwb, hi⟩ := hret t ht hr
    rw [hwb, ofMem_instr] at hd
    exact ⟨_, hi.trans (hl.progress_amo (spaced_run v) hd (hv.faulted hl.valid))⟩
  case trapped =>
    intro t ht hx
    have hv := ex_valid_of_exTrap hx
    have hlt : (births pc regs inp t).ex < t := by
      cases t with
      | zero => simp [run, reset] at hv
      | succ t => have := @births_succ_le pc regs inp t; omega
    rw [issued_inert (inert_of_trap (spaced_run t) (ordered_run t) hx hlt : Inert _ (run pc regs inp (t + 1)) _)
      (by omega) (by omega : t + 1 ≤ u)]
    exact (htr t ht).issued_of_younger fun p _ hy => hy.2 hv
  case faulted =>
    intro t ht hv hf
    have hlt : (births pc regs inp t).id < t := by
      cases t with
      | zero => simp [run, reset] at hv
      | succ t => have := @births_succ_le pc regs inp t; omega
    rw [issued_inert (inert_of_fault (spaced_run t) (ordered_run t) hv hf) hlt (by omega : t ≤ u)]
    exact issued_of_behind fun q hq => Nat.ne_of_lt (((htr t ht).behind q hq).2.1.1.2 hv)
  case squashed =>
    intro t ht r hs
    have hle := @births_le pc regs inp t
    have hlt : r < t + 1 := by
      rcases hs with ⟨-, ⟨-, -, rfl⟩ | ⟨-, rfl⟩⟩ | ⟨-, ⟨-, -, rfl⟩ | ⟨-, rfl⟩⟩ <;> omega
    have hin : Inert r (run pc regs inp (t + 1)) (births pc regs inp (t + 1)) :=
      inert_of_squashes (spaced_run t) (ordered_run t) hs
    rw [issued_inert hin hlt (by omega : t + 1 ≤ u)]
    rcases hs with ⟨-, ⟨hf, hq, rfl⟩ | ⟨hid, rfl⟩⟩ | ⟨hw, ⟨hx, -, rfl⟩ | ⟨hm, rfl⟩⟩
    · exact (htr t ht).issued_of_younger fun p _ hy => hy.1.1 hf hq
    · exact (htr t ht).issued_of_younger fun p _ hy => hy.1.2 hid
    · exact (htr t ht).issued_of_younger fun p _ hy => hy.2 hx
    · -- it has just come into MEM, and no beat crosses the redirect
      rw [issued_succ, (htr t ht).mem hm, (htr t ht).fresh hm (wb_valid_of_wbRedirect hw), if_neg, List.append_nil]
      rintro ⟨ha, -⟩
      rw [dmemAccept_of_calm (hcalm t ht) hw] at ha; simp at ha

/-- A beat that crosses a redirect is issued by an instruction that the redirect squashes. -/
theorem calm_of_exactlyOnce (h : ExactlyOnce pc regs inp u) (ht : t < u) : Calm pc regs inp t := by
  intro hw hb
  cases hr : (inp t).dmemReqReady
  · rfl
  · exfalso
    have hreq := (spaced_run t).dmemReqValid_behind_wb (wb_valid_of_wbRedirect hw) hb
    have ha : dmemAccept (run pc regs inp t) (inp t) = true := by simp [dmemAccept, hreq, hr]
    have hm := (dmemAccept_elim ha).1
    have hnone := h.squashed t ht _ (Or.inr ⟨hw, Or.inr ⟨hm, rfl⟩⟩)
    have hsome : dmemBeat (run pc regs inp t) ∈ issued pc regs inp u (births pc regs inp t).mem := by
      have hreq : ((births pc regs inp t).mem, dmemBeat (run pc regs inp t)) ∈ requests pc regs inp u := by
        clear hnone h
        induction u, Nat.succ_le_of_lt ht using Nat.le_induction with
        | base => simp [requests, ha]
        | succ u hu ih => exact List.mem_append_left _ (ih (by omega))
      simp only [issued, List.mem_map, List.mem_filter]
      exact ⟨_, ⟨hreq, by simp⟩, rfl⟩
    rw [hnone] at hsome
    simp at hsome

/-- Every data access is made exactly once, and none by an instruction that does not get to MEM alive, exactly when
no redirect in WB crosses the beat of an instruction in MEM. -/
theorem exactlyOnce_iff (pc : Word) (regs : RegFile) (inp : Nat → In) (hbus : DmemServed pc regs inp) (T : Nat) :
    ExactlyOnce pc regs inp T ↔ ∀ t, t < T → Calm pc regs inp t :=
  ⟨fun h _ ht => calm_of_exactlyOnce h ht, fun h => exactlyOnce_of_calm hbus h⟩

/-! ## A bus that answers in the next cycle -/

section Loop

-- the words that the fetch bus answers with, and which of them fault
variable (word : Word → Word) (fault : Word → Bool)

/-- The inputs of a core whose requests were accepted, or not, in the cycle before. -/
def loopIn (s : State) (fetches loads : Bool) : In :=
  { In.quiet with
    ifetchReqReady := true
    ifetchRspValid := fetches
    ifetchRspData := word s.fetch.inflightPc
    ifetchRspFault := fault s.fetch.inflightPc
    dmemReqReady := true
    dmemRspValid := loads }

/-- The core between two buses that accept every request at once and answer it in the next cycle. -/
def loop : Nat → State × Bool × Bool
  | 0 => (reset RESET_PC fun _ => 0, false, false)
  | t + 1 =>
      let (s, fetches, loads) := loop t
      let i := loopIn word fault s fetches loads
      (step s i, ifetchAccept s i, dmemAccept s i)

def loopInp (t : Nat) : In :=
  let (s, fetches, loads) := loop word fault t
  loopIn word fault s fetches loads

theorem run_loop (t : Nat) : run RESET_PC (fun _ => 0) (loopInp word fault) t = (loop word fault t).1 := by
  induction t with
  | zero => rfl
  | succ t ih =>
      show step (run RESET_PC (fun _ => 0) (loopInp word fault) t) (loopInp word fault t) = _
      rw [ih]
      rfl

theorem loop_disciplined : Disciplined RESET_PC (fun _ => 0) (loopInp word fault) := by
  have hd : ∀ t, (loopInp word fault (t + 1)).dmemRspValid =
      dmemAccept (run RESET_PC (fun _ => 0) (loopInp word fault) t) (loopInp word fault t) := by
    intro t
    rw [run_loop]
    rfl
  have hf : ∀ t, (loopInp word fault (t + 1)).ifetchRspValid =
      ifetchAccept (run RESET_PC (fun _ => 0) (loopInp word fault) t) (loopInp word fault t) := by
    intro t
    rw [run_loop]
    rfl
  have h₀ : ∀ t, t < 1 →
      (loopInp word fault t).dmemRspValid = false ∧ (loopInp word fault t).ifetchRspValid = false := by
    intro t ht
    obtain rfl : t = 0 := by omega
    exact ⟨rfl, rfl⟩
  exact {
    dmem := InOrder.serves_of_lag (fun t ht => (h₀ t ht).1) hd Nat.one_pos fun _ _ => trivial
    dmemPrompt := InOrder.prompt_of_lag (fun t ht => (h₀ t ht).1) hd Nat.one_pos
    dmemReady := fun t => ⟨t, le_refl t, rfl⟩
    ifetch := InOrder.serves_of_lag (fun t ht => (h₀ t ht).2) hf Nat.one_pos fun _ _ => trivial
    ifetchPrompt := InOrder.prompt_of_lag (fun t ht => (h₀ t ht).2) hf Nat.one_pos
    ifetchReady := fun t => ⟨t, le_refl t, rfl⟩ }

end Loop

/-- A run of `amoadd.w x3, x2, (x1)`. -/
theorem exactlyOnce_amo : ExactlyOnce RESET_PC (fun _ => 0) (loopInp (fun _ => 0x0020A1AF#32) fun _ => false) 12 := by
  refine (exactlyOnce_iff RESET_PC _ _ (loop_disciplined _ _).dmem 12).mpr ?_
  simp only [Calm, run_loop]
  decide +kernel

/-- A faulted fetch of `div x3, x1, x2` with `lw x5, 0(x0)` behind it: the load is in MEM, and its request is taken,
in cycle 8, the cycle of the redirect that squashes it. -/
theorem not_exactlyOnce : ¬ ∀ pc regs inp, Disciplined pc regs inp → ∀ T, ExactlyOnce pc regs inp T := by
  intro h
  let word : Word → Word := fun a => if a = RESET_PC then 0x0220C1B3#32 else 0x00002283#32
  have hcalm := calm_of_exactlyOnce
    (h RESET_PC (fun _ => 0) (loopInp word (· == RESET_PC)) (loop_disciplined _ _) 9) (by decide : 8 < 9)
  simp only [Calm, run_loop] at hcalm
  revert hcalm
  decide +kernel

end QinglongCore.CorePipeline
