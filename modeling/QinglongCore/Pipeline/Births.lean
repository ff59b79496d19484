import QinglongCore.Pipeline.Lemmas.Order

/-!
# Which instruction sits in which stage

An instruction is named by the cycle in which it entered the pipeline: the cycle in which the bus
accepted its fetch, or the cycle in which its interrupt was injected. `Births` carries these names along
the stage registers; it reads the core and never feeds back into it.
-/

namespace QinglongCore.CorePipeline

/-- The cycle in which the instruction in each stage register entered the pipeline. -/
structure Births where
  fetch : Nat
  id : Nat
  ex : Nat
  mem : Nat
  wb : Nat

/-- The names move as the registers of `step` do. -/
def Births.step (b : Births) (s : State) (i : In) (now : Nat) : Births where
  fetch := if ifetchAccept s i then now else b.fetch
  id := if ifIdSlotFreeNext s then (if allowIrqInject s i.ext then now else b.fetch) else b.id
  ex := if stallEx s then b.ex else b.id
  mem := if stallMem s then b.mem else b.ex
  wb := b.mem

section Run

variable (pc : Word) (regs : RegFile) (inp : Nat → In)

def births : Nat → Births
  | 0 => ⟨0, 0, 0, 0, 0⟩
  | t + 1 => (births t).step (run pc regs inp t) (inp t) t

end Run

variable {s : State} {i : In} {e : Ext} {b : Births} {now r : Nat}

theorem Births.step_fetch : (b.step s i now).fetch = if ifetchAccept s i then now else b.fetch := rfl
theorem Births.step_id : (b.step s i now).id =
    if ifIdSlotFreeNext s then (if allowIrqInject s i.ext then now else b.fetch) else b.id := rfl
theorem Births.step_ex : (b.step s i now).ex = if stallEx s then b.ex else b.id := rfl
theorem Births.step_mem : (b.step s i now).mem = if stallMem s then b.mem else b.ex := rfl

/-! ## Age in the pipe -/

/-- The live instructions behind EX are younger than `r`. -/
def YoungerEx (r : Nat) (s : State) (b : Births) : Prop :=
  (s.fetch.inflight = true → s.fetch.squash = false → r < b.fetch) ∧ (s.id.valid = true → r < b.id)

/-- The live instructions behind MEM are younger than `r`. -/
def YoungerMem (r : Nat) (s : State) (b : Births) : Prop :=
  YoungerEx r s b ∧ (s.ex.valid = true → r < b.ex)

/-- The live instructions behind WB are younger than `r`. -/
def YoungerWb (r : Nat) (s : State) (b : Births) : Prop :=
  YoungerMem r s b ∧ (s.mem.valid = true → r < b.mem)

/-- Older instructions are further down the pipe. -/
structure Ordered (s : State) (b : Births) : Prop where
  ex : s.ex.valid = true → YoungerEx b.ex s b
  mem : s.mem.valid = true → YoungerMem b.mem s b
  wb : s.wb.valid = true → YoungerWb b.wb s b

theorem youngerEx_step (h : YoungerEx r s b) (hnow : r < now) : YoungerEx r (step s i) (b.step s i now) := by
  refine ⟨fun hf hq => ?_, fun hv => ?_⟩
  · rw [Births.step_fetch]
    rcases fetchNext_inflight hf with ⟨ha, -, -⟩ | ⟨ha, hin, -, -, hs⟩
    · rw [if_pos ha]; exact hnow
    · rw [if_neg (by simp [ha])]
      have hq' : (fetchNext s i).squash = false := hq
      simp only [hs, Bool.or_eq_false_iff] at hq'
      exact h.1 hin hq'.2
  · rw [Births.step_id]
    obtain ⟨-, ⟨hid, hst, -⟩ | ⟨hfree, hirq, -⟩ | ⟨hfree, hirq, hr, -⟩⟩ := idNext_valid hv
    · rw [if_neg (by simp [ifIdSlotFreeNext, hid, hst])]; exact h.2 hid
    · rw [if_pos hfree, if_pos hirq]; exact hnow
    · rw [if_pos hfree, if_neg (by simp [hirq])]
      simp only [rspConsumable, rspArriving, Bool.and_eq_true, Bool.not_eq_true'] at hr
      exact h.1 hr.1.1 hr.2

theorem youngerMem_step (h : YoungerMem r s b) (hnow : r < now) : YoungerMem r (step s i) (b.step s i now) := by
  refine ⟨youngerEx_step h.1 hnow, fun hv => ?_⟩
  rw [Births.step_ex]
  rcases exNext_valid hv with ⟨hst, hx, -⟩ | ⟨hid, -, hse, -⟩
  · rw [if_pos hst]; exact h.2 hx
  · rw [if_neg (by simp [hse])]; exact h.1.2 hid

theorem youngerWb_step (h : YoungerWb r s b) (hnow : r < now) : YoungerWb r (step s i) (b.step s i now) := by
  refine ⟨youngerMem_step h.1 hnow, fun hv => ?_⟩
  rw [Births.step_mem]
  obtain ⟨-, ⟨hst, hm, -⟩ | ⟨hse, hx, -⟩⟩ := memNext_valid hv
  · rw [if_pos hst]; exact h.2 hm
  · rw [if_neg (by simp [stallMem_false_of_stallEx hse])]; exact h.1.2 hx

/-! ## Younger than a cycle -/

/-- Whatever is still to retire entered the pipeline after cycle `r`. -/
def Younger (r : Nat) (s : State) (b : Births) : Prop := YoungerWb r s b ∧ (s.wb.valid = true → r < b.wb)

theorem younger_step (h : Younger r s b) (hnow : r < now) (i : In) :
    Younger r (step s i) (b.step s i now) :=
  ⟨youngerWb_step h.1 hnow, fun hv => h.1.2 (wbNext_valid hv).2.1⟩

theorem Drained.younger (h : Drained s) : Younger r s b :=
  ⟨⟨⟨⟨fun hf hq => by simp [h.fetch hf] at hq, fun hv => by simp [h.id] at hv⟩,
    fun hv => by simp [h.ex] at hv⟩, fun hv => by simp [h.mem] at hv⟩, fun hv => by simp [h.wb] at hv⟩

/-- After its retirement only younger instructions are left. -/
theorem Ordered.younger (h : Ordered s b) (hv : s.wb.valid = true) (hnow : b.wb < now) :
    Younger b.wb (step s i) (b.step s i now) :=
  ⟨youngerWb_step (h.wb hv) hnow, fun hv' => (h.wb hv).2 (wbNext_valid hv').2.1⟩

theorem ordered_step (hsp : Spaced s) (h : Ordered s b) (i : In)
    (hnow : (s.id.valid = true → b.id < now) ∧ (s.ex.valid = true → b.ex < now) ∧
      (s.mem.valid = true → b.mem < now)) : Ordered (step s i) (b.step s i now) where
  ex hv := by
    rw [Births.step_ex]
    rcases exNext_valid hv with ⟨hst, hx, -⟩ | ⟨hid, hs, hse, -, hirq, -⟩
    · rw [if_pos hst]; exact youngerEx_step (h.ex hx) (hnow.2.1 hx)
    · rw [if_neg (by simp [hse])]
      have hin : s.fetch.inflight = false := by
        cases hin : s.fetch.inflight
        · rfl
        · rw [hsp.fetch_id hin] at hid; simp at hid
      refine ⟨fun hf hq => ?_, fun hv' => ?_⟩
      · rw [Births.step_fetch]
        rcases fetchNext_inflight hf with ⟨ha, -, -⟩ | ⟨-, hin', -⟩
        · rw [if_pos ha]; exact hnow.1 hid
        · rw [hin] at hin'; simp at hin'
      · have hv'' : (idNext s i).valid = true := hv'
        rw [hsp.idNext_of_advance hid hs hirq] at hv''; simp at hv''
  mem hv := by
    rw [Births.step_mem]
    obtain ⟨-, ⟨hst, hm, -⟩ | ⟨hse, hx, -⟩⟩ := memNext_valid hv
    · rw [if_pos hst]; exact youngerMem_step (h.mem hm) (hnow.2.2 hm)
    · rw [if_neg (by simp [stallMem_false_of_stallEx hse])]
      refine ⟨youngerEx_step (h.ex hx) (hnow.2.1 hx), fun hv' => ?_⟩
      rw [Births.step_ex]
      rcases exNext_valid hv' with ⟨hst, -⟩ | ⟨hid, -, hse', -⟩
      · rw [hse] at hst; simp at hst
      · rw [if_neg (by simp [hse'])]; exact (h.ex hx).2 hid
  wb hv := by
    show YoungerWb b.mem _ _
    obtain ⟨-, hm, hsm, -⟩ := wbNext_valid hv
    refine ⟨youngerMem_step (h.mem hm) (hnow.2.2 hm), fun hv' => ?_⟩
    rw [Births.step_mem]
    obtain ⟨-, ⟨hst, -⟩ | ⟨-, hx, -⟩⟩ := memNext_valid hv'
    · rw [hsm] at hst; simp at hst
    · rw [if_neg (by simp [hsm])]; exact (h.mem hm).2 hx

/-! ## Runs -/

variable {pc : Word} {regs : RegFile} {inp : Nat → In} {t u v : Nat}

/-- Every instruction has entered the pipe by the cycle in which it is seen. -/
theorem births_le (t : Nat) : (births pc regs inp t).fetch ≤ t ∧ (births pc regs inp t).id ≤ t ∧
    (births pc regs inp t).ex ≤ t ∧ (births pc regs inp t).mem ≤ t ∧ (births pc regs inp t).wb ≤ t := by
  induction t with
  | zero => simp [births]
  | succ t ih =>
      simp only [births, Births.step]
      refine ⟨?_, ?_, ?_, ?_, ?_⟩ <;> (try split_ifs) <;> omega

theorem births_succ_le (t : Nat) : (births pc regs inp (t + 1)).id ≤ t ∧
    (births pc regs inp (t + 1)).ex ≤ t ∧ (births pc regs inp (t + 1)).mem ≤ t ∧
    (births pc regs inp (t + 1)).wb ≤ t := by
  have h := @births_le pc regs inp t
  simp only [births, Births.step]
  refine ⟨?_, ?_, ?_, ?_⟩ <;> (try split_ifs) <;> omega

theorem ordered_run (t : Nat) : Ordered (run pc regs inp t) (births pc regs inp t) := by
  induction t with
  | zero => constructor <;> simp [run, reset]
  | succ t ih =>
      refine ordered_step (spaced_run t) ih (inp t) ?_
      cases t with
      | zero => simp [run, reset]
      | succ t =>
          have h := @births_succ_le pc regs inp t
          exact ⟨fun _ => by omega, fun _ => by omega, fun _ => by omega⟩

theorem younger_from (h₀ : Younger r (run pc regs inp t) (births pc regs inp t)) (hr : r < t) (htu : t ≤ u) :
    Younger r (run pc regs inp u) (births pc regs inp u) :=
  Sync.run_invariant_from (P := fun t s => Younger r s (births pc regs inp t)) h₀
    (fun v hv h => younger_step h (by omega) _) htu

theorem youngerWb_from (h₀ : YoungerWb r (run pc regs inp t) (births pc regs inp t)) (hr : r < t) (htu : t ≤ u) :
    YoungerWb r (run pc regs inp u) (births pc regs inp u) :=
  Sync.run_invariant_from (P := fun t s => YoungerWb r s (births pc regs inp t)) h₀
    (fun v hv h => youngerWb_step h (by omega)) htu

/-- Instructions retire in the order in which they entered the pipe, each once. -/
theorem births_retire_lt (huv : u < v) (hu : (run pc regs inp u).wb.valid = true)
    (hv : (run pc regs inp v).wb.valid = true) : (births pc regs inp u).wb < (births pc regs inp v).wb := by
  have hlt : (births pc regs inp u).wb < u := by
    cases u with
    | zero => simp [run, reset] at hu
    | succ u => have := @births_succ_le pc regs inp u; omega
  have h₀ : Younger (births pc regs inp u).wb (run pc regs inp (u + 1)) (births pc regs inp (u + 1)) :=
    (ordered_run u).younger hu hlt
  exact (younger_from h₀ (by omega) huv).2 hv

end QinglongCore.CorePipeline
