import QinglongCore.Pipeline.Refinement

/-!
# The requests of a pipeline on track

It fetches at most two words behind the pc of the oldest instruction behind MEM, and asks for the accesses of the
instruction in MEM.
-/

namespace QinglongCore.CorePipeline

open Isa (Arch Shown)

variable {mem₀ : Word → Word} {c : Nat → Shown} {inp : Nat → In} {t : Nat} {s : State} {u : Uses} {A : Arch}
  {K n : Nat} {pc : Word} {regs : RegFile}

/-- The fetch pc runs ahead of EX by at most a word. -/
theorem Straight.fetch_afterEx (h : Straight mem₀ c inp t s u) {e : Ext} (hv : ifetchReqValid s e = true) :
    s.fetch.pc = afterEx s ∨ s.fetch.pc = afterEx s + 4 := by
  have hin : s.fetch.inflight = false := by
    simp only [ifetchReqValid, ifCanIssue, Bool.and_eq_true, Bool.not_eq_true'] at hv
    exact hv.1.1.1.1.1
  unfold afterEx
  cases hid : s.id.valid
  · simp [hin]
  · exact .inr (h.chained.id hid h.irq.1)

theorem Straight.fetch_afterMem (h : Straight mem₀ c inp t s u) {e : Ext} (hv : ifetchReqValid s e = true) :
    s.fetch.pc = afterMem s ∨ s.fetch.pc = afterMem s + 4 ∨ s.fetch.pc = afterMem s + 8 := by
  have hf := h.fetch_afterEx hv
  unfold afterMem
  cases hx : s.ex.valid
  · exact hf.imp_right .inl
  · have he := h.chained.ex hx (h.irq.2 hx)
    rw [he, BitVec.add_assoc] at hf
    exact .inr hf

/-- The word fetched is the one at the pc of an instruction of the run, or one of the two behind it. -/
theorem OnTrack.fetch_ahead (h : OnTrack mem₀ pc regs inp K n t) (hm : behind n (run pc regs inp t) < K) {e : Ext}
    (hv : ifetchReqValid (run pc regs inp t) e = true) : ∃ j, j ≤ K ∧
      ((run pc regs inp t).fetch.pc = (Arch.run mem₀ ⟨pc, regs, none, []⟩ j).pc ∨
        (run pc regs inp t).fetch.pc = (Arch.run mem₀ ⟨pc, regs, none, []⟩ j).pc + 4 ∨
          (run pc regs inp t).fetch.pc = (Arch.run mem₀ ⟨pc, regs, none, []⟩ j).pc + 8) := by
  refine ⟨behindMem n (run pc regs inp t), ?_, ?_⟩
  · unfold behindMem
    split <;> omega
  · rw [← h.follows.afterMem h.straight hm]
    exact h.straight.fetch_afterMem hv

/-- An access on the data bus is one of the instruction in MEM. -/
theorem OnTrack.access_made (h : OnTrack mem₀ pc regs inp K n t) (hm : behind n (run pc regs inp t) < K)
    {a : Isa.Access} (ha : (shown pc regs inp t).access = some a) :
    a ∈ (Arch.run mem₀ ⟨pc, regs, none, []⟩ (behind n (run pc regs inp t))).makes mem₀
      ((Arch.run mem₀ ⟨pc, regs, none, []⟩ (behind n (run pc regs inp t))).insn mem₀) := by
  unfold shown shows at ha
  dsimp only at ha
  split_ifs at ha with hacc
  cases ha
  simp only [dmemAccept, dmemReqValid, Bool.and_eq_true] at hacc
  have hp := h.follows.mem hacc.1.1.1.1 hm
  exact List.mem_of_getElem? (request_isa hp.entered hacc.1.1.2 hp.old)

/-- Up to the first cycle in which the instruction after `k` others is in WB, no later one is. -/
theorem onTrack_until (hs : Isa.Served (shown pc regs inp) mem₀ inp)
    (hk : Steady mem₀ ⟨pc, regs, none, []⟩ K) {T : Nat} (hT : ∀ t, t < T → ∀ j, j + 1 = K →
      OnTrack mem₀ pc regs inp K j t → (run pc regs inp t).wb.valid = false) (hpos : 0 < K) :
    ∀ t, t ≤ T → ∃ j, j < K ∧ OnTrack mem₀ pc regs inp K j t ∧ (t < T → behind j (run pc regs inp t) < K) := by
  have hstays : ∀ j t, j < K → OnTrack mem₀ pc regs inp K j t → t < T → behind j (run pc regs inp t) < K := by
    intro j t hj ht hlt
    unfold behind
    by_cases he : j + 1 = K
    · rw [hT t hlt j he ht]
      exact hj
    · split <;> omega
  intro t
  induction t with
  | zero => exact fun _ => ⟨0, hpos, onTrack_zero, hstays 0 0 hpos onTrack_zero⟩
  | succ t ih =>
      intro ht
      obtain ⟨j, hj, htr, hb⟩ := ih (by omega)
      have hb' := hb (by omega)
      have hnext := htr.step hs hk hj hb'
      exact ⟨_, hb', hnext, hstays _ _ hb' hnext⟩

end QinglongCore.CorePipeline
