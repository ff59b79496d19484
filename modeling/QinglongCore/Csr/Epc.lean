import QinglongCore.Csr.Lemmas.Edges
import QinglongCore.Isa.Alignment

/-!
# The exception program counters

`mepc` and `sepc` hold aligned addresses as long as every trap is taken at one: a write by software clears the two low
bits, a trap stores its pc as it is.
-/

namespace QinglongCore.Csr

open Isa (Aligned aligned_zero aligned_alignWord)

structure EpcAligned (s : State) : Prop where
  mepc : Aligned s.mepc
  sepc : Aligned s.sepc

variable {s : State} {e : Ext} {i : In}

theorem epcAligned_reset : EpcAligned reset := ⟨aligned_zero, aligned_zero⟩

theorem EpcAligned.tick (h : EpcAligned s) : EpcAligned (tick s e i) := ⟨h.mepc, h.sepc⟩

theorem writeMux_mepc (s : State) (a : BitVec 12) (v : Word) :
    (writeMux s a v).mepc = if a = CSR_MEPC then alignWord v else s.mepc := by
  by_cases ha : a = CSR_MEPC
  · subst ha
    rfl
  unfold writeMux
  rw [if_neg ha, if_neg ha]
  iterate 22 refine mux_kept State.mepc rfl ?_
  split <;> rfl

theorem writeMux_sepc (s : State) (a : BitVec 12) (v : Word) :
    (writeMux s a v).sepc = if a = CSR_SEPC then alignWord v else s.sepc := by
  by_cases ha : a = CSR_SEPC
  · subst ha
    rfl
  unfold writeMux
  rw [if_neg ha, if_neg ha]
  iterate 22 refine mux_kept State.sepc rfl ?_
  split <;> rfl

theorem EpcAligned.writeMux (h : EpcAligned s) (a : BitVec 12) (v : Word) : EpcAligned (writeMux s a v) := by
  constructor
  · rw [writeMux_mepc]
    split
    · exact aligned_alignWord v
    · exact h.mepc
  · rw [writeMux_sepc]
    split
    · exact aligned_alignWord v
    · exact h.sepc

theorem EpcAligned.step (h : EpcAligned s) (hpc : i.trapTake = true → Aligned i.trapPc) :
    EpcAligned (step s e i) := by
  have ht : EpcAligned (Csr.tick s e i) := h.tick
  rcases step_cases s e i with ⟨hk, -, hs⟩ | ⟨hk, -, hs⟩ | ⟨-, hs⟩ | ⟨-, hs⟩ | ⟨-, hs⟩ | ⟨-, -, -, -, hs⟩
  · rw [hs]
    exact ⟨ht.mepc, hpc hk⟩
  · rw [hs]
    exact ⟨hpc hk, ht.sepc⟩
  · rw [hs]
    exact ⟨ht.mepc, ht.sepc⟩
  · rw [hs]
    exact ⟨ht.mepc, ht.sepc⟩
  · rw [hs]
    exact ht.writeMux _ _
  · rw [hs]
    exact ht

end QinglongCore.Csr
