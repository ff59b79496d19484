import Mathlib.Tactic.Common
import QinglongCore.Rtl.Defs

/-!
# Memory as the sequence of its stores

A memory of words, keyed by aligned address, that a sequence of byte-masked stores has been applied to.
-/

namespace QinglongCore.Isa

structure Store where
  addr : Word
  data : Word
  mask : BitVec 4
  deriving DecidableEq

/-- The contents after the stores of `log`, the newest first. -/
def written (mem₀ : Word → Word) : List Store → Word → Word
  | [], a => mem₀ a
  | st :: log, a => if a = st.addr then mergeBytes (written mem₀ log a) st.data st.mask else written mem₀ log a

def byteOf (x : Word) (b : Fin 4) : BitVec 8 := x.extractLsb' (8 * b.val) 8

/-- The newest value stored in byte `b` of the word at `a`, or the initial one. -/
def latestByte (mem₀ : Word → Word) : List Store → Word → Fin 4 → BitVec 8
  | [], a, b => byteOf (mem₀ a) b
  | st :: log, a, b => if a = st.addr ∧ st.mask.getLsbD b.val = true then byteOf st.data b else latestByte mem₀ log a b

variable {mem₀ : Word → Word} {log : List Store} {st : Store} {a : Word}

theorem written_self : written mem₀ (st :: log) st.addr = mergeBytes (written mem₀ log st.addr) st.data st.mask := by
  simp [written]

theorem written_other (h : a ≠ st.addr) : written mem₀ (st :: log) a = written mem₀ log a := by
  simp [written, h]

/-- Byte `b` of four bytes put together. -/
theorem byteOf_append (p : Fin 4 → BitVec 8) (b : Fin 4) : byteOf (p 3 ++ p 2 ++ p 1 ++ p 0) b = p b := by
  have h₁ : byteOf (p 3 ++ p 2 ++ p 1 ++ p 0) 1 = (p 3 ++ p 2 ++ p 1).extractLsb' 0 8 :=
    BitVec.extractLsb'_append_eq_of_le (by decide)
  have h₂ : byteOf (p 3 ++ p 2 ++ p 1 ++ p 0) 2 = (p 3 ++ p 2 ++ p 1).extractLsb' 8 8 :=
    BitVec.extractLsb'_append_eq_of_le (by decide)
  have h₃ : byteOf (p 3 ++ p 2 ++ p 1 ++ p 0) 3 = (p 3 ++ p 2 ++ p 1).extractLsb' 16 8 :=
    BitVec.extractLsb'_append_eq_of_le (by decide)
  match b with
  | 0 => exact BitVec.extractLsb'_append_eq_right
  | 1 => exact h₁.trans BitVec.extractLsb'_append_eq_right
  | 2 =>
      apply h₂.trans
      exact (BitVec.extractLsb'_append_eq_of_le (by decide)).trans BitVec.extractLsb'_append_eq_right
  | 3 =>
      apply h₃.trans
      exact (BitVec.extractLsb'_append_eq_of_le (by decide)).trans BitVec.extractLsb'_append_eq_left

theorem byteOf_mergeBytes (old new : Word) (mask : BitVec 4) (b : Fin 4) :
    byteOf (mergeBytes old new mask) b = if mask.getLsbD b.val then byteOf new b else byteOf old b :=
  byteOf_append (fun b => if mask.getLsbD b.val then byteOf new b else byteOf old b) b

theorem byteOf_written (b : Fin 4) : byteOf (written mem₀ log a) b = latestByte mem₀ log a b := by
  induction log with
  | nil => rfl
  | cons st log ih =>
      unfold latestByte written
      split_ifs with ha hb hb
      · rw [byteOf_mergeBytes, if_pos hb.2]
      · have hm : st.mask.getLsbD b.val = false := by simpa [ha] using hb
        rw [byteOf_mergeBytes, hm]
        exact ih
      · exact absurd hb.1 ha
      · exact ih

end QinglongCore.Isa
