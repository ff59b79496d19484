import Mathlib.Tactic.Common

/-!
# Sequences of writes

A memory is a function of its keys; the last write to a key counts.
-/

namespace Writes

variable {κ α : Type} [DecidableEq κ] {mem : κ → α} {k : κ} {v : α} {ws ws' : List (κ × α)} {P : α → Prop}

/-- One write. -/
def put (mem : κ → α) (w : κ × α) : κ → α := fun k => if k = w.1 then w.2 else mem k

/-- The memory after the writes, in order. -/
def apply (mem : κ → α) (ws : List (κ × α)) : κ → α := ws.foldl put mem

theorem apply_append (mem : κ → α) (ws ws' : List (κ × α)) : apply mem (ws ++ ws') = apply (apply mem ws) ws' :=
  List.foldl_append

theorem apply_cons (mem : κ → α) (w : κ × α) (ws : List (κ × α)) : apply mem (w :: ws) = apply (put mem w) ws := rfl

/-- What holds of the old contents of a key and of everything written to it holds of its contents. -/
theorem apply_induct (hmem : P (mem k)) (h : ∀ w ∈ ws, w.1 = k → P w.2) : P (apply mem ws k) := by
  induction ws generalizing mem with
  | nil => exact hmem
  | cons w ws ih =>
    rw [apply_cons]
    refine ih ?_ fun w' hw' => h w' (List.mem_cons_of_mem w hw')
    unfold put
    split
    next he => exact h w List.mem_cons_self he.symm
    next => exact hmem

/-- After a write to a key its old contents do not matter. -/
theorem apply_after (hv : P v) (h : ∀ w ∈ ws', w.1 = k → P w.2) : P (apply mem (ws ++ (k, v) :: ws') k) := by
  rw [apply_append, apply_cons]
  refine apply_induct ?_ h
  simpa [put] using hv

/-- The same when every write to the key will do. -/
theorem apply_of_mem {w : κ × α} (hw : w ∈ ws) (hk : w.1 = k) (h : ∀ w ∈ ws, w.1 = k → P w.2) :
    P (apply mem ws k) := by
  obtain ⟨before, after, rfl⟩ := List.append_of_mem hw
  obtain ⟨k', v⟩ := w
  cases hk
  refine apply_after (h _ (by simp) rfl) fun w' hw' => h w' ?_
  exact List.mem_append_right _ (List.mem_cons_of_mem _ hw')

end Writes
