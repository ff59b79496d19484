import Mathlib.Data.Nat.Count
import Mathlib.Tactic.Common

/-!
# Events in a run

An event is a predicate on cycles. `count` says how often it happens between two cycles, `latest` which one of a
family of marked events was the last.
-/

namespace Events

/-- How often `p` happens after cycle `a` and before cycle `u`. -/
def count (p : Nat → Bool) (a u : Nat) : Nat := Nat.count (fun v => a < v ∧ p v = true) u

variable {p : Nat → Bool} {a u : Nat}

theorem count_start : count p a (a + 1) = 0 := by
  unfold count
  rw [Nat.count_iff_forall_not]
  intro v hv hp
  omega

theorem count_succ (h : a < u) : count p a (u + 1) = count p a u + (p u).toNat := by
  unfold count
  rw [Nat.count_succ]
  cases hp : p u <;> simp [h]

theorem exists_of_count (h : 0 < count p a u) : ∃ v, a < v ∧ v < u ∧ p v = true := by
  by_contra hno
  have hz : count p a u = 0 := by
    unfold count
    rw [Nat.count_iff_forall_not]
    exact fun v hv hp => hno ⟨v, hp.1, hv, hp.2⟩
  omega

/-! ## The latest mark -/

variable {α : Type} {mark : Nat → Option α} {t : Nat} {x : α}

/-- The mark of the last cycle before `t` that has one. -/
def latest (mark : Nat → Option α) : Nat → Option α
  | 0 => none
  | t + 1 => (mark t).or (latest mark t)

theorem latest_of_mark (h : mark t = some x) : latest mark (t + 1) = some x := by
  simp [latest, h]

theorem latest_of_none (h : mark t = none) : latest mark (t + 1) = latest mark t := by
  simp [latest, h]

theorem latest_eq_some :
    latest mark t = some x ↔ ∃ w, w < t ∧ mark w = some x ∧ ∀ v, w < v → v < t → mark v = none := by
  induction t with
  | zero => simp [latest]
  | succ t ih =>
      cases hm : mark t with
      | none =>
          rw [latest_of_none hm, ih]
          constructor
          · rintro ⟨w, hw, hx, hq⟩
            refine ⟨w, by omega, hx, fun v hwv hv => ?_⟩
            rcases Nat.lt_or_eq_of_le (Nat.le_of_lt_succ hv) with hlt | heq
            · exact hq v hwv hlt
            · rw [heq]
              exact hm
          · rintro ⟨w, hw, hx, hq⟩
            rcases Nat.lt_or_eq_of_le (Nat.le_of_lt_succ hw) with hlt | heq
            · exact ⟨w, hlt, hx, fun v hwv hv => hq v hwv (by omega)⟩
            · rw [heq, hm] at hx
              simp at hx
      | some y =>
          rw [latest_of_mark hm]
          constructor
          · intro hxy
            exact ⟨t, by omega, by rw [hm, hxy], fun v hwv hv => absurd hv (by omega)⟩
          · rintro ⟨w, hw, hx, hq⟩
            rcases Nat.lt_or_eq_of_le (Nat.le_of_lt_succ hw) with hlt | heq
            · rw [hq t hlt (by omega)] at hm
              simp at hm
            · rw [← hm, ← heq, hx]

end Events
