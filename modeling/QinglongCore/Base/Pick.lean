import Mathlib.Data.List.MinMax

/-!
# Picking the best

A scan that replaces the best so far only by something strictly better ends with the first of the best.
-/

namespace Pick

/-- What `find?` returns stands before everything else that it could return. -/
theorem find?_first {α : Type} [DecidableEq α] {p : α → Bool} {l : List α} {a b : α} (h : l.find? p = some a)
    (hb : b ∈ l) (hp : p b = true) : l.idxOf a ≤ l.idxOf b := by
  induction l with
  | nil => exact absurd hb List.not_mem_nil
  | cons x l ih =>
    rw [List.find?_cons] at h
    cases hx : p x with
    | true =>
      simp only [hx, Option.some.injEq] at h
      rw [h, List.idxOf_cons_self]
      exact Nat.zero_le _
    | false =>
      simp only [hx] at h
      have ha := List.find?_some h
      have hxa : x ≠ a := fun he => absurd (he ▸ ha) (by simp [hx])
      have hxb : x ≠ b := fun he => absurd (he ▸ hp) (by simp [hx])
      rw [List.idxOf_cons_ne _ hxa, List.idxOf_cons_ne _ hxb]
      exact Nat.succ_le_succ (ih h ((List.mem_cons.mp hb).resolve_left (Ne.symm hxb)))

variable {α β : Type} [LinearOrder β] (ok : α → Bool) (score : α → β)

/-- One turn of the scan, over the items that `ok` admits. -/
def turn (best : Option α) (a : α) : Option α :=
  if ok a && best.all fun b => score b < score a then some a else best

theorem foldl_turn (l : List α) : l.foldl (turn ok score) none = (l.filter ok).argmax score := by
  induction l using List.reverseRecOn with
  | nil => rfl
  | append_singleton l a ih =>
    rw [List.foldl_append, ih, List.filter_append]
    cases ha : ok a with
    | false => simp [turn, ha]
    | true =>
      simp only [List.foldl_cons, List.foldl_nil, turn, ha, Bool.true_and, List.filter_cons_of_pos, List.filter_nil,
        List.argmax_concat]
      cases (l.filter ok).argmax score with
      | none => rfl
      | some b => by_cases h : score b < score a <;> simp [h]

variable {ok score} {l : List α}

theorem none_ok (h : l.foldl (turn ok score) none = none) : ∀ a ∈ l, ok a = false := by
  rw [foldl_turn, List.argmax_eq_none, List.filter_eq_nil_iff] at h
  intro a ha
  simpa using h a ha

variable [LinearOrder α] {m : α}

/-- The order of an ascending list is the order of its positions. -/
theorem le_of_idxOf_le (hl : l.Pairwise (· < ·)) {a : α} (hm : m ∈ l) (ha : a ∈ l) (h : l.idxOf m ≤ l.idxOf a) :
    m ≤ a := by
  rcases Nat.lt_or_eq_of_le h with hlt | heq
  · have hp := List.pairwise_iff_getElem.mp hl _ _ (List.idxOf_lt_length_of_mem hm) (List.idxOf_lt_length_of_mem ha) hlt
    rw [List.getElem_idxOf, List.getElem_idxOf] at hp
    exact le_of_lt hp
  · exact le_of_eq ((List.idxOf_inj hm).mp heq)

/-- On an ascending list the scan ends with the least of the best. -/
theorem beats (hl : l.Pairwise (· < ·)) (h : l.foldl (turn ok score) none = some m) :
    m ∈ l ∧ ok m = true ∧ ∀ a ∈ l, ok a = true → score a < score m ∨ (score a = score m ∧ m ≤ a) := by
  rw [foldl_turn, List.argmax_eq_some_iff] at h
  obtain ⟨hm, hbest, hfirst⟩ := h
  refine ⟨(List.mem_filter.mp hm).1, (List.mem_filter.mp hm).2, ?_⟩
  intro a ha hok
  have haf : a ∈ l.filter ok := List.mem_filter.mpr ⟨ha, hok⟩
  rcases lt_or_eq_of_le (hbest a haf) with hlt | heq
  · exact .inl hlt
  · exact .inr ⟨heq, le_of_idxOf_le (hl.filter ok) hm haf (hfirst a haf (le_of_eq heq.symm))⟩

end Pick
