import Mathlib.Tactic.Common

/-!
# Responders that answer in order

A port on which requests are issued and answered, each at most once a cycle. A request is named by the cycle
it is issued in; the oldest one is answered first.
-/

namespace InOrder

variable (issued returned : Nat → Bool)

/-- The unanswered requests in cycle `t`, oldest first. -/
def outstanding : Nat → List Nat
  | 0 => []
  | t + 1 => (if returned t then (outstanding t).tail else outstanding t) ++ if issued t then [t] else []

variable {issued returned} {t a : Nat}

theorem outstanding_idle (hi : issued t = false) (hr : returned t = false) :
    outstanding issued returned (t + 1) = outstanding issued returned t := by
  simp [outstanding, hi, hr]

theorem outstanding_issue (h : outstanding issued returned t = []) :
    outstanding issued returned (t + 1) = if issued t then [t] else [] := by
  simp [outstanding, h]

theorem outstanding_return (h : outstanding issued returned t = [a]) (hi : issued t = false)
    (hr : returned t = true) : outstanding issued returned (t + 1) = [] := by
  simp [outstanding, h, hi, hr]

/-- With at most one request open, it is the one issued last. -/
theorem outstanding_only (h : (outstanding issued returned (t + 1)).length ≤ 1) (hi : issued t = true) :
    outstanding issued returned (t + 1) = [t] := by
  simp only [outstanding, hi, if_true, List.length_append, List.length_singleton] at h ⊢
  have hz : (if returned t = true then (outstanding issued returned t).tail else outstanding issued returned t) = [] :=
    List.length_eq_zero_iff.mp (by omega)
  rw [hz, List.nil_append]

theorem outstanding_of_issue (hi : issued t = true) : outstanding issued returned (t + 1) ≠ [] := by
  simp [outstanding, hi]

/-- Without an answer something stays open. -/
theorem outstanding_waits (h : outstanding issued returned t ≠ []) (hr : returned t = false) :
    outstanding issued returned (t + 1) ≠ [] := by
  simp [outstanding, hr, h]

/-- A queue of what is still to be answered: the oldest leaves with an answer, a new one joins. -/
def serve {α : Type} (q : List α) (answered : Bool) (taken : Option α) : List α :=
  (if answered then q.tail else q) ++ taken.toList

/-- The same for a responder that may answer a request in the cycle it is taken in. -/
def serveNow {α : Type} (q : List α) (answered : Bool) (taken : Option α) : List α :=
  if answered then (q ++ taken.toList).tail else q ++ taken.toList

/-! ## Responders -/

variable (issued returned)

/-- Only requests that are outstanding are answered, and the answer fits the oldest one. -/
def Serves (fits : Nat → Nat → Prop) : Prop :=
  ∀ t, returned t = true → ∃ a l, outstanding issued returned t = a :: l ∧ fits a t

/-- Every request is answered in the end. -/
def Prompt : Prop := ∀ t, outstanding issued returned t ≠ [] → ∃ u, t ≤ u ∧ returned u = true

variable {issued returned} {fits : Nat → Nat → Prop} {k : Nat}

theorem Serves.quiet (h : Serves issued returned fits) (ho : outstanding issued returned t = []) :
    returned t = false := by
  cases hr : returned t
  · rfl
  · obtain ⟨a, l, hl, -⟩ := h t hr
    rw [ho] at hl
    simp at hl

/-- A responder that answers `k` cycles after the request: the requests of the last `k` cycles are outstanding. -/
theorem outstanding_of_lag (h₀ : ∀ t, t < k → returned t = false) (h : ∀ t, returned (t + k) = issued t) (hk : 0 < k)
    (t : Nat) : outstanding issued returned t = (List.range' (t - k) (min t k)).filter issued := by
  induction t with
  | zero => simp [outstanding]
  | succ t ih =>
      rw [outstanding, ih]
      rcases Nat.lt_or_ge t k with ht | ht
      · have h₁ : t - k = 0 := by omega
        have h₂ : t + 1 - k = 0 := by omega
        have h₃ : min (t + 1) k = min t k + 1 := by omega
        have h₄ : min t k = t := by omega
        rw [h₀ t ht, h₁, h₂, h₃, h₄, List.range'_concat, List.filter_append]
        simp [List.filter_cons]
      · obtain ⟨m, rfl⟩ : ∃ m, t = m + k := ⟨t - k, by omega⟩
        have h₁ : m + k - k = m := by omega
        have h₂ : m + k + 1 - k = m + 1 := by omega
        have h₃ : min (m + k) k = (k - 1) + 1 := by omega
        have h₄ : min (m + k + 1) k = (k - 1) + 1 := by omega
        have h₅ : m + 1 + 1 * (k - 1) = m + k := by omega
        have hq : (if issued m then (List.filter issued (List.range' m (k - 1 + 1))).tail
            else List.filter issued (List.range' m (k - 1 + 1))) =
            List.filter issued (List.range' (m + 1) (k - 1)) := by
          rw [List.range'_succ, List.filter_cons]
          cases issued m <;> simp
        rw [h m, h₁, h₂, h₃, h₄, hq, List.range'_concat, List.filter_append, h₅]
        simp [List.filter_cons]

/-- It serves them, and promptly. -/
theorem serves_of_lag (h₀ : ∀ t, t < k → returned t = false) (h : ∀ t, returned (t + k) = issued t) (hk : 0 < k)
    (hfits : ∀ t, issued t = true → fits t (t + k)) : Serves issued returned fits := by
  intro t ht
  rcases Nat.lt_or_ge t k with hlt | hge
  · rw [h₀ t hlt] at ht
    simp at ht
  · obtain ⟨m, rfl⟩ : ∃ m, t = m + k := ⟨t - k, by omega⟩
    have hm : issued m = true := (h m).symm.trans ht
    have h₁ : m + k - k = m := by omega
    have h₂ : min (m + k) k = (k - 1) + 1 := by omega
    refine ⟨m, (List.range' (m + 1) (k - 1)).filter issued, ?_, hfits m hm⟩
    rw [outstanding_of_lag h₀ h hk, h₁, h₂, List.range'_succ, List.filter_cons, if_pos hm]

theorem prompt_of_lag (h₀ : ∀ t, t < k → returned t = false) (h : ∀ t, returned (t + k) = issued t) (hk : 0 < k) :
    Prompt issued returned := by
  intro t ht
  rw [outstanding_of_lag h₀ h hk] at ht
  obtain ⟨a, ha⟩ := List.exists_mem_of_ne_nil _ ht
  rw [List.mem_filter, List.mem_range'_1] at ha
  exact ⟨a + k, by omega, (h a).trans ha.2⟩

theorem Serves.only (h : Serves issued returned fits) (ho : outstanding issued returned t = [a])
    (hr : returned t = true) : fits a t := by
  obtain ⟨b, l, hl, hf⟩ := h t hr
  rw [ho] at hl
  simp only [List.cons.injEq] at hl
  rw [hl.1]
  exact hf

end InOrder
