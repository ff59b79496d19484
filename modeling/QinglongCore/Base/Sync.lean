import Mathlib.Order.Nat
import Mathlib.Tactic.Common

/-!
# Synchronous machines

A machine is a step function on register states, taken once a clock edge. `run` gives the register
state in each cycle for a stream of input values; the rules below package the induction on cycles.
-/

namespace Sync

variable {σ ι : Type}

/-- The state in cycle `t` when the machine starts in `s₀` and sees the inputs `inp`. -/
def run (step : σ → ι → σ) (s₀ : σ) (inp : Nat → ι) : Nat → σ
  | 0 => s₀
  | t + 1 => step (run step s₀ inp t) (inp t)

/-- What happens from cycle `t` on happens a first time. -/
theorem first_from {p : Nat → Bool} {t : Nat} (h : ∃ u, t ≤ u ∧ p u = true) :
    ∃ u, t ≤ u ∧ p u = true ∧ ∀ v, t ≤ v → v < u → p v = false := by
  refine ⟨Nat.find h, (Nat.find_spec h).1, (Nat.find_spec h).2, ?_⟩
  intro v htv hv
  have hn := Nat.find_min h hv
  simpa [htv] using hn

/-- A rank that always falls again reaches zero. -/
theorem descends {rank : Nat → Nat} (hfall : ∀ t, 0 < rank t → ∃ u, t ≤ u ∧ rank u < rank t) (t : Nat) :
    ∃ u, t ≤ u ∧ rank u = 0 := by
  induction hn : rank t using Nat.strong_induction_on generalizing t with
  | _ n ih =>
    rcases Nat.eq_zero_or_pos n with hz | hpos
    · exact ⟨t, le_refl t, by omega⟩
    · obtain ⟨v, htv, hv⟩ := hfall t (by omega)
      obtain ⟨u, hvu, hu⟩ := ih _ (by omega) v rfl
      exact ⟨u, by omega, hu⟩

/-- A rank that never rises reaches zero when, for as long as a request is open, every `grant` lowers it, and then
every `reply` does. -/
theorem rank_reaches {rank : Nat → Nat} {asks grant reply : Nat → Bool}
    (hmono : ∀ t, 0 < rank t → rank (t + 1) ≤ rank t)
    (hgrant : ∀ t, 0 < rank t → asks t = true → grant t = true → rank (t + 1) < rank t)
    (hreply : ∀ t, 0 < rank t → asks t = false → reply t = true → rank (t + 1) < rank t)
    (hasks : ∀ t, 0 < rank t → asks t = false → rank (t + 1) = rank t → asks (t + 1) = false)
    (hg : ∀ t, ∃ u, t ≤ u ∧ grant u = true) (hr : ∀ t, ∃ u, t ≤ u ∧ reply u = true) (t : Nat) :
    ∃ u, t ≤ u ∧ rank u = 0 := by
  induction hn : rank t using Nat.strong_induction_on generalizing t with
  | _ n ih =>
    by_cases hfall : ∃ v, t ≤ v ∧ rank v < n
    · obtain ⟨v, htv, hv⟩ := hfall
      obtain ⟨u, hvu, hu⟩ := ih _ hv v rfl
      exact ⟨u, by omega, hu⟩
    · -- the rank stays, so neither event can have come with its request
      by_contra hzero
      have hpos : 0 < n := by
        by_contra hn₀
        exact hzero ⟨t, le_refl t, by omega⟩
      have hstay : ∀ v, t ≤ v → rank v = n := by
        intro v htv
        induction v, htv using Nat.le_induction with
        | base => exact hn
        | succ v htv ihv =>
            have hle := hmono v (by omega)
            by_contra hne
            exact hfall ⟨v + 1, by omega, by omega⟩
      obtain ⟨g, htg, hgg⟩ := hg t
      have hclosed : ∀ v, g ≤ v → asks v = false := by
        intro v hgv
        induction v, hgv using Nat.le_induction with
        | base =>
            by_contra hask
            have hlt := hgrant g (by rw [hstay g htg]; exact hpos) (by simpa using hask) hgg
            rw [hstay g htg, hstay (g + 1) (by omega)] at hlt
            omega
        | succ v hgv ihv =>
            have hv : rank v = n := hstay v (by omega)
            exact hasks v (by omega) ihv (by rw [hv, hstay (v + 1) (by omega)])
      obtain ⟨r, hgr, hrr⟩ := hr g
      have hlt := hreply r (by rw [hstay r (by omega)]; exact hpos) (hclosed r hgr) hrr
      rw [hstay r (by omega), hstay (r + 1) (by omega)] at hlt
      omega

variable {step : σ → ι → σ} {s₀ : σ} {inp : Nat → ι}

@[simp] theorem run_zero : run step s₀ inp 0 = s₀ := rfl

theorem run_succ (t : Nat) : run step s₀ inp (t + 1) = step (run step s₀ inp t) (inp t) := rfl

/-- A property that holds at the start and that every step keeps holds in every cycle. -/
theorem run_invariant {P : σ → Prop} (h₀ : P s₀) (hs : ∀ s i, P s → P (step s i)) (t : Nat) :
    P (run step s₀ inp t) := by
  induction t with
  | zero => exact h₀
  | succ t ih => exact hs _ _ ih

/-- A property that holds in cycle `a` and is kept from then on holds in every later cycle. -/
theorem run_invariant_from {P : Nat → σ → Prop} {a : Nat} (h₀ : P a (run step s₀ inp a))
    (hs : ∀ t, a ≤ t → P t (run step s₀ inp t) → P (t + 1) (step (run step s₀ inp t) (inp t)))
    {t : Nat} (ht : a ≤ t) : P t (run step s₀ inp t) := by
  induction t, ht using Nat.le_induction with
  | base => exact h₀
  | succ t ht ih => exact hs t ht ih

/-- A goal is reached when, as long as it is not, the invariant is kept and a rank falls. -/
theorem run_reaches {P : Nat → σ → Prop} {Q : σ → Prop} (rank : σ → Nat)
    (hs : ∀ t, P t (run step s₀ inp t) → ¬ Q (run step s₀ inp t) →
      P (t + 1) (step (run step s₀ inp t) (inp t)) ∧
        rank (step (run step s₀ inp t) (inp t)) < rank (run step s₀ inp t))
    {a : Nat} (h₀ : P a (run step s₀ inp a)) :
    ∃ t, a ≤ t ∧ P t (run step s₀ inp t) ∧ Q (run step s₀ inp t) := by
  induction hn : rank (run step s₀ inp a) using Nat.strong_induction_on generalizing a with
  | _ n ih =>
    by_cases hg : Q (run step s₀ inp a)
    · exact ⟨a, le_refl a, h₀, hg⟩
    · obtain ⟨hi, hr⟩ := hs a h₀ hg
      obtain ⟨t, ht, h⟩ := ih _ (hn ▸ hr) (a := a + 1) hi rfl
      exact ⟨t, by omega, h⟩

/-! ## What leads to what -/

/-- Where `P` holds, `Q` holds in that cycle or a later one. -/
def LeadsTo (P Q : Nat → Prop) : Prop := ∀ t, P t → ∃ u, t ≤ u ∧ Q u

variable {P Q R : Nat → Prop}

theorem LeadsTo.trans (h : LeadsTo P Q) (h' : LeadsTo Q R) : LeadsTo P R := by
  intro t hp
  obtain ⟨u, htu, hq⟩ := h t hp
  obtain ⟨v, huv, hr⟩ := h' u hq
  exact ⟨v, by omega, hr⟩

/-- Where `P` leads to `Q` or to `R`, and `R` to `Q`, it leads to `Q`. -/
theorem LeadsTo.orElse (h : LeadsTo P fun t => Q t ∨ R t) (h' : LeadsTo R Q) : LeadsTo P Q := by
  intro t hp
  obtain ⟨u, htu, hq | hr⟩ := h t hp
  · exact ⟨u, htu, hq⟩
  · obtain ⟨v, huv, hq⟩ := h' u hr
    exact ⟨v, by omega, hq⟩

theorem LeadsTo.next (h : ∀ t, P t → Q (t + 1)) : LeadsTo P Q := fun t hp => ⟨t + 1, by omega, h t hp⟩

/-- `P` waits for an event, and the event ends it. -/
theorem LeadsTo.wait {e : Nat → Bool} (hstay : ∀ t, P t → e t = false → P (t + 1))
    (hgo : ∀ t, P t → e t = true → Q (t + 1)) (he : ∀ t, P t → ∃ u, t ≤ u ∧ e u = true) : LeadsTo P Q := by
  intro t hp
  obtain ⟨u, htu, hu, hbefore⟩ := first_from (he t hp)
  have hkept : ∀ v, t ≤ v → v ≤ u → P v := by
    intro v htv
    induction v, htv using Nat.le_induction with
    | base => exact fun _ => hp
    | succ v htv ih => exact fun hv => hstay v (ih (by omega)) (hbefore v htv (by omega))
  exact ⟨u + 1, by omega, hgo u (hkept u htu (Nat.le_refl u)) hu⟩

/-- `P` goes on until it ends in `Q`, at the latest when an event comes that is bound to come. -/
theorem LeadsTo.unless {e : Nat → Bool} (h : ∀ t, P t → Q t ∨ Q (t + 1) ∨ e t = false ∧ P (t + 1))
    (he : ∀ t, P t → ∃ u, t ≤ u ∧ e u = true) : LeadsTo P Q := by
  intro t hp
  by_contra hno
  have hnot : ∀ u, t ≤ u → ¬ Q u := fun u htu hq => hno ⟨u, htu, hq⟩
  have hkept : ∀ u, t ≤ u → P u := by
    intro u htu
    induction u, htu using Nat.le_induction with
    | base => exact hp
    | succ u htu ih =>
        rcases h u ih with hq | hq | ⟨-, hp'⟩
        · exact absurd hq (hnot u htu)
        · exact absurd hq (hnot (u + 1) (by omega))
        · exact hp'
  obtain ⟨u, htu, hu⟩ := he t hp
  rcases h u (hkept u htu) with hq | hq | ⟨hn, -⟩
  · exact hnot u htu hq
  · exact hnot (u + 1) (by omega) hq
  · rw [hu] at hn
    simp at hn

/-- `P` leads to `Q` when it falls in rank for as long as it does not. -/
theorem LeadsTo.falls (rank : Nat → Nat)
    (h : ∀ n, LeadsTo (fun t => P t ∧ rank t = n) fun t => Q t ∨ (P t ∧ rank t < n)) : LeadsTo P Q := by
  intro t hp
  induction hn : rank t using Nat.strong_induction_on generalizing t with
  | _ n ih =>
    obtain ⟨u, htu, hq | ⟨hp', hlt⟩⟩ := h n t ⟨hp, hn⟩
    · exact ⟨u, htu, hq⟩
    · obtain ⟨v, huv, hq⟩ := ih _ hlt u hp' rfl
      exact ⟨v, by omega, hq⟩

end Sync
