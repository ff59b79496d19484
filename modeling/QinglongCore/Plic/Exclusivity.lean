import QinglongCore.Plic.Arbitration

/-!
# Claims are exclusive and no interrupt is lost

Pending and in flight are kept apart by every clock edge, whatever the bus and the source lines do in it. From that
follows the life of an interrupt: pending until a claim returns it, then in flight until a completion names it.
-/

namespace QinglongCore.Plic

variable {N C : Nat} {s : State N C} {i : In N} {j : Fin N}

/-! ## One clock edge -/

/-- No source is both pending and in flight. -/
def Exclusive (s : State N C) : Prop := ∀ j : Fin N, ¬ (s.pending.getLsbD j = true ∧ s.inflight.getLsbD j = true)

theorem Exclusive.gateway (h : Exclusive s) (hj : s.inflight.getLsbD j = true) :
    (gateway s i).getLsbD j = false := by
  by_cases hz : j.val = 0
  · exact gateway_zero hz
  · have hp : s.pending.getLsbD j = false := by
      have hn := h j
      simpa [hj] using hn
    rw [gateway_bit hz, hp, hj]
    exact Bool.and_false _

theorem Exclusive.step (h : Exclusive s) (i : In N) : Exclusive (step s i) := by
  intro k
  have he := step_edge s i
  generalize (Plic.step s i).pending = p, (Plic.step s i).inflight = f at he
  have hg : s.inflight.getLsbD k = true → (Plic.gateway s i).getLsbD k = false := h.gateway
  cases he with
  | claim j _ =>
    rw [putBit_bit, putBit_bit]
    grind
  | complete j _ =>
    rw [putBit_bit]
    grind
  | other => grind

/-- A pending source stays so unless a claim takes it. -/
theorem pending_step (hz : j.val ≠ 0) (hp : s.pending.getLsbD j = true) :
    (step s i).pending.getLsbD j = true ∨ Takes s i j := by
  have he := step_edge s i
  generalize (step s i).pending = p, (step s i).inflight = f at he
  have hg : (gateway s i).getLsbD j = true := by rw [gateway_bit hz, hp, Bool.true_or]
  cases he with
  | claim k hk =>
    by_cases hkj : k = j
    · exact .inr (hkj ▸ hk)
    · refine .inl ?_
      rw [putBit_bit, if_neg hkj, hg]
  | complete => exact .inl hg
  | other => exact .inl hg

/-- A high line that is not in flight is latched unless a claim takes its source. -/
theorem latch_step (hz : j.val ≠ 0) (hl : i.sources.getLsbD j = true) (hf : s.inflight.getLsbD j = false) :
    (step s i).pending.getLsbD j = true ∨ Takes s i j := by
  have he := step_edge s i
  generalize (step s i).pending = p, (step s i).inflight = f at he
  have hg : (gateway s i).getLsbD j = true := by rw [gateway_bit hz, hl, hf]; exact Bool.or_true _
  cases he with
  | claim k hk =>
    by_cases hkj : k = j
    · exact .inr (hkj ▸ hk)
    · refine .inl ?_
      rw [putBit_bit, if_neg hkj, hg]
  | complete => exact .inl hg
  | other => exact .inl hg

theorem inflight_step (hf : s.inflight.getLsbD j = true) :
    (step s i).inflight.getLsbD j = true ∨ Completes C i j := by
  have he := step_edge s i
  generalize (step s i).pending = p, (step s i).inflight = f at he
  cases he with
  | claim k hk => exact .inl (by rw [putBit_bit, hf, ite_self])
  | complete k hk =>
    by_cases hkj : k = j
    · exact .inr (hkj ▸ hk)
    · refine .inl ?_
      rw [putBit_bit, if_neg hkj, hf]
  | other => exact .inl hf

/-! ## Runs -/

variable {inp : Nat → In N} {t u : Nat}

theorem exclusive_run (inp : Nat → In N) (t : Nat) : Exclusive (run N C inp t) :=
  Sync.run_invariant (P := Exclusive) (fun _ h => absurd h.1 (by simp [reset])) (fun _ i h => h.step i) t

/-- The claim read of cycle `t` is answered with source `j` in the cycle after. -/
def Returns (C : Nat) (inp : Nat → In N) (c : Fin C) (t : Nat) (j : Fin N) : Prop :=
  ClaimRead (N := N) (inp t).req c ∧ (run N C inp (t + 1)).rspValid = true ∧
    (run N C inp (t + 1)).rspRdata = BitVec.ofNat 32 j.val

theorem ofNat_word_inj (hN : N ≤ 31) {j k : Fin N} (h : BitVec.ofNat 32 j.val = BitVec.ofNat 32 k.val) : j = k := by
  have hval := congrArg BitVec.toNat h
  rw [BitVec.toNat_ofNat, BitVec.toNat_ofNat, Nat.mod_eq_of_lt (by omega), Nat.mod_eq_of_lt (by omega)] at hval
  exact Fin.ext hval

/-- A claim takes the source that it returns. -/
theorem takes_of_returns (hN : N ≤ 31) {c : Fin C} (hj : j.val ≠ 0) (h : Returns C inp c t j) :
    Takes (run N C inp t) (inp t) j ∧ (run N C inp t).pending.getLsbD j = true := by
  obtain ⟨hc, -, hr⟩ := h
  rw [run_succ, (claimed_rsp hc).2.2] at hr
  rcases pick_spec (c := c) (pending_zero inp t) with ⟨k, hk, hz, hp⟩ | ⟨-, hp⟩
  · rw [hp, setWidth_id hN] at hr
    cases ofNat_word_inj hN hr
    exact ⟨⟨c, hc, hp, hz⟩, hk.1.2.1⟩
  · rw [hp] at hr
    exact absurd (congrArg BitVec.toNat hr) (by simp; omega)

theorem returns_of_takes (hN : N ≤ 31) (h : Takes (run N C inp t) (inp t) j) : ∃ c, Returns C inp c t j := by
  obtain ⟨c, hc, hp, -⟩ := h
  obtain ⟨hv, -, hr⟩ := claimed_rsp (s := run N C inp t) hc
  exact ⟨c, hc, hv, by rw [run_succ, hr, hp, setWidth_id hN]⟩

/-- A claim puts the source that it takes in flight. -/
theorem inflight_of_takes (h : Takes s i j) : (step s i).inflight.getLsbD j = true := by
  obtain ⟨c, hc, hp, hz⟩ := h
  rw [step_claimRead hc]
  dsimp only [claimed]
  rw [if_pos (by rw [hp]; exact bne_iff_ne.mpr (ofNat_id_ne j hz)), hp, toNat_id, putBit_bit, if_pos rfl]

/-- A source stays in flight until a completion names it. -/
theorem inflight_until (hf : (run N C inp t).inflight.getLsbD j = true) (htu : t ≤ u)
    (hn : ∀ v, t ≤ v → v < u → ¬ Completes C (inp v) j) : (run N C inp u).inflight.getLsbD j = true := by
  induction u, htu using Nat.le_induction with
  | base => exact hf
  | succ u htu ih =>
    have hu := ih fun v hv hlt => hn v hv (by omega)
    exact (inflight_step hu).resolve_right (hn u htu (by omega))

/-- A source stays pending until a claim returns it. -/
theorem pending_until (hN : N ≤ 31) (hz : j.val ≠ 0) (hp : (run N C inp t).pending.getLsbD j = true) (htu : t ≤ u)
    (hn : ∀ v c, t ≤ v → v < u → ¬ Returns C inp c v j) : (run N C inp u).pending.getLsbD j = true := by
  induction u, htu using Nat.le_induction with
  | base => exact hp
  | succ u htu ih =>
    have hu := ih fun v c hv hlt => hn v c hv (by omega)
    refine (pending_step hz hu).resolve_right fun h => ?_
    obtain ⟨c, hc⟩ := returns_of_takes hN h
    exact hn u c htu (by omega) hc

/-- In every run a source that a claim has returned is returned to no context again before a completion names it; no
source is pending and in flight at once; a high line that is not in flight is pending in the next cycle unless it is
claimed in this one; and a pending source stays pending until a claim returns it. -/
theorem claims_exclusive (hN : N ≤ 31) (inp : Nat → In N) :
    (∀ (j : Fin N) (t u : Nat) (c d : Fin C), j.val ≠ 0 → t < u → Returns C inp c t j → Returns C inp d u j →
        ∃ v, t < v ∧ v < u ∧ Completes C (inp v) j) ∧
      (∀ (j : Fin N) (t : Nat),
        ¬ ((run N C inp t).pending.getLsbD j = true ∧ (run N C inp t).inflight.getLsbD j = true)) ∧
      (∀ (j : Fin N) (t : Nat), j.val ≠ 0 → (inp t).sources.getLsbD j = true →
        (run N C inp t).inflight.getLsbD j = false →
        (run N C inp (t + 1)).pending.getLsbD j = true ∨ ∃ c, Returns C inp c t j) ∧
      ∀ (j : Fin N) (t u : Nat), j.val ≠ 0 → t ≤ u → (run N C inp t).pending.getLsbD j = true →
        (∀ v c, t ≤ v → v < u → ¬ Returns C inp c v j) → (run N C inp u).pending.getLsbD j = true := by
  refine ⟨?_, fun j t => exclusive_run inp t j, ?_, fun j t u hj htu hp hn => pending_until hN hj hp htu hn⟩
  · intro j t u c d hj htu hret hagain
    by_contra hnone
    push Not at hnone
    have hf : (run N C inp (t + 1)).inflight.getLsbD j = true := inflight_of_takes (takes_of_returns hN hj hret).1
    have hfu := inflight_until hf (u := u) (by omega) fun v hv hlt => hnone v (by omega) hlt
    exact exclusive_run inp u j ⟨(takes_of_returns hN hj hagain).2, hfu⟩
  · intro j t hj hl hf
    rcases latch_step hj hl hf with hp | htake
    · exact .inl hp
    · exact .inr (returns_of_takes hN htake)

/-- Source 1 is given a priority and enabled for context 1; its line is high, and context 1 claims twice. -/
def claimTwice (t : Nat) : In 4 where
  req :=
    match t with
    | 0 => { valid := true, addr := 0x0C000004, wen := true, wdata := 1, wmask := 0b1111 }
    | 1 => { valid := true, addr := 0x0C002080, wen := true, wdata := 2, wmask := 0b1111 }
    | 2 | 4 => { valid := true, addr := 0x0C201004, wen := false, wdata := 0, wmask := 0 }
    | _ => { valid := false, addr := 0, wen := false, wdata := 0, wmask := 0 }
  sources := 0b0010

/-- The second claim of the two goes without the source. -/
theorem claims_exclusive_twice : Returns 2 claimTwice 1 2 1 ∧ ¬ Returns 2 claimTwice 1 4 1 := by
  have hfirst : Returns 2 claimTwice 1 2 1 := ⟨⟨rfl, rfl, rfl⟩, by decide, by decide⟩
  refine ⟨hfirst, fun hagain => ?_⟩
  obtain ⟨v, hlo, hhi, c, ⟨hvalid, -, -⟩, -⟩ :=
    (claims_exclusive (by decide) claimTwice).1 1 2 4 1 1 (by decide) (by decide) hfirst hagain
  rw [show v = 3 by omega] at hvalid
  exact absurd hvalid (by decide)

end QinglongCore.Plic
