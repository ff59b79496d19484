import QinglongCore.Plic.Lemmas.Steps

/-!
# Arbitration between interrupt sources

What a claim returns and when the interrupt line of a context is high, read off the registers of the controller.
-/

namespace QinglongCore.Plic

variable {N C : Nat} {s : State N C} {c : Fin C}

/-- What a claim by context `c` returns: the winner, or 0 when nothing is eligible. -/
def Grants (s : State N C) (c : Fin C) (rsp : State N C) : Prop :=
  rsp.rspValid = true ∧ rsp.rspFault = false ∧
    ((∃ j, Wins s c j ∧ j.val ≠ 0 ∧ rsp.rspRdata = BitVec.ofNat 32 j.val) ∨
      ((∀ j, ¬ Eligible s c j) ∧ rsp.rspRdata = 0))

theorem setWidth_id (hN : N ≤ 31) (j : Fin N) :
    (BitVec.ofNat (idWidth N) j.val).setWidth 32 = BitVec.ofNat 32 j.val := by
  apply BitVec.eq_of_toNat_eq
  rw [toNat_id_word hN, BitVec.toNat_ofNat, Nat.mod_eq_of_lt (by omega)]

theorem grants_of_claim (hN : N ≤ 31) (h0 : s.pending.getLsbD 0 = false) {i : In N}
    (h : ClaimRead (N := N) i.req c) : Grants s c (step s i) := by
  obtain ⟨hv, hf, hr⟩ := claimed_rsp (s := s) h
  refine ⟨hv, hf, ?_⟩
  rcases pick_spec (c := c) h0 with ⟨j, hj, hz, hp⟩ | ⟨hn, hp⟩
  · exact .inl ⟨j, hj, hz, by rw [hr, hp, setWidth_id hN]⟩
  · exact .inr ⟨hn, by rw [hr, hp]; simp⟩

/-- In every reachable state a claim returns the eligible source of the highest priority, the lowest ID among equals,
and 0 when there is none; the line of a context is high exactly when a claim would return a source; source 0 is
never pending, and so never returned. -/
theorem claim_returns_best (hN : N ≤ 31) (inp : Nat → In N) (t : Nat) (c : Fin C) :
    (∀ i : In N, ClaimRead (N := N) i.req c → Grants (run N C inp t) c (step (run N C inp t) i)) ∧
      (∀ i : In N, ClaimRead (N := N) i.req c →
        (irqO (run N C inp t) c = true ↔ (step (run N C inp t) i).rspRdata ≠ 0)) ∧
      (irqO (run N C inp t) c = true ↔ ∃ j, Eligible (run N C inp t) c j) ∧
      (run N C inp t).pending.getLsbD 0 = false := by
  have h0 := pending_zero (C := C) inp t
  generalize run N C inp t = s at h0
  have hirq : irqO s c = true ↔ ∃ j, Eligible s c j := by
    unfold irqO
    rw [bne_iff_ne]
    rcases pick_spec (c := c) h0 with ⟨j, hj, hz, hp⟩ | ⟨hn, hp⟩
    · exact ⟨fun _ => ⟨j, hj.1⟩, fun _ => hp ▸ ofNat_id_ne j hz⟩
    · exact ⟨fun h => absurd hp h, fun ⟨j, hj⟩ => absurd hj (hn j)⟩
  refine ⟨fun i hi => grants_of_claim hN h0 hi, ?_, hirq, h0⟩
  intro i hi
  rw [hirq]
  obtain ⟨-, -, hgr⟩ := grants_of_claim hN h0 hi
  rcases hgr with ⟨j, hj, hz, hr⟩ | ⟨hn, hr⟩
  · rw [hr]
    refine ⟨fun _ hword => ?_, fun _ => ⟨j, hj.1⟩⟩
    have hval := congrArg BitVec.toNat hword
    rw [BitVec.toNat_ofNat, Nat.mod_eq_of_lt (by omega)] at hval
    exact hz hval
  · exact ⟨fun ⟨j, hj⟩ => absurd hj (hn j), fun hne => absurd hr hne⟩

/-- Two sources of one priority: the lower ID goes first. -/
def twoPending (t : Nat) : In 4 where
  req :=
    match t with
    | 0 => { valid := true, addr := 0x0C000008, wen := true, wdata := 5, wmask := 0b1111 }
    | 1 => { valid := true, addr := 0x0C00000C, wen := true, wdata := 5, wmask := 0b1111 }
    | 2 => { valid := true, addr := 0x0C002000, wen := true, wdata := 0b1110, wmask := 0b1111 }
    | _ => { valid := true, addr := 0x0C200004, wen := false, wdata := 0, wmask := 0 }
  sources := 0b1100

theorem claim_returns_best_two :
    Grants (run 4 2 twoPending 3) 0 (run 4 2 twoPending 4) ∧ (run 4 2 twoPending 4).rspRdata = 2 :=
  ⟨(claim_returns_best (by decide) twoPending 3 0).1 (twoPending 3) ⟨rfl, rfl, rfl⟩, by decide⟩

end QinglongCore.Plic
