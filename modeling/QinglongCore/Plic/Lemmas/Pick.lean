import QinglongCore.Base.Pick
import QinglongCore.Rtl.Plic

/-!
# The source that the loop picks
-/

namespace QinglongCore.Plic

variable {N C : Nat}

/-! ## Single bits -/

theorem getLsbD_putBit {w : Nat} (v : BitVec w) (n m : Nat) (b : Bool) :
    (putBit v n b).getLsbD m = if n = m ∧ m < w then b else v.getLsbD m := by
  have hout : m < w ∨ v.getLsbD m = false := (Nat.lt_or_ge m w).imp_right (BitVec.getLsbD_of_ge v m)
  cases b <;>
    simp only [putBit, if_true, Bool.false_eq_true, if_false, BitVec.getLsbD_or, BitVec.getLsbD_and, BitVec.getLsbD_not,
      BitVec.getLsbD_twoPow] <;>
    grind

/-- The same between two sources. -/
theorem putBit_bit (v : BitVec N) (j k : Fin N) (b : Bool) :
    (putBit v j b).getLsbD k = if j = k then b else v.getLsbD k := by
  simp only [getLsbD_putBit, Fin.val_inj, k.isLt, and_true]

/-- An ID fits its width. -/
theorem toNat_id (j : Fin N) : (BitVec.ofNat (idWidth N) j.val).toNat = j.val := by
  have hp : N + 1 ≤ 2 ^ idWidth N := Nat.le_pow_clog (by decide) (N + 1)
  rw [BitVec.toNat_ofNat, Nat.mod_eq_of_lt (by omega)]

theorem toNat_id_word (hN : N ≤ 31) (j : Fin N) :
    ((BitVec.ofNat (idWidth N) j.val).setWidth 32).toNat = j.val := by
  rw [BitVec.toNat_setWidth, toNat_id, Nat.mod_eq_of_lt (by omega)]

/-! ## The pick -/

/-- Source `j` is pending, enabled for context `c` and above its threshold. -/
def Eligible (s : State N C) (c : Fin C) (j : Fin N) : Prop :=
  (s.enable c).getLsbD j = true ∧ s.pending.getLsbD j = true ∧ s.threshold c < s.priority j

/-- Source `j` has the highest priority among the eligible ones, and the lowest ID among those. -/
def Wins (s : State N C) (c : Fin C) (j : Fin N) : Prop :=
  Eligible s c j ∧ ∀ k, Eligible s c k → s.priority k < s.priority j ∨ (s.priority k = s.priority j ∧ j ≤ k)

variable (s : State N C) (c : Fin C)

def eligible (j : Fin N) : Bool :=
  (s.enable c).getLsbD j && s.pending.getLsbD j && (s.threshold c).ult (s.priority j)

@[simp] theorem eligible_iff (j : Fin N) : eligible s c j = true ↔ Eligible s c j := by
  simp [eligible, Eligible, BitVec.lt_def, BitVec.ult, and_assoc]

/-- `best_prio` and `best_idx` for the best source so far. -/
def best : Option (Fin N) → BitVec 3 × BitVec (idWidth N)
  | none => (0, 0)
  | some j => (s.priority j, BitVec.ofNat _ j)

/-- The pair that the loop carries is the best source so far: what is above the threshold has a priority. -/
theorem scan_best (o : Option (Fin N)) (j : Fin N) :
    scan s c (best s o) j = best s (Pick.turn (eligible s c) (fun k => (s.priority k).toNat) o j) := by
  unfold scan Pick.turn eligible
  cases he : (s.enable c).getLsbD j && s.pending.getLsbD j && (s.threshold c).ult (s.priority j) with
  | false => simp
  | true =>
    cases o with
    | none =>
      have hpos : (0#3).ult (s.priority j) = true := by
        simp only [Bool.and_eq_true, BitVec.ult_eq_decide, decide_eq_true_eq] at he ⊢
        have hz : (0#3).toNat = 0 := rfl
        omega
      simp [best, hpos]
    | some k => by_cases hk : (s.priority k).toNat < (s.priority j).toNat <;> simp [best, BitVec.ult, hk]

theorem foldl_scan (l : List (Fin N)) (o : Option (Fin N)) :
    l.foldl (scan s c) (best s o) =
      best s (l.foldl (Pick.turn (eligible s c) (fun k => (s.priority k).toNat)) o) := by
  induction l generalizing o with
  | nil => rfl
  | cons j l ih => rw [List.foldl_cons, scan_best, ih, List.foldl_cons]

theorem mem_sources (j : Fin N) : j ∈ sources N ↔ j.val ≠ 0 := by simp [sources]

theorem sources_ascending : (sources N).Pairwise (· < ·) :=
  (List.pairwise_lt_finRange N).filter _

/-- The source that the loop picks. -/
def picked : Option (Fin N) :=
  (sources N).foldl (Pick.turn (eligible s c) (fun k => (s.priority k).toNat)) none

theorem pickBestSrc_picked : pickBestSrc s c = (best s (picked s c)).2 := by
  unfold pickBestSrc picked
  rw [← foldl_scan]
  rfl

variable {s c}

/-- Source 0 is not scanned, and cannot be missed: it is not pending. -/
theorem picked_none (h0 : s.pending.getLsbD 0 = false) (h : picked s c = none) (j : Fin N) : ¬ Eligible s c j := by
  intro he
  have hj : j.val ≠ 0 := by
    intro hz
    rw [Eligible, hz, h0] at he
    exact absurd he.2.1 (by decide)
  have hf := Pick.none_ok h j ((mem_sources j).mpr hj)
  rw [(eligible_iff s c j).mpr he] at hf
  exact absurd hf (by decide)

theorem picked_some (h0 : s.pending.getLsbD 0 = false) {j : Fin N} (h : picked s c = some j) :
    Wins s c j ∧ j.val ≠ 0 := by
  obtain ⟨hm, hok, hbest⟩ := Pick.beats sources_ascending h
  refine ⟨⟨(eligible_iff s c j).mp hok, ?_⟩, (mem_sources j).mp hm⟩
  intro k hk
  have hkz : k.val ≠ 0 := by
    intro hz
    rw [Eligible, hz, h0] at hk
    exact absurd hk.2.1 (by decide)
  rcases hbest k ((mem_sources k).mpr hkz) ((eligible_iff s c k).mpr hk) with hlt | ⟨heq, hle⟩
  · exact .inl (BitVec.lt_def.mpr hlt)
  · exact .inr ⟨BitVec.eq_of_toNat_eq heq, hle⟩

theorem Wins.unique {j k : Fin N} (hj : Wins s c j) (hk : Wins s c k) : j = k := by
  rcases hj.2 k hk.1 with h | ⟨h, hle⟩
  · rcases hk.2 j hj.1 with h' | ⟨h', -⟩
    · exact absurd (BitVec.lt_trans h h') (BitVec.lt_irrefl _)
    · exact absurd (h' ▸ h) (BitVec.lt_irrefl _)
  · rcases hk.2 j hj.1 with h' | ⟨-, hle'⟩
    · exact absurd (h ▸ h') (BitVec.lt_irrefl _)
    · exact le_antisymm hle hle'

/-- The pick goes over registers in which source 0 is not pending. -/
theorem pick_spec (h0 : s.pending.getLsbD 0 = false) :
    (∃ j : Fin N, Wins s c j ∧ j.val ≠ 0 ∧ pickBestSrc s c = BitVec.ofNat _ j.val) ∨
      ((∀ j, ¬ Eligible s c j) ∧ pickBestSrc s c = 0) := by
  rw [pickBestSrc_picked]
  cases hp : picked s c with
  | none => exact .inr ⟨picked_none h0 hp, rfl⟩
  | some j => exact .inl ⟨j, (picked_some h0 hp).1, (picked_some h0 hp).2, rfl⟩

theorem ofNat_id_ne (j : Fin N) (hj : j.val ≠ 0) : BitVec.ofNat (idWidth N) j.val ≠ 0 := by
  intro h
  have hz := congrArg BitVec.toNat h
  rw [toNat_id] at hz
  exact hj hz

end QinglongCore.Plic
