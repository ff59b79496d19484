import Mathlib.Data.Set.Basic
import QinglongCore.Base.TrailingOnes
import QinglongCore.Rtl.Pmp

/-!
# Physical memory protection and its specification

The specification is stated by regions, sets of 34-bit physical byte addresses. The check works on slices of 30 bits:
it implements the bits of a `pmpaddr` that a 32-bit physical address has, and no others.
-/

namespace QinglongCore.Pmp

/-! ## The specification -/

inductive Kind where
  | read | write | exec
  deriving DecidableEq, Repr

/-- The input lines for an access of one kind. -/
def Kind.access : Kind → Access
  | .read => ⟨true, false, false⟩
  | .write => ⟨false, true, false⟩
  | .exec => ⟨false, false, true⟩

/-- The bit of a configuration byte that grants an access. -/
def Kind.bit : Kind → Nat
  | .read => 0
  | .write => 1
  | .exec => 2

/-- The byte address that a `pmpaddr` holds the upper bits of. -/
def byteAddr (w : Word) : Nat := 4 * w.toNat

/-- The bottom of a TOR region, 0 for the first entry. -/
def torBase (p : Config) (n : Fin 16) : Nat := if n = 0 then 0 else byteAddr (p.addr (n - 1))

/-- The size of a NAPOT region: 8 bytes, twice as many for every trailing one. -/
def napotSize (w : Word) : Nat := 2 ^ (trailingOnes w.toNat + 3)

/-- Its base: the address without the trailing ones. -/
def napotBase (w : Word) : Nat := 4 * (w.toNat - (2 ^ trailingOnes w.toNat - 1))

/-- The physical addresses that an entry is about. -/
def region (p : Config) (n : Fin 16) : Set Nat :=
  if mode p n = A_TOR then {x | torBase p n ≤ x ∧ x < byteAddr (p.addr n)}
  else if mode p n = A_NA4 then {x | byteAddr (p.addr n) ≤ x ∧ x < byteAddr (p.addr n) + 4}
  else if mode p n = A_NAPOT then {x | napotBase (p.addr n) ≤ x ∧ x < napotBase (p.addr n) + napotSize (p.addr n)}
  else ∅

/-- The lowest-numbered entry whose region contains the address. -/
def Decides (p : Config) (x : Nat) (n : Fin 16) : Prop := x ∈ region p n ∧ ∀ m, m < n → x ∉ region p m

/-- What the deciding entry says. M-mode is exempt unless the entry is locked. -/
def Permits (p : Config) (n : Fin 16) (priv : BitVec 2) (k : Kind) : Prop :=
  (priv = PRV_M ∧ (p.cfg n).getLsbD 7 = false) ∨ (p.cfg n).getLsbD k.bit = true

/-- The decision of the specification. -/
def Allows (p : Config) (priv : BitVec 2) (x : Nat) (k : Kind) : Prop :=
  (∃ n, Decides p x n ∧ Permits p n priv k) ∨ ((∀ n, x ∉ region p n) ∧ priv = PRV_M)

/-- Some entry is in use. -/
def Active (p : Config) : Prop := ∃ n, mode p n ≠ A_OFF

/-- The bits of the address registers that the check implements: `PA[31:2]`. -/
def implemented (p : Config) : Config := { p with addr := fun n => p.addr n &&& 0x3FFFFFFF#32 }

/-! ## Slices -/

variable {p : Config} {priv : BitVec 2} {a : Word} {k : Kind} {n : Fin 16}

/-- The physical word number of the access. -/
theorem toNat_accessHi (a : Word) : (a.extractLsb' 2 30).toNat = a.toNat / 4 := by
  have ha := a.isLt
  simp only [BitVec.extractLsb'_toNat, Nat.shiftRight_eq_div_pow]
  omega

theorem toNat_thisAddr (p : Config) (n : Fin 16) : (thisAddr p n).toNat = ((implemented p).addr n).toNat := by
  have hm : (0x3FFFFFFF#32).toNat = 2 ^ 30 - 1 := rfl
  simp only [thisAddr, implemented, BitVec.extractLsb'_toNat, BitVec.toNat_and, hm, Nat.and_two_pow_sub_one_eq_mod,
    Nat.shiftRight_zero]

theorem toNat_prevAddr (p : Config) (n : Fin 16) : 4 * (prevAddr p n).toNat = torBase (implemented p) n := by
  unfold prevAddr torBase
  split
  · rfl
  · rw [toNat_thisAddr, byteAddr]

@[simp] theorem mode_implemented (p : Config) (n : Fin 16) : mode (implemented p) n = mode p n := rfl

/-! ## Regions -/

theorem matchTor_iff :
    matchTor p a n = true ↔
      torBase (implemented p) n ≤ a.toNat ∧ a.toNat < byteAddr ((implemented p).addr n) := by
  rw [← toNat_prevAddr, byteAddr, ← toNat_thisAddr]
  simp only [matchTor, Bool.and_eq_true, BitVec.ule, BitVec.ult, decide_eq_true_eq, toNat_accessHi]
  omega

theorem matchNa4_iff :
    matchNa4 p a n = true ↔
      byteAddr ((implemented p).addr n) ≤ a.toNat ∧ a.toNat < byteAddr ((implemented p).addr n) + 4 := by
  rw [byteAddr, ← toNat_thisAddr]
  simp only [matchNa4, beq_iff_eq, ← BitVec.toNat_inj, toNat_accessHi]
  omega

/-- The mask clears the run of trailing ones and the zero above it. -/
theorem getLsbD_cmpMask (j : Nat) (hj : j < 30) :
    (cmpMask p n).getLsbD j = decide (trailingOnes (thisAddr p n).toNat < j) := by
  have hx : ((thisAddr p n ^^^ (thisAddr p n + 1)).toNat).testBit j =
      ((thisAddr p n).toNat ^^^ ((thisAddr p n).toNat + 1)).testBit j := by
    rw [BitVec.toNat_xor, BitVec.toNat_add, Nat.testBit_xor, Nat.testBit_xor, Nat.testBit_mod_two_pow]
    simp [hj]
  rw [cmpMask, BitVec.getLsbD_not, BitVec.getLsbD, hx, xor_succ, Nat.testBit_two_pow_sub_one]
  generalize trailingOnes (thisAddr p n).toNat = m
  by_cases h : j < m + 1
  · simp [hj, h, show ¬ m < j by omega]
  · simp [hj, h, show m < j by omega]

/-- Two word numbers that agree under the mask lie in one granule. -/
theorem matchNapot_div :
    matchNapot p a n = true ↔
      a.toNat / 4 / 2 ^ (trailingOnes (thisAddr p n).toNat + 1) =
        (thisAddr p n).toNat / 2 ^ (trailingOnes (thisAddr p n).toNat + 1) := by
  rw [← toNat_accessHi]
  generalize hk : trailingOnes (thisAddr p n).toNat = m
  simp only [matchNapot, beq_iff_eq]
  constructor
  · intro h
    apply Nat.eq_of_testBit_eq
    intro j
    rw [Nat.testBit_div_two_pow, Nat.testBit_div_two_pow]
    by_cases hj : j + (m + 1) < 30
    · have hb := congrArg (fun v => v.getLsbD (j + (m + 1))) h
      simp only [BitVec.getLsbD_and, getLsbD_cmpMask _ hj, hk, show m < j + (m + 1) by omega, decide_true,
        Bool.and_true] at hb
      exact hb
    · rw [BitVec.testBit_toNat, BitVec.testBit_toNat, BitVec.getLsbD_of_ge _ _ (by omega),
        BitVec.getLsbD_of_ge _ _ (by omega)]
  · intro h
    apply BitVec.eq_of_getLsbD_eq
    intro j hj
    rw [BitVec.getLsbD_and, BitVec.getLsbD_and, getLsbD_cmpMask j hj, hk]
    by_cases hm : m < j
    · have hb := congrArg (fun v => v.testBit (j - (m + 1))) h
      simp only [Nat.testBit_div_two_pow, Nat.sub_add_cancel (show m + 1 ≤ j by omega), BitVec.testBit_toNat] at hb
      rw [hb]
    · simp [hm]

theorem matchNapot_iff :
    matchNapot p a n = true ↔
      napotBase ((implemented p).addr n) ≤ a.toNat ∧
        a.toNat < napotBase ((implemented p).addr n) + napotSize ((implemented p).addr n) := by
  rw [matchNapot_div, napotBase, napotSize, ← toNat_thisAddr]
  generalize (thisAddr p n).toNat = x
  have hmod := mod_trailingOnes x
  have hdiv := Nat.div_add_mod x (2 ^ (trailingOnes x + 1))
  have hpow : 2 ^ (trailingOnes x + 3) = 4 * 2 ^ (trailingOnes x + 1) := by rw [Nat.pow_add, Nat.pow_add]; omega
  rw [hmod] at hdiv
  have hbase : x - (2 ^ trailingOnes x - 1) = 2 ^ (trailingOnes x + 1) * (x / 2 ^ (trailingOnes x + 1)) := by omega
  rw [hbase, hpow, Nat.div_eq_iff (Nat.two_pow_pos _), Nat.mul_comm (x / _)]
  generalize 2 ^ (trailingOnes x + 1) * (x / 2 ^ (trailingOnes x + 1)) = b
  have hpos := Nat.two_pow_pos (trailingOnes x + 1)
  omega

/-- An entry matches the addresses of its region. -/
theorem matched_iff : matched p a n = true ↔ a.toNat ∈ region (implemented p) n := by
  unfold matched region
  rw [mode_implemented]
  split
  · exact matchTor_iff
  · split
    · exact matchNa4_iff
    · split
      · exact matchNapot_iff
      · simp

/-! ## The decision -/

theorem allowed_iff : allowed p priv k.access n = true ↔ Permits (implemented p) n priv k := by
  cases k <;> simp [allowed, Permits, implemented, Kind.access, Kind.bit]

/-- The first match of the scan is the entry that decides. -/
theorem find?_matched_iff : (List.finRange 16).find? (matched p a) = some n ↔ Decides (implemented p) a.toNat n := by
  rw [List.find?_eq_some_iff_getElem, matched_iff]
  refine and_congr_right fun _ => ?_
  constructor
  · rintro ⟨i, hi, hn, hbefore⟩ m hm
    rw [List.getElem_finRange] at hn
    rw [← matched_iff]
    have hmi : m.val < i := by
      rw [← hn] at hm
      exact hm
    have hb := hbefore m.val hmi
    rw [List.getElem_finRange] at hb
    simpa using hb
  · intro hbefore
    refine ⟨n.val, by simp, by simp, fun j hj => ?_⟩
    have hb := hbefore ⟨j, by omega⟩ hj
    rw [← matched_iff] at hb
    simpa using hb

theorem decision_iff : decision p priv a k.access = true ↔ Allows (implemented p) priv a.toNat k := by
  unfold decision Allows
  cases hf : (List.finRange 16).find? (matched p a) with
  | some n =>
    have hd := find?_matched_iff.mp hf
    rw [allowed_iff]
    constructor
    · exact fun hp => .inl ⟨n, hd, hp⟩
    · rintro (⟨m, hm, hp⟩ | ⟨hn, -⟩)
      · have he := hf.symm.trans (find?_matched_iff.mpr hm)
        rw [Option.some.injEq] at he
        rw [he]
        exact hp
      · exact absurd hd.1 (hn n)
  | none =>
    have hnone : ∀ n, a.toNat ∉ region (implemented p) n := by
      intro n
      rw [← matched_iff]
      exact List.find?_eq_none.mp hf n (List.mem_finRange n)
    rw [beq_iff_eq]
    constructor
    · exact fun hm => .inr ⟨hnone, hm⟩
    · rintro (⟨n, hd, -⟩ | ⟨-, hm⟩)
      · exact absurd hd.1 (hnone n)
      · exact hm

theorem anyActive_iff : anyActive p = true ↔ Active p := by
  simp [anyActive, Active]

/-- Registers that hold no address above 4 GiB are read in full. -/
theorem implemented_eq (h : ∀ n, p.addr n < 0x40000000#32) : implemented p = p := by
  have haddr : (implemented p).addr = p.addr := by
    funext n
    apply BitVec.eq_of_toNat_eq
    rw [← toNat_thisAddr, thisAddr, BitVec.extractLsb'_toNat, Nat.shiftRight_zero, Nat.mod_eq_of_lt]
    exact BitVec.lt_def.mp (h n)
  exact congrArg (Config.mk p.cfg) haddr

/-- For all configurations and all accesses: the check faults exactly when some entry is in use and the specification,
applied to the implemented bits of the address registers, does not allow the access. These are all the bits when no
register names an address above 4 GiB. -/
theorem fault_specified (p : Config) (priv : BitVec 2) (a : Word) (k : Kind) :
    (fault p priv a k.access = true ↔ Active p ∧ ¬ Allows (implemented p) priv a.toNat k) ∧
      ((∀ n, p.addr n < 0x40000000#32) →
        (fault p priv a k.access = true ↔ Active p ∧ ¬ Allows p priv a.toNat k)) := by
  have hf : fault p priv a k.access = true ↔ Active p ∧ ¬ Allows (implemented p) priv a.toNat k := by
    rw [fault, Bool.and_eq_true, anyActive_iff, Bool.not_eq_true', ← Bool.not_eq_true, decision_iff]
  refine ⟨hf, fun h => ?_⟩
  rw [implemented_eq h] at hf
  exact hf

/-! ## A region that ends at 4 GiB -/

/-- Entry 0 grants all accesses below 4 GiB. -/
def upTo4GiB : Config where
  cfg := fun n => if n = 0 then 0x0F#8 else 0
  addr := fun n => if n = 0 then 0x40000000#32 else 0

/-- The top of the region is cut down to 0, and the grant is lost: the access faults, and the specification on the
registers in full allows it. -/
theorem fault_not_specified :
    fault upTo4GiB PRV_S 0x80000000#32 Kind.read.access = true ∧
      ¬ (Active upTo4GiB ∧ ¬ Allows upTo4GiB PRV_S (0x80000000#32).toNat .read) := by
  have hin : (0x80000000#32).toNat ∈ region upTo4GiB 0 := by
    rw [region, if_pos (by decide)]
    exact ⟨by decide, by decide⟩
  refine ⟨by decide, fun h => h.2 (.inl ⟨0, ⟨hin, fun m hm => absurd hm (Nat.not_lt_zero m)⟩, .inr rfl⟩)⟩

end QinglongCore.Pmp
