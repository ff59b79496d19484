import Mathlib.Algebra.Group.Nat.Defs
import Mathlib.Tactic.Common

/-!
# The run of trailing ones of a number

`x ^^^ (x + 1)` is one on the run and on the zero above it.
-/

/-- The length of the run of ones at the low end. -/
def trailingOnes (x : Nat) : Nat := if x % 2 = 1 then trailingOnes (x / 2) + 1 else 0
termination_by x
decreasing_by omega

theorem trailingOnes_odd {x : Nat} (h : x % 2 = 1) : trailingOnes x = trailingOnes (x / 2) + 1 := by
  rw [trailingOnes, if_pos h]

theorem trailingOnes_even {x : Nat} (h : ¬ x % 2 = 1) : trailingOnes x = 0 := by
  rw [trailingOnes, if_neg h]

/-- Below and at the zero above the run there is nothing but the run. -/
theorem mod_trailingOnes (x : Nat) : x % 2 ^ (trailingOnes x + 1) = 2 ^ trailingOnes x - 1 := by
  induction x using trailingOnes.induct with
  | case1 x h ih =>
    have hp := Nat.one_le_two_pow (n := trailingOnes (x / 2))
    rw [trailingOnes_odd h, Nat.pow_succ' (n := trailingOnes (x / 2) + 1), Nat.mod_mul, ih, h, Nat.pow_succ']
    omega
  | case2 x h =>
    rw [trailingOnes_even h]
    simpa using h

theorem xor_succ (x : Nat) : x ^^^ (x + 1) = 2 ^ (trailingOnes x + 1) - 1 := by
  have hmod (y : Nat) : (y ^^^ (y + 1)) % 2 = 1 := by
    rw [Nat.xor_mod_two_eq_one]
    omega
  have hdiv := Nat.xor_div_two (a := x) (b := x + 1)
  have hx := hmod x
  induction x using trailingOnes.induct with
  | case1 x h ih =>
    have hp := Nat.one_le_two_pow (n := trailingOnes (x / 2) + 1)
    rw [show (x + 1) / 2 = x / 2 + 1 by omega, ih Nat.xor_div_two (hmod _)] at hdiv
    rw [trailingOnes_odd h, Nat.pow_succ' (n := trailingOnes (x / 2) + 1)]
    omega
  | case2 x h =>
    rw [show (x + 1) / 2 = x / 2 by omega, Nat.xor_self] at hdiv
    rw [trailingOnes_even h]
    omega
