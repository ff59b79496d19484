import Mathlib.Tactic.Common

/-!
# Byte memories

Little-endian numbers in a memory of bytes, written and read over any number of bytes.
-/

namespace ByteMemory

variable {w n : Nat}

/-- The number in the `n` bytes from `a` on, the lowest byte first. -/
def read (m : Nat → BitVec 8) (a : Nat) : (n : Nat) → BitVec (8 * n)
  | 0 => 0#0
  | n + 1 => read m (a + 1) n ++ m a

/-- The low `n` bytes of `x` are written from `a` on. -/
def write (m : Nat → BitVec 8) (a n : Nat) (x : BitVec w) (b : Nat) : BitVec 8 :=
  if a ≤ b ∧ b < a + n then x.extractLsb' (8 * (b - a)) 8 else m b

theorem getLsbD_read (m : Nat → BitVec 8) (a n i : Nat) (hi : i < 8 * n) :
    (read m a n).getLsbD i = (m (a + i / 8)).getLsbD (i % 8) := by
  induction n generalizing a i with
  | zero => omega
  | succ n ih =>
    show (read m (a + 1) n ++ m a).getLsbD i = _
    rw [BitVec.getLsbD_append]
    split
    case isTrue hlt =>
      have hd : i / 8 = 0 := by omega
      have hm : i % 8 = i := by omega
      rw [hd, hm, Nat.add_zero]
    case isFalse hge =>
      have hd : a + 1 + (i - 8) / 8 = a + i / 8 := by omega
      have hm : (i - 8) % 8 = i % 8 := by omega
      rw [ih (a + 1) (i - 8) (by omega), hd, hm]

/-- A number is the one read from where its bytes are. -/
theorem eq_read {m : Nat → BitVec 8} {a : Nat} {x : BitVec (8 * n)}
    (h : ∀ k, k < n → x.extractLsb' (8 * k) 8 = m (a + k)) : x = read m a n := by
  apply BitVec.eq_of_getLsbD_eq
  intro i hi
  have hbyte := congrArg (fun b => b.getLsbD (i % 8)) (h (i / 8) (by omega))
  have hlt : i % 8 < 8 := by omega
  have hsplit : 8 * (i / 8) + i % 8 = i := by omega
  simp only [BitVec.getLsbD_extractLsb', hlt, decide_true, Bool.true_and, hsplit] at hbyte
  rw [getLsbD_read m a n i hi, hbyte]

theorem read_congr {m m' : Nat → BitVec 8} {a : Nat} (h : ∀ k, k < n → m (a + k) = m' (a + k)) :
    read m a n = read m' a n := by
  induction n generalizing a with
  | zero => rfl
  | succ n ih =>
    have hrest : read m (a + 1) n = read m' (a + 1) n := ih fun k hk => by
      rw [Nat.add_assoc, Nat.add_comm 1 k]
      exact h (k + 1) (by omega)
    have hlow := h 0 (Nat.succ_pos n)
    rw [Nat.add_zero] at hlow
    rw [read, read, hrest, hlow]

theorem write_in {m : Nat → BitVec 8} {a b : Nat} {x : BitVec w} (h : a ≤ b ∧ b < a + n) :
    write m a n x b = x.extractLsb' (8 * (b - a)) 8 := if_pos h

theorem write_out {m : Nat → BitVec 8} {a b : Nat} {x : BitVec w} (h : b < a ∨ a + n ≤ b) :
    write m a n x b = m b := if_neg (by omega)

theorem write_congr {m m' : Nat → BitVec 8} {b : Nat} (h : m b = m' b) (a n : Nat) (x : BitVec w) :
    write m a n x b = write m' a n x b := by
  unfold write
  rw [h]

/-! ## Seen from another address -/

theorem read_add (m : Nat → BitVec 8) (c a n : Nat) : read m (c + a) n = read (fun l => m (c + l)) a n := by
  induction n generalizing a with
  | zero => rfl
  | succ n ih => exact congrArg (fun y => y ++ m (c + a)) (ih (a + 1))

theorem write_add (m : Nat → BitVec 8) (c a n : Nat) (x : BitVec w) (k : Nat) :
    write m (c + a) n x (c + k) = write (fun l => m (c + l)) a n x k := by
  by_cases h : a ≤ k ∧ k < a + n
  · rw [write_in h, write_in (by omega), Nat.add_sub_add_left]
  · rw [write_out (by omega), write_out (by omega)]

end ByteMemory
