import QinglongCore.Rv32.Effects

/-!
# Programs in memory

Runs that keep to rules on what they execute, read and write, and code that such runs do not overwrite: steps through
placed code, and loops.
-/

namespace Rv32

/-- What a program keeps to: where its instructions are, where it reads data and what it writes. -/
structure Conduct where
  code : BitVec 32 → Prop
  reads : BitVec 32 → Prop
  writes : Write → Prop

/-- The instruction keeps to `C`. -/
structure Conduct.Keeps (C : Conduct) (s : State) (i : Instr) : Prop where
  code : C.code s.pc
  reads : ∀ a, s.reads i = some a → C.reads a
  writes : ∀ w, s.writes i = some w → C.writes w

/-- `n` instructions lead from `s` to `s'`; they keep to `C` and write `l`. -/
structure Goes (C : Conduct) (s : State) (n : Nat) (l : List Write) (s' : State) : Prop where
  run : s.run n = some s'
  keeps : ∀ k x i, k < n → s.run k = some x → x.fetch = some i → C.Keeps x i
  written : s.written n = l

variable {C : Conduct} {s s₁ s' : State} {n m k : Nat} {l l' : List Write} {i : Instr}

/-! ## Runs one behind the other -/

theorem State.run_add (h : s.run n = some s₁) : s.run (n + m) = s₁.run m := by
  induction m with
  | zero => exact h
  | succ m ih =>
      show (s.run (n + m)).bind State.step = (s₁.run m).bind State.step
      rw [ih]

theorem State.written_add (h : s.run n = some s₁) : s.written (n + m) = s.written n ++ s₁.written m := by
  induction m with
  | zero => exact (List.append_nil _).symm
  | succ m ih =>
      show s.written (n + m) ++ ((s.run (n + m)).bind State.write).toList =
        s.written n ++ (s₁.written m ++ ((s₁.run m).bind State.write).toList)
      rw [ih, State.run_add h, List.append_assoc]

namespace Goes

theorem refl (C : Conduct) (s : State) : Goes C s 0 [] s := ⟨rfl, fun _ _ _ hk => absurd hk (Nat.not_lt_zero _), rfl⟩

theorem trans (h : Goes C s n l s₁) (h' : Goes C s₁ m l' s') : Goes C s (n + m) (l ++ l') s' where
  run := (State.run_add h.run).trans h'.run
  keeps k x i hk hx hf := by
    rcases Nat.lt_or_ge k n with hlt | hge
    · exact h.keeps k x i hlt hx hf
    · obtain ⟨j, rfl⟩ := Nat.exists_eq_add_of_le hge
      rw [State.run_add h.run] at hx
      exact h'.keeps j x i (by omega) hx hf
  written := by rw [State.written_add h.run, h.written, h'.written]

theorem one (hf : s.fetch = some i) (he : s.exec i = some s') (hk : C.Keeps s i) :
    Goes C s 1 (s.writes i).toList s' where
  run := by
    show (s.run 0).bind State.step = _
    rw [State.run, Option.bind_some, State.step, hf, Option.bind_some, he]
  keeps k x j hk' hx hj := by
    obtain rfl : k = 0 := by omega
    cases hx
    rw [hf] at hj
    cases hj
    exact hk
  written := by rw [State.written_succ rfl, State.write_of_fetch hf]; rfl

/-- Whatever is written keeps to `C`. -/
theorem writes (h : Goes C s n l s') : ∀ w ∈ l, C.writes w := by
  obtain ⟨hrun, hkeeps, rfl⟩ := h
  induction n generalizing s' with
  | zero => exact fun _ hw => absurd hw List.not_mem_nil
  | succ n ih =>
      obtain ⟨x, j, hx, hd, hw, -⟩ := State.run_last hrun
      have hf := State.fetch_of hd hw
      intro w hw
      rw [State.written_succ hx, State.write_of_fetch hf] at hw
      rcases List.mem_append.mp hw with hw | hw
      · exact ih hx (fun k y i hk => hkeeps k y i (by omega)) w hw
      · exact (hkeeps n x j (Nat.lt_succ_self n) hx hf).writes w (Option.mem_toList.mp hw)

theorem mem (h : Goes C s n l s') : s'.mem = l.foldl (fun m w => w.apply m) s.mem := by
  rw [State.run_mem h.run, h.written]

theorem mem_misses (h : Goes C s n l s') {b : BitVec 32} (hb : ∀ w, C.writes w → w.Misses b) : s'.mem b = s.mem b :=
  State.run_mem_misses h.run fun w hw => hb w (h.writes w (h.written ▸ hw))

end Goes

/-- An invariant that one round of a loop keeps, through all rounds: before round `j` there are `l j` writes. -/
theorem Goes.rounds {I : Nat → State → Prop} {w : Nat → List Write} {c : Nat}
    (hstep : ∀ j x, j < k → I j x → ∃ x', Goes C x c (w j) x' ∧ I (j + 1) x') (h : I 0 s) :
    ∃ s', Goes C s (c * k) ((List.range k).flatMap w) s' ∧ I k s' := by
  induction k with
  | zero => exact ⟨s, Goes.refl C s, h⟩
  | succ k ih =>
      obtain ⟨x, hx, hi⟩ := ih fun j y hj => hstep j y (by omega)
      obtain ⟨x', hx', hi'⟩ := hstep k x (Nat.lt_succ_self k) hi
      refine ⟨x', ?_, hi'⟩
      rw [List.range_succ, List.flatMap_append, List.flatMap_singleton]
      exact hx.trans hx'

/-! ## Code in memory -/

/-- The instructions of `p` are in memory from `a` on. -/
def Code (m : BitVec 32 → BitVec 8) (a : BitVec 32) (p : List Instr) : Prop :=
  ∀ j i, p[j]? = some i → load m (a + BitVec.ofNat 32 (4 * j)) 4 = encode i

/-- Code whose instructions may be executed and are not overwritten. -/
structure Placed (C : Conduct) (a : BitVec 32) (p : List Instr) : Prop where
  aligned : 4 ∣ a.toNat
  fits : a.toNat + 4 * p.length ≤ 2 ^ 32
  code : ∀ j, j < p.length → C.code (a + BitVec.ofNat 32 (4 * j))
  kept : ∀ w, C.writes w → ∀ b, a.toNat ≤ b.toNat → b.toNat < a.toNat + 4 * p.length → w.Misses b

/-- The next instruction is the one after `j` others of `p`. -/
structure At (a : BitVec 32) (p : List Instr) (j : Nat) (s : State) : Prop where
  pc : s.pc = a + BitVec.ofNat 32 (4 * j)
  code : Code s.mem a p

variable {a : BitVec 32} {p q : List Instr} {j : Nat}

theorem load_congr {m m' : BitVec 32 → BitVec 8} {a : BitVec 32} (ha : a.toNat + 4 ≤ 2 ^ 32)
    (h : ∀ b, a.toNat ≤ b.toNat → b.toNat < a.toNat + 4 → m' b = m b) : load m' a 4 = load m a 4 := by
  refine ByteMemory.read_congr fun k hk => ?_
  have hn : (BitVec.ofNat 32 (a.toNat + k)).toNat = a.toNat + k := by
    rw [BitVec.toNat_ofNat]
    omega
  exact h _ (by omega) (by omega)

theorem At.next (h : At a p j s) (hc : Code s'.mem a p) (hpc : s'.pc = s.pc + 4#32) : At a p (j + 1) s' :=
  ⟨by rw [hpc, h.pc, BitVec.add_assoc, BitVec.ofNat_add_ofNat, Nat.mul_add], hc⟩

namespace Placed

variable (hp : Placed C a p)
include hp

theorem toNat_add (hj : j < p.length) : (a + BitVec.ofNat 32 (4 * j)).toNat = a.toNat + 4 * j := by
  have := hp.fits
  rw [BitVec.toNat_add, BitVec.toNat_ofNat]
  omega

theorem at_aligned (h : At a p j s) (hj : j < p.length) : 4 ∣ s.pc.toNat := by
  have := hp.aligned
  rw [h.pc, hp.toNat_add hj]
  omega

theorem code_goes (h : Goes C s n l s') (hc : Code s.mem a p) : Code s'.mem a p := by
  intro j i hi
  have hj : j < p.length := (List.getElem?_eq_some_iff.mp hi).1
  have hn := hp.toNat_add hj
  have hfits := hp.fits
  rw [← hc j i hi]
  refine load_congr (by omega) fun b h₁ h₂ => ?_
  exact h.mem_misses fun w hw => hp.kept w hw b (by omega) (by omega)

/-- One instruction of placed code. -/
theorem step (h : At a p j s) (hi : p[j]? = some i) (he : s.exec i = some s')
    (hr : ∀ b, s.reads i = some b → C.reads b) (hw : ∀ w, s.writes i = some w → C.writes w) :
    Goes C s 1 (s.writes i).toList s' ∧ Code s'.mem a p := by
  have hj : j < p.length := (List.getElem?_eq_some_iff.mp hi).1
  have hd := hp.at_aligned h hj
  have hf := State.fetch_of hd (h.pc ▸ (h.code j i hi).symm)
  have hg := Goes.one hf he ⟨h.pc ▸ hp.code j hj, hr, hw⟩
  exact ⟨hg, hp.code_goes hg h.code⟩

end Placed

end Rv32
