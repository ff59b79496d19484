import QinglongCore.Rv32.Programs

/-!
# Assembly

What an assembler makes of `li` and `la`, and one rule for each kind of instruction in straight code.
-/

namespace Rv32

/-! ## Constants in two parts -/

section
variable (d : BitVec 32)

/-- The part of a word that LUI and AUIPC carry. -/
def hi : BitVec 20 := (d + 0x800#32).extractLsb' 12 20

/-- The part of a word that ADDI carries, with its sign. -/
def lo : BitVec 12 := d.extractLsb' 0 12

/-- The upper part makes up for the sign of the lower one. -/
theorem hi_add_lo : (hi d ++ 0#12) + (lo d).signExtend 32 = d := by
  have hh : (hi d ++ 0#12).toNat = (d.toNat + 2048) % 2 ^ 32 / 2 ^ 12 % 2 ^ 20 * 2 ^ 12 := by
    rw [BitVec.toNat_append, hi, BitVec.extractLsb'_toNat, BitVec.toNat_add, Nat.shiftRight_eq_div_pow,
      Nat.shiftLeft_eq]
    exact Nat.or_zero _
  have hl : (lo d).toNat = d.toNat % 4096 := by
    rw [lo, BitVec.extractLsb'_toNat, Nat.shiftRight_zero]
  have hsext : ((lo d).signExtend 32).toNat = d.toNat % 4096 + if 2048 ≤ d.toNat % 4096 then 2 ^ 32 - 4096 else 0 := by
    rw [BitVec.toNat_signExtend, BitVec.msb_eq_decide, hl, BitVec.toNat_setWidth, hl]
    have hmod : d.toNat % 4096 % 2 ^ 32 = d.toNat % 4096 := by omega
    rw [hmod]
    simp only [decide_eq_true_eq]
  apply BitVec.eq_of_toNat_eq
  have hlt := d.isLt
  rw [BitVec.toNat_add, hh, hsext]
  split <;> omega

end

/-- The constant `v` in `rd`; a part that is zero takes no instruction. -/
def li (rd : Reg) (v : BitVec 32) : List Instr :=
  if hi v = 0#20 then [.imm .addi rd 0#5 (lo v)]
  else if lo v = 0#12 then [.lui rd (hi v)]
  else [.lui rd (hi v), .imm .addi rd rd (lo v)]

/-- The address `v` in `rd`, as a distance from the address `a` of the first instruction. -/
def la (rd : Reg) (a v : BitVec 32) : List Instr := [.auipc rd (hi (v - a)), .imm .addi rd rd (lo (v - a))]

/-! ## Registers -/

namespace Regs

variable (r : Regs) (rd x : Reg) (v v' : BitVec 32)

theorem get_set : (r.set rd v).get x = if x = rd ∧ rd ≠ 0#5 then v else r.get x := rfl

theorem set_zero : r.set 0#5 v = r := by
  ext1
  funext y
  rw [get_set, if_neg fun h => h.2 rfl]

theorem set_set : (r.set rd v).set rd v' = r.set rd v' := by
  ext1
  funext y
  rw [get_set, get_set, get_set]
  split_ifs <;> rfl

end Regs

/-! ## Rules -/

variable {C : Conduct} {a : BitVec 32} {p q : List Instr} {j : Nat} {s s' : State} {i : Instr} {rd rs1 rs2 : Reg}
  {v : BitVec 32}

theorem segment_get (h : q <+: p.drop j) {k : Nat} (hk : q[k]? = some i) : p[j + k]? = some i := by
  obtain ⟨r, hr⟩ := h
  rw [← List.getElem?_drop, ← hr, List.getElem?_append_left (List.getElem?_eq_some_iff.mp hk).1, hk]

/-- A jump that links nothing. -/
theorem exec_jump (d : BitVec 20) : s.exec (.jal 0#5 d) = s.goto (s.pc + (d ++ 0#1).signExtend 32) := by
  rw [State.exec, State.set, Regs.set_zero]

namespace Placed

variable (hp : Placed C a p) (h : At a p j s)
include hp h

/-- An instruction that leaves memory alone. -/
theorem silent (hi : p[j]? = some i) (he : s.exec i = some s') (hr : s.reads i = none) (hw : s.writes i = none) :
    Goes C s 1 [] s' ∧ Code s'.mem a p := by
  obtain ⟨hg, hc⟩ := hp.step h hi he (fun b hb => absurd (hr.symm.trans hb) (Option.some_ne_none b).symm)
    fun w hb => absurd (hw.symm.trans hb) (Option.some_ne_none w).symm
  rw [hw] at hg
  exact ⟨hg, hc⟩

/-- An instruction that computes a register. -/
theorem compute (hi : p[j]? = some i) (he : s.exec i = some (s.set rd v).next) (hr : s.reads i = none)
    (hw : s.writes i = none) : Goes C s 1 [] (s.set rd v).next ∧ At a p (j + 1) (s.set rd v).next := by
  obtain ⟨hg, hc⟩ := hp.silent h hi he hr hw
  exact ⟨hg, h.next hc rfl⟩

theorem store {o : StoreOp} {d : BitVec 12} {x : BitVec 32} (hi : p[j]? = some (.store o rs1 rs2 d))
    (hx : s.regs.get rs1 + d.signExtend 32 = x) (hd : o.width ∣ x.toNat) (hw : C.writes ⟨o, x, s.regs.get rs2⟩) :
    ∃ s', Goes C s 1 [⟨o, x, s.regs.get rs2⟩] s' ∧ At a p (j + 1) s' ∧ s'.regs = s.regs := by
  have hwr : s.writes (.store o rs1 rs2 d) = some ⟨o, x, s.regs.get rs2⟩ := by rw [State.writes, hx]
  obtain ⟨hg, hc⟩ := hp.step h hi (by rw [State.exec, hx]; exact if_pos hd) (fun _ hb => by cases hb) fun w hw' => by
    rw [hwr, Option.some_inj] at hw'
    exact hw' ▸ hw
  rw [hwr] at hg
  exact ⟨_, hg, h.next hc rfl, rfl⟩

/-- `ADDI` after `LUI` or `AUIPC`. -/
theorem addi {d : BitVec 12} (hi : p[j]? = some (.imm .addi rd rs1 d)) (hv : s.regs.get rs1 + d.signExtend 32 = v) :
    ∃ s', Goes C s 1 [] s' ∧ At a p (j + 1) s' ∧ s'.regs = s.regs.set rd v := by
  obtain ⟨hg, ha⟩ := hp.compute h hi (by rw [State.exec, ImmOp.value, hv]) rfl rfl
  exact ⟨_, hg, ha, rfl⟩

theorem li_run (hrd : rd ≠ 0#5) (hseg : li rd v <+: p.drop j) : ∃ s', Goes C s (li rd v).length [] s' ∧
    At a p (j + (li rd v).length) s' ∧ s'.regs = s.regs.set rd v := by
  have hsum := hi_add_lo v
  unfold li at hseg ⊢
  split_ifs at hseg ⊢ with h₁ h₂
  · rw [h₁] at hsum
    have hv : s.regs.get 0#5 + (lo v).signExtend 32 = v := by rw [s.regs.get_zero]; exact hsum
    exact hp.addi h (segment_get (k := 0) hseg rfl) hv
  · rw [h₂] at hsum
    have hv : hi v ++ 0#12 = v := by simpa using hsum
    obtain ⟨hg, ha⟩ := hp.compute h (segment_get (k := 0) hseg rfl) (by rw [State.exec, hv]) rfl rfl
    exact ⟨_, hg, ha, rfl⟩
  · obtain ⟨hg, ha⟩ := hp.compute h (segment_get (k := 0) hseg rfl) (by rw [State.exec]) rfl rfl
    obtain ⟨s', hg', ha', hr⟩ := hp.addi ha (segment_get (k := 1) hseg rfl) (by
      show (s.regs.set rd _).get rd + _ = v
      rw [Regs.get_set, if_pos ⟨rfl, hrd⟩, hsum])
    exact ⟨s', hg.trans hg', ha', hr.trans (Regs.set_set _ _ _ _)⟩

theorem la_run (hrd : rd ≠ 0#5) (hseg : la rd (a + BitVec.ofNat 32 (4 * j)) v <+: p.drop j) :
    ∃ s', Goes C s 2 [] s' ∧ At a p (j + 2) s' ∧ s'.regs = s.regs.set rd v := by
  obtain ⟨hg, ha⟩ := hp.compute h (segment_get (k := 0) hseg rfl) (by rw [State.exec]) rfl rfl
  obtain ⟨s', hg', ha', hr⟩ := hp.addi ha (segment_get (k := 1) hseg rfl) (by
    show (s.regs.set rd _).get rd + _ = v
    rw [Regs.get_set, if_pos ⟨rfl, hrd⟩, h.pc, BitVec.add_assoc, hi_add_lo, BitVec.add_comm, BitVec.sub_add_cancel])
  exact ⟨s', hg.trans hg', ha', hr.trans (Regs.set_set _ _ _ _)⟩

/-- The address of another instruction, from the pc on. -/
theorem target {k : Nat} {d : BitVec 32} (hk : BitVec.ofNat 32 (4 * j) + d = BitVec.ofNat 32 (4 * k)) :
    s.goto (s.pc + d) = some { s with pc := a + BitVec.ofNat 32 (4 * k) } := by
  have hd : 4 ∣ (a + BitVec.ofNat 32 (4 * k)).toNat := by
    have := hp.aligned
    rw [BitVec.toNat_add, BitVec.toNat_ofNat]
    omega
  rw [h.pc, BitVec.add_assoc, hk, State.goto, if_pos hd]

theorem jump {k : Nat} {d : BitVec 20} (hi : p[j]? = some (.jal 0#5 d))
    (hk : BitVec.ofNat 32 (4 * j) + (d ++ 0#1).signExtend 32 = BitVec.ofNat 32 (4 * k)) :
    Goes C s 1 [] { s with pc := a + BitVec.ofNat 32 (4 * k) } ∧
      At a p k { s with pc := a + BitVec.ofNat 32 (4 * k) } := by
  obtain ⟨hg, hc⟩ := hp.silent h hi ((exec_jump d).trans (hp.target h hk)) rfl rfl
  exact ⟨hg, rfl, hc⟩

/-- A branch goes to `k`, or on. -/
theorem branch {k : Nat} {o : BranchOp} {d : BitVec 12} (hi : p[j]? = some (.branch o rs1 rs2 d))
    (hk : BitVec.ofNat 32 (4 * j) + (d ++ 0#1).signExtend 32 = BitVec.ofNat 32 (4 * k)) : ∃ s', Goes C s 1 [] s' ∧
      At a p (if o.holds (s.regs.get rs1) (s.regs.get rs2) then k else j + 1) s' ∧ s'.regs = s.regs := by
  cases ho : o.holds (s.regs.get rs1) (s.regs.get rs2)
  · have he : s.exec (.branch o rs1 rs2 d) = some s.next := by
      rw [State.exec, ho]
      rfl
    obtain ⟨hg, hc⟩ := hp.silent h hi he rfl rfl
    exact ⟨s.next, hg, h.next hc rfl, rfl⟩
  · have he : s.exec (.branch o rs1 rs2 d) = some { s with pc := a + BitVec.ofNat 32 (4 * k) } := by
      rw [State.exec, ho, if_pos rfl, hp.target h hk]
    obtain ⟨hg, hc⟩ := hp.silent h hi he rfl rfl
    exact ⟨_, hg, ⟨rfl, hc⟩, rfl⟩

theorem spin (hi : p[j]? = some (.jal 0#5 0#20)) (m : Nat) : Goes C s m [] s := by
  obtain ⟨hg, -⟩ := hp.jump h hi (k := j) (BitVec.add_zero _)
  have hs : { s with pc := a + BitVec.ofNat 32 (4 * j) } = s := by rw [← h.pc]
  rw [hs] at hg
  induction m with
  | zero => exact Goes.refl C s
  | succ m ih => exact ih.trans hg

end Placed

end Rv32
