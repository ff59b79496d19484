import QinglongCore.Csr.Lemmas.Edges
import QinglongCore.Rtl.Soc

/-!
# Locked PMP entries

The lock bit guards the byte of an entry in its `pmpcfg` word and two address registers: that of the entry
and, for a TOR entry, the one below it.
-/

namespace QinglongCore.Csr

variable {s s' : State} {e : Ext} {i : In} {a : BitVec 12} {v : Word} {n : Fin 16}

/-! ## The bytes of a `pmpcfg` word -/

theorem cfgByte_append (b₃ b₂ b₁ b₀ : BitVec 8) : cfgByte (b₃ ++ b₂ ++ b₁ ++ b₀) 0 = b₀ ∧
    cfgByte (b₃ ++ b₂ ++ b₁ ++ b₀) 1 = b₁ ∧ cfgByte (b₃ ++ b₂ ++ b₁ ++ b₀) 2 = b₂ ∧
    cfgByte (b₃ ++ b₂ ++ b₁ ++ b₀) 3 = b₃ := by
  refine ⟨?_, ?_, ?_, ?_⟩
  all_goals
    unfold cfgByte
    ext k hk
    simp only [BitVec.getElem_extractLsb', BitVec.getLsbD_append]
    grind

/-- A locked byte keeps its value. -/
theorem cfgByte_writeMask (old new : Word) {b : Nat} (hb : b < 4) :
    cfgByte (pmpcfgWriteMask old new) b = if (cfgByte old b).getLsbD 7 then cfgByte old b else cfgByte new b := by
  unfold pmpcfgWriteMask
  dsimp only
  obtain ⟨h₀, h₁, h₂, h₃⟩ := cfgByte_append
    (if (cfgByte old 3).getLsbD 7 then cfgByte old 3 else cfgByte new 3)
    (if (cfgByte old 2).getLsbD 7 then cfgByte old 2 else cfgByte new 2)
    (if (cfgByte old 1).getLsbD 7 then cfgByte old 1 else cfgByte new 1)
    (if (cfgByte old 0).getLsbD 7 then cfgByte old 0 else cfgByte new 0)
  match b, hb with
  | 0, _ => exact h₀
  | 1, _ => exact h₁
  | 2, _ => exact h₂
  | 3, _ => exact h₃

/-! ## Writes -/

theorem writeMux_pmpcfg (s : State) (a : BitVec 12) (v : Word) (m : Fin 4) :
    (writeMux s a v).pmpcfg m = s.pmpcfg m ∨ (writeMux s a v).pmpcfg m = pmpcfgWriteMask (s.pmpcfg m) v := by
  have hkept : ∀ {c : Prop} [Decidable c] {x y : State}, x.pmpcfg = s.pmpcfg →
      (y.pmpcfg m = s.pmpcfg m ∨ y.pmpcfg m = pmpcfgWriteMask (s.pmpcfg m) v) →
      ((if c then x else y).pmpcfg m = s.pmpcfg m ∨
        (if c then x else y).pmpcfg m = pmpcfgWriteMask (s.pmpcfg m) v) := by
    intro c _ x y hx hy
    split
    · exact Or.inl (by rw [hx])
    · exact hy
  unfold writeMux
  iterate 23 refine hkept rfl ?_
  split
  · next k _ =>
      by_cases hm : m = k
      · subst hm; exact Or.inr (if_pos rfl)
      · exact Or.inl (if_neg hm)
  · exact Or.inl rfl
  · exact Or.inl rfl

theorem writeMux_pmpaddr (h : pmpaddrLocked s n = true) (a : BitVec 12) (v : Word) :
    (writeMux s a v).pmpaddr n = s.pmpaddr n := by
  have hkept : ∀ {c : Prop} [Decidable c] {x y : State}, x.pmpaddr n = s.pmpaddr n →
      y.pmpaddr n = s.pmpaddr n → (if c then x else y).pmpaddr n = s.pmpaddr n :=
    fun hx hy => mux_kept (fun x => x.pmpaddr n) hx hy
  unfold writeMux
  iterate 23 refine hkept rfl ?_
  split
  · rfl
  · next k _ _ =>
      by_cases hm : n = k
      · subst hm; simp [h]
      · simp [hm]
  · rfl

/-! ## Locked entries -/

/-- What a locked entry of `s` finds in `s'`. -/
structure LockKept (s s' : State) (n : Fin 16) : Prop where
  cfg : pmpCfgOut s' n = pmpCfgOut s n
  addr : s'.pmpaddr n = s.pmpaddr n
  below : pmpAIsTor s n = true → 0 < n → s'.pmpaddr (n - 1) = s.pmpaddr (n - 1)

theorem LockKept.refl (s : State) (n : Fin 16) : LockKept s s n := ⟨rfl, rfl, fun _ _ => rfl⟩

theorem LockKept.of_regs (hc : s'.pmpcfg = s.pmpcfg) (ha : s'.pmpaddr = s.pmpaddr) : LockKept s s' n where
  cfg := by unfold pmpCfgOut; rw [hc]
  addr := by rw [ha]
  below _ _ := by rw [ha]

theorem LockKept.lock (h : LockKept s s' n) : pmpL s' n = pmpL s n := by
  unfold pmpL
  rw [h.cfg]

theorem LockKept.trans {s'' : State} (h : LockKept s s' n) (h' : LockKept s' s'' n) : LockKept s s'' n where
  cfg := h'.cfg.trans h.cfg
  addr := h'.addr.trans h.addr
  below ht hn := by
    have ht' : pmpAIsTor s' n = true := by
      unfold pmpAIsTor at ht ⊢
      rw [h.cfg]
      exact ht
    exact (h'.below ht' hn).trans (h.below ht hn)

theorem val_below : ∀ n : Fin 16, 0 < n → (n - 1).val + 1 = n.val := by decide

/-- The neighbour rule covers the register below a locked TOR entry. -/
theorem pmpaddrLocked_below (hl : pmpL s n = true) (ht : pmpAIsTor s n = true) (hn : 0 < n) :
    pmpaddrLocked s (n - 1) = true := by
  have hval := val_below n hn
  have hlt : (n - 1).val + 1 < 16 := by omega
  have hnext : (⟨(n - 1).val + 1, hlt⟩ : Fin 16) = n := Fin.ext hval
  unfold pmpaddrLocked
  rw [dif_pos hlt, hnext, hl, ht]
  simp

theorem pmpaddrLocked_self (hl : pmpL s n = true) : pmpaddrLocked s n = true := by
  unfold pmpaddrLocked
  split <;> simp [hl]

theorem LockKept.of_write (hl : pmpL s n = true) (a : BitVec 12) (v : Word) :
    LockKept s (writeMux s a v) n where
  cfg := by
    have hb : n.val % 4 < 4 := Nat.mod_lt _ (by decide)
    unfold pmpL pmpCfgOut at hl
    unfold pmpCfgOut
    rcases writeMux_pmpcfg s a v (Fin.ofNat 4 (n / 4)) with h | h
    · rw [h]
    · rw [h, cfgByte_writeMask _ _ hb, if_pos hl]
  addr := writeMux_pmpaddr (pmpaddrLocked_self hl) a v
  below ht hn := writeMux_pmpaddr (pmpaddrLocked_below hl ht hn) a v

/-- One clock edge keeps what a locked entry consists of. -/
theorem LockKept.of_step (hl : pmpL s n = true) (e : Ext) (i : In) : LockKept s (step s e i) n := by
  rcases step_cases s e i with ⟨-, -, h⟩ | ⟨-, -, h⟩ | ⟨-, h⟩ | ⟨-, h⟩ | ⟨-, h⟩ | ⟨-, -, -, -, h⟩
  · rw [h]; exact .of_regs rfl rfl
  · rw [h]; exact .of_regs rfl rfl
  · rw [h]; exact .of_regs rfl rfl
  · rw [h]; exact .of_regs rfl rfl
  · rw [h]
    have ht : LockKept s (tick s e i) n := .of_regs rfl rfl
    exact ht.trans (.of_write (ht.lock.trans hl) _ _)
  · rw [h]; exact .of_regs rfl rfl

theorem LockKept.of_run {s₀ : State} {ext : Nat → Ext} {inp : Nat → In} {t u : Nat} (htu : t ≤ u)
    (hl : pmpL (run s₀ ext inp t) n = true) : LockKept (run s₀ ext inp t) (run s₀ ext inp u) n := by
  induction u, htu using Nat.le_induction with
  | base => exact .refl _ n
  | succ u _ ih =>
      rw [run_succ]
      exact ih.trans (.of_step (ih.lock.trans hl) _ _)

/-! ## What the checker decodes -/

theorem pmpConfig_cfg (s : State) (n : Fin 16) : (Soc.pmpConfig s).cfg n = pmpCfgOut s n := by
  have hi : (Fin.ofNat 4 (n / 4)) = (⟨n.val / 4, by omega⟩ : Fin 4) := Fin.ext (Nat.mod_eq_of_lt (by omega))
  unfold pmpCfgOut cfgByte Soc.pmpConfig
  rw [hi, Nat.mul_comm]

/-- The region and the permissions of a locked entry do not move. -/
theorem LockKept.checker (h : LockKept s s' n) :
    (∀ pa, Pmp.matched (Soc.pmpConfig s') pa n = Pmp.matched (Soc.pmpConfig s) pa n) ∧
      ∀ priv k, Pmp.allowed (Soc.pmpConfig s') priv k n = Pmp.allowed (Soc.pmpConfig s) priv k n := by
  have hcfg : (Soc.pmpConfig s').cfg n = (Soc.pmpConfig s).cfg n := by
    rw [pmpConfig_cfg, pmpConfig_cfg, h.cfg]
  have hmode : Pmp.mode (Soc.pmpConfig s') n = Pmp.mode (Soc.pmpConfig s) n := by
    unfold Pmp.mode
    rw [hcfg]
  have hthis : Pmp.thisAddr (Soc.pmpConfig s') n = Pmp.thisAddr (Soc.pmpConfig s) n :=
    congrArg (·.extractLsb' 0 30) h.addr
  refine ⟨fun pa => ?_, fun priv k => ?_⟩
  · have htor : Pmp.mode (Soc.pmpConfig s) n = Pmp.A_TOR →
        Pmp.matchTor (Soc.pmpConfig s') pa n = Pmp.matchTor (Soc.pmpConfig s) pa n := by
      intro hm
      have htor : pmpAIsTor s n = true := by
        unfold Pmp.mode at hm
        rw [pmpConfig_cfg] at hm
        exact beq_iff_eq.mpr hm
      have hprev : Pmp.prevAddr (Soc.pmpConfig s') n = Pmp.prevAddr (Soc.pmpConfig s) n := by
        unfold Pmp.prevAddr
        by_cases hz : n = 0
        · rw [if_pos hz, if_pos hz]
        · rw [if_neg hz, if_neg hz]
          exact congrArg (·.extractLsb' 0 30) (h.below htor (Fin.pos_iff_ne_zero.mpr hz))
      unfold Pmp.matchTor
      rw [hprev, hthis]
    unfold Pmp.matched
    rw [hmode]
    by_cases hm : Pmp.mode (Soc.pmpConfig s) n = Pmp.A_TOR
    · rw [if_pos hm, if_pos hm, htor hm]
    · rw [if_neg hm, if_neg hm]
      unfold Pmp.matchNa4 Pmp.matchNapot Pmp.cmpMask
      rw [hthis]
  · unfold Pmp.allowed
    rw [hcfg]

/-- From the cycle on in which an entry is locked, nothing that it consists of changes, and it matches the same
addresses with the same permissions. -/
theorem pmp_lock_permanent (s₀ : State) (ext : Nat → Ext) (inp : Nat → In) (n : Fin 16) (t u : Nat) (htu : t ≤ u)
    (hl : pmpL (run s₀ ext inp t) n = true) :
    LockKept (run s₀ ext inp t) (run s₀ ext inp u) n ∧ pmpL (run s₀ ext inp u) n = true ∧
      (∀ pa, Pmp.matched (Soc.pmpConfig (run s₀ ext inp u)) pa n =
        Pmp.matched (Soc.pmpConfig (run s₀ ext inp t)) pa n) ∧
      ∀ priv k, Pmp.allowed (Soc.pmpConfig (run s₀ ext inp u)) priv k n =
        Pmp.allowed (Soc.pmpConfig (run s₀ ext inp t)) priv k n := by
  have h := LockKept.of_run htu hl
  exact ⟨h, h.lock.trans hl, h.checker.1, h.checker.2⟩

/-- Entry 1 is made a locked TOR entry; then its cfg byte and the address below it are written. -/
def reopenLocked : Nat → In
  | 0 => csrrw CSR_PMPADDR0 0x1000#32
  | 1 => csrrw CSR_PMPCFG0 0x00008F00#32
  | 2 => csrrw CSR_PMPCFG0 0#32
  | 3 => csrrw CSR_PMPADDR0 0#32
  | _ => idleCmd

theorem pmp_lock_permanent_tor :
    LockKept (run reset (fun _ => ⟨false, false, false, false, 0⟩) reopenLocked 2)
        (run reset (fun _ => ⟨false, false, false, false, 0⟩) reopenLocked 4) 1 ∧
      (run reset (fun _ => ⟨false, false, false, false, 0⟩) reopenLocked 4).pmpaddr 0 = 0x1000#32 :=
  ⟨(pmp_lock_permanent reset (fun _ => ⟨false, false, false, false, 0⟩) reopenLocked 1 2 4 (by decide)
    (by decide)).1, by decide⟩

end QinglongCore.Csr
