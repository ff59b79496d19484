import QinglongCore.Base.Sync
import QinglongCore.Plic.Lemmas.Pick

/-!
# Clock edges of the interrupt controller
-/

namespace QinglongCore.Plic

variable {N C : Nat} {s : State N C} {i : In N} {c : Fin C} {j : Fin N}

/-- The controller out of reset, for a waveform of bus requests and source lines. -/
abbrev run (N C : Nat) (inp : Nat → In N) : Nat → State N C := Sync.run step (reset N C) inp

theorem run_succ (inp : Nat → In N) (t : Nat) : run N C inp (t + 1) = step (run N C inp t) (inp t) := rfl

/-! ## Bus accesses -/

/-- A read of the claim register of context `c`. -/
def ClaimRead (r : Axi4Master.Req) (c : Fin C) : Prop :=
  r.valid = true ∧ r.wen = false ∧ decode (N := N) r.addr = .claim c

/-- A write of the completion register of context `c`. -/
def CompleteWrite (r : Axi4Master.Req) (c : Fin C) : Prop :=
  r.valid = true ∧ r.wen = true ∧ decode (N := N) r.addr = .claim c

/-- `+ 0x20_0004` and `+ 0x1000` for every further context, in the window of the SoC. -/
def claimAddr (c : Fin C) : Word := 0x0C200004#32 + BitVec.ofNat 32 c.val * 0x1000#32

theorem off_claimAddr (c : Fin C) (hc : c.val < 0xE00) :
    off (claimAddr c) = BitVec.ofNat 32 (0x200004 + c.val * 0x1000) := by
  apply BitVec.eq_of_toNat_eq
  simp only [off, claimAddr, BitVec.toNat_setWidth, BitVec.extractLsb'_toNat, BitVec.toNat_add, BitVec.toNat_mul,
    BitVec.toNat_ofNat]
  omega

theorem ctxRel_claimAddr (c : Fin C) (hc : c.val < 0xE00) :
    ctxRel (claimAddr c) = BitVec.ofNat 32 (4 + c.val * 0x1000) := by
  apply BitVec.eq_of_toNat_eq
  simp only [ctxRel, off_claimAddr c hc, BitVec.toNat_sub, BitVec.toNat_ofNat]
  omega

/-- Each context has its claim register there, as long as the enable words end below the first one. -/
theorem decode_claim (hC : C ≤ 16320) (c : Fin C) (hc : c.val < 0xE00) :
    decode (N := N) (claimAddr c) = .claim c := by
  have hlt := c.isLt
  have hidx : ctxIdx (claimAddr c) = c.val := by
    simp only [ctxIdx, ctxRel_claimAddr c hc, BitVec.toNat_udiv, BitVec.toNat_ofNat, Nat.reducePow, Nat.reduceMod]
    omega
  have hoff : ctxOff (claimAddr c) = 0x004#12 := by
    apply BitVec.eq_of_toNat_eq
    simp only [ctxOff, ctxRel_claimAddr c hc, BitVec.extractLsb'_toNat, BitVec.toNat_ofNat]
    omega
  have hp : inPrioWindow (claimAddr c) = false := by
    simp only [inPrioWindow, off_claimAddr c hc, BitVec.ult, BitVec.toNat_ofNat, decide_eq_false_iff_not]
    omega
  have hq : inPending (claimAddr c) = false := by
    simp only [inPending, off_claimAddr c hc, beq_eq_false_iff_ne, ne_eq, ← BitVec.toNat_inj, BitVec.toNat_ofNat]
    omega
  have he : inEnableWindow C (claimAddr c) = false := by
    simp only [inEnableWindow, off_claimAddr c hc, Bool.and_eq_false_iff, BitVec.ult, BitVec.toNat_ofNat,
      BitVec.toNat_add, BitVec.toNat_mul, decide_eq_false_iff_not]
    omega
  have hw : inCtxWindow C (claimAddr c) = true := by
    simp only [inCtxWindow, off_claimAddr c hc, Bool.and_eq_true, BitVec.ule, BitVec.ult, BitVec.toNat_ofNat,
      BitVec.toNat_add, BitVec.toNat_mul, decide_eq_true_eq]
    omega
  simp [decode, hp, hq, he, hw, hidx, hoff]

theorem step_claimRead {i : In N} (h : ClaimRead (N := N) i.req c) : step s i = claimed s i c := by
  simp [step, h.1, h.2.1, read, h.2.2]

/-- The answer to a claim is the source picked. -/
theorem claimed_rsp {i : In N} (h : ClaimRead (N := N) i.req c) :
    (step s i).rspValid = true ∧ (step s i).rspFault = false ∧
      (step s i).rspRdata = (pickBestSrc s c).setWidth 32 := by
  rw [step_claimRead h]
  dsimp only [claimed]
  split <;> simp [latched, h.1]

/-! ## What a clock edge does to the two vectors -/

/-- A claim of some context takes source `j`. -/
def Takes (s : State N C) (i : In N) (j : Fin N) : Prop :=
  ∃ c, ClaimRead (N := N) i.req c ∧ pickBestSrc s c = BitVec.ofNat _ j.val ∧ j.val ≠ 0

/-- Some context writes the ID `j` to its completion register. -/
def Completes (C : Nat) (i : In N) (j : Fin N) : Prop :=
  ∃ c : Fin C, CompleteWrite (N := N) i.req c ∧ i.req.wdata = BitVec.ofNat 32 j.val

/-- The two vectors after a clock edge: a claim moves its source over, a completion releases it, and nothing else
touches the gateway. -/
inductive Edge (s : State N C) (i : In N) : BitVec N → BitVec N → Prop
  | claim (j : Fin N) (h : Takes s i j) : Edge s i (putBit (gateway s i) j false) (putBit s.inflight j true)
  | complete (j : Fin N) (h : Completes C i j) : Edge s i (gateway s i) (putBit s.inflight j false)
  | other : Edge s i (gateway s i) s.inflight

theorem edge_claimed {c : Fin C} (h : ClaimRead (N := N) i.req c) :
    Edge s i (claimed s i c).pending (claimed s i c).inflight := by
  dsimp only [claimed]
  split
  next hb =>
    have hp := pickBestSrc_picked s c
    cases hk : picked s c with
    | none =>
      rw [hk] at hp
      simp [hp, best] at hb
    | some k =>
      rw [hk] at hp
      have hkz : k.val ≠ 0 := (mem_sources k).mp (Pick.beats sources_ascending hk).1
      rw [show (pickBestSrc s c).toNat = k.val from hp ▸ toNat_id k]
      exact .claim k ⟨c, h, hp, hkz⟩
  next => exact .other

/-- The bits of the bus data that select the source hold every ID. -/
theorem toNat_select {w : Word} (hw : w.toNat < N) : (w.setWidth (Nat.clog 2 N)).toNat = w.toNat := by
  have hp : N ≤ 2 ^ Nat.clog 2 N := Nat.le_pow_clog (by decide) N
  rw [BitVec.toNat_setWidth, Nat.mod_eq_of_lt (by omega)]

theorem edge_completed {c : Fin C} (h : CompleteWrite (N := N) i.req c) :
    Edge s i (completed s i c).pending (completed s i c).inflight := by
  dsimp only [completed]
  split
  next hw =>
    simp only [Bool.and_eq_true, decide_eq_true_eq] at hw
    rw [toNat_select hw.1]
    exact .complete ⟨i.req.wdata.toNat, hw.1⟩ ⟨c, h, by simp⟩
  next => exact .other

theorem edge_write (h : i.req.valid = true ∧ i.req.wen = true) : Edge s i (write s i).pending (write s i).inflight := by
  unfold write
  split
  · split <;> exact .other
  · exact .other
  · exact .other
  · exact .other
  · split <;> exact .other
  next c hd => exact edge_completed ⟨h.1, h.2, hd⟩
  · exact .other

theorem edge_read (h : i.req.valid = true ∧ i.req.wen = false) : Edge s i (read s i).pending (read s i).inflight := by
  unfold read
  split
  · exact .other
  · exact .other
  · exact .other
  · exact .other
  · exact .other
  next c hd => exact edge_claimed ⟨h.1, h.2, hd⟩
  · exact .other

theorem step_edge (s : State N C) (i : In N) : Edge s i (step s i).pending (step s i).inflight := by
  unfold step
  split
  next hv =>
    split
    next hw => exact edge_write ⟨hv, hw⟩
    next hw => exact edge_read ⟨hv, by simpa using hw⟩
  next => exact .other

theorem gateway_bit (hj : j.val ≠ 0) :
    (gateway s i).getLsbD j = (s.pending.getLsbD j || (i.sources.getLsbD j && !s.inflight.getLsbD j)) := by
  rw [gateway, getLsbD_putBit, if_neg (fun h => hj h.1.symm)]
  simp only [BitVec.getLsbD_or, BitVec.getLsbD_and, BitVec.getLsbD_not, j.isLt, decide_true, Bool.true_and]

theorem gateway_zero (hj : j.val = 0) : (gateway s i).getLsbD j = false := by
  rw [gateway, getLsbD_putBit, if_pos ⟨hj.symm, j.isLt⟩]

/-! ## Source 0 -/

theorem step_pending_zero (s : State N C) (i : In N) : (step s i).pending.getLsbD 0 = false := by
  rcases Nat.eq_zero_or_pos N with hz | hpos
  · exact BitVec.getLsbD_of_ge _ _ (by omega)
  · have hg : (gateway s i).getLsbD 0 = false := by rw [gateway, getLsbD_putBit, if_pos ⟨rfl, hpos⟩]
    have he := step_edge s i
    generalize (step s i).pending = p, (step s i).inflight = f at he
    cases he with
    | claim j _ => rw [getLsbD_putBit, hg, ite_self]
    | complete => exact hg
    | other => exact hg

theorem pending_zero (inp : Nat → In N) (t : Nat) : (run N C inp t).pending.getLsbD 0 = false := by
  cases t with
  | zero => exact BitVec.getLsbD_zero
  | succ t => exact step_pending_zero _ _

end QinglongCore.Plic
