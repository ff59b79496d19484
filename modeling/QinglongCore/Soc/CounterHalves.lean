import QinglongCore.Csr.Lemmas.Edges
import QinglongCore.Rtl.Clint

/-!
# Writes to one half of a counter

The CSR file stops a counter in the cycle in which one of its halves is written. The CLINT does not: the carry out of
the low half that a write replaces goes into the high half.
-/

namespace QinglongCore

/-- What a write of `v` to one half of a counter may leave: the other half as it was, a low half that is not written
and `counts` perhaps one on. -/
def HalfWritten (h : Half) (old new : BitVec 64) (v : Word) (counts : Bool) : Prop :=
  match h with
  | .lo => half new .lo = v ∧ half new .hi = half old .hi
  | .hi => half new .hi = v ∧ (half new .lo = half old .lo ∨ (counts = true ∧ half new .lo = half old .lo + 1))

/-! ## The two halves -/

theorem half_putHalf_same (v : BitVec 64) (h : Half) (w : Word) : half (putHalf v h w) h = w := by
  cases h
  · exact BitVec.extractLsb'_append_eq_right
  · exact BitVec.extractLsb'_append_eq_left

theorem half_putHalf_lo (v : BitVec 64) (w : Word) : half (putHalf v .lo w) .hi = half v .hi :=
  BitVec.extractLsb'_append_eq_left

theorem half_putHalf_hi (v : BitVec 64) (w : Word) : half (putHalf v .hi w) .lo = half v .lo :=
  BitVec.extractLsb'_append_eq_right

theorem half_lo_add_one (v : BitVec 64) : half (v + 1) .lo = half v .lo + 1 := by
  apply BitVec.eq_of_toNat_eq
  simp only [half, BitVec.extractLsb'_toNat, BitVec.toNat_add, BitVec.ofNat_eq_ofNat, BitVec.toNat_ofNat,
    Nat.shiftRight_zero]
  omega

/-- Counting carries into the high half exactly from the last value of the low one. -/
theorem half_hi_add_one (v : BitVec 64) : half (v + 1) .hi = half v .hi ↔ half v .lo ≠ 0xFFFFFFFF#32 := by
  have hv := v.isLt
  simp only [ne_eq, ← BitVec.toNat_inj, half, BitVec.extractLsb'_toNat, BitVec.toNat_add, BitVec.ofNat_eq_ofNat,
    BitVec.toNat_ofNat, Nat.shiftRight_eq_div_pow]
  omega

/-- A half that is replaced in a counter that stands still. -/
theorem halfWritten_putHalf (h : Half) (v : BitVec 64) (w : Word) (counts : Bool) :
    HalfWritten h v (putHalf v h w) w counts := by
  cases h
  · exact ⟨half_putHalf_same v .lo w, half_putHalf_lo v w⟩
  · exact ⟨half_putHalf_same v .hi w, .inl (half_putHalf_hi v w)⟩

/-- A half that is replaced in a counter that runs. -/
theorem halfWritten_counted (h : Half) (v : BitVec 64) (w : Word) :
    HalfWritten h v (putHalf (v + 1) h w) w true ↔ ¬ (h = .lo ∧ half v .lo = 0xFFFFFFFF#32) := by
  cases h
  · simp only [HalfWritten, half_putHalf_same, half_putHalf_lo, half_hi_add_one, true_and]
  · have hne : Half.hi ≠ .lo := by decide
    simp only [HalfWritten, half_putHalf_same, half_putHalf_hi, half_lo_add_one, hne, true_and, or_true, false_and,
      not_false_eq_true]

/-! ## The CLINT -/

namespace Clint

/-- The CLINT out of reset, for a stream of bus requests. -/
abbrev run (inp : Nat → Axi4Master.Req) : Nat → State := Sync.run step reset inp

theorem run_succ (inp : Nat → Axi4Master.Req) (t : Nat) : run inp (t + 1) = step (run inp t) (inp t) := rfl

def offMtime : Half → BitVec 16
  | .lo => OFF_MTIME_LO
  | .hi => OFF_MTIME_HI

/-- A bus write to one half of `mtime`. -/
def WritesMtime (r : Axi4Master.Req) (h : Half) : Prop := r.valid = true ∧ r.wen = true ∧ off r = offMtime h

theorem step_writesMtime {s : State} {r : Axi4Master.Req} {h : Half} (hw : WritesMtime r h) :
    (step s r).mtime = putHalf (s.mtime + 1) h (mergeBytes (half s.mtime h) r.wdata r.wmask) := by
  obtain ⟨hv, hwen, ho⟩ := hw
  have hhit : addrAnyHit r = true := by
    rw [addrAnyHit, ho]
    cases h <;> rfl
  rw [step, if_pos hv, hhit, if_neg (by decide), if_pos hwen]
  unfold write
  rw [ho]
  cases h <;> rfl

end Clint

/-! ## The CSR file -/

namespace Csr

def addrMcycle : Half → BitVec 12
  | .lo => CSR_MCYCLE
  | .hi => CSR_MCYCLEH

def addrMinstret : Half → BitVec 12
  | .lo => CSR_MINSTRET
  | .hi => CSR_MINSTRETH

variable {s : State} {e : Ext} {i : In} {h : Half}

theorem step_writes (hw : writes s e i = true) :
    step s e i = writeMux (tick s e i) i.csrAddr (newVal s e i) ∧ doWrite s e i = true := by
  have hd : doWrite s e i = true := by
    simp only [writes, Bool.and_eq_true] at hw
    exact hw.2
  obtain ⟨ht, hm, hs, -⟩ := writes_elim hw
  exact ⟨by simp [step, ht, hm, hs, hd], hd⟩

theorem writeMux_mcycle (x : State) (v : Word) : (writeMux x (addrMcycle h) v).mcycle = putHalf x.mcycle h v := by
  cases h <;> rfl

theorem writeMux_minstret (x : State) (v : Word) :
    (writeMux x (addrMinstret h) v).minstret = putHalf x.minstret h v := by
  cases h <;> rfl

/-- A write stops the counter that it goes to. -/
theorem tick_stopped (hd : doWrite s e i = true) :
    (i.csrAddr = addrMcycle h → (tick s e i).mcycle = s.mcycle) ∧
      (i.csrAddr = addrMinstret h → (tick s e i).minstret = s.minstret) := by
  refine ⟨fun ha => ?_, fun ha => ?_⟩
  · have hm : (i.csrAddr == CSR_MCYCLE || i.csrAddr == CSR_MCYCLEH) = true := by
      rw [ha]
      cases h <;> rfl
    simp only [tick, hd, hm, Bool.and_self, if_true]
  · have hm : (i.csrAddr == CSR_MINSTRET || i.csrAddr == CSR_MINSTRETH) = true := by
      rw [ha]
      cases h <;> rfl
    simp only [tick, hd, hm, Bool.and_self, Bool.not_true, Bool.and_false, Bool.false_eq_true, if_false]

theorem step_mcycle (hw : writes s e i = true) (ha : i.csrAddr = addrMcycle h) :
    (step s e i).mcycle = putHalf s.mcycle h (newVal s e i) := by
  obtain ⟨hs, hd⟩ := step_writes hw
  rw [hs, ha, writeMux_mcycle, (tick_stopped hd).1 ha]

theorem step_minstret (hw : writes s e i = true) (ha : i.csrAddr = addrMinstret h) :
    (step s e i).minstret = putHalf s.minstret h (newVal s e i) := by
  obtain ⟨hs, hd⟩ := step_writes hw
  rw [hs, ha, writeMux_minstret, (tick_stopped hd).2 ha]

end Csr

/-! ## The three counters -/

/-- In every run a CSR write of one half of `mcycle` or `minstret` leaves the other half as it was. A bus write of one
half of `mtime` does so, but for the count in a low half that is not written, exactly when it does not replace a low
half that is all ones. -/
theorem half_writes (req : Nat → Axi4Master.Req) (ext : Nat → Ext) (inp : Nat → Csr.In) (t : Nat) (h : Half) :
    (Clint.WritesMtime (req t) h →
      (HalfWritten h (Clint.run req t).mtime (Clint.run req (t + 1)).mtime
          (mergeBytes (half (Clint.run req t).mtime h) (req t).wdata (req t).wmask) true ↔
        ¬ (h = .lo ∧ half (Clint.run req t).mtime .lo = 0xFFFFFFFF#32))) ∧
      (Csr.writes (Csr.run Csr.reset ext inp t) (ext t) (inp t) = true →
        ((inp t).csrAddr = Csr.addrMcycle h →
          HalfWritten h (Csr.run Csr.reset ext inp t).mcycle (Csr.run Csr.reset ext inp (t + 1)).mcycle
            (Csr.newVal (Csr.run Csr.reset ext inp t) (ext t) (inp t)) false) ∧
        ((inp t).csrAddr = Csr.addrMinstret h →
          HalfWritten h (Csr.run Csr.reset ext inp t).minstret (Csr.run Csr.reset ext inp (t + 1)).minstret
            (Csr.newVal (Csr.run Csr.reset ext inp t) (ext t) (inp t)) false)) := by
  refine ⟨fun hw => ?_, fun hw => ⟨fun ha => ?_, fun ha => ?_⟩⟩
  · rw [Clint.run_succ, Clint.step_writesMtime hw]
    exact halfWritten_counted h _ _
  · rw [Csr.run_succ, Csr.step_mcycle hw ha]
    exact halfWritten_putHalf h _ _ _
  · rw [Csr.run_succ, Csr.step_minstret hw ha]
    exact halfWritten_putHalf h _ _ _

/-- The low half of `mtime` is set to all ones, and then to zero. -/
def wrapMtime (t : Nat) : Axi4Master.Req :=
  { valid := true, addr := 0x0200BFF8, wen := true, wdata := if t = 0 then 0xFFFFFFFF else 0, wmask := 0b1111 }

/-- The second write finds the high half at 0 and leaves it at 1. -/
theorem half_write_carries :
    Clint.WritesMtime (wrapMtime 1) .lo ∧ (Clint.run wrapMtime 1).mtime = 0xFFFFFFFF#64 ∧
      (Clint.run wrapMtime 2).mtime = 0x100000000#64 ∧
      ¬ HalfWritten .lo (Clint.run wrapMtime 1).mtime (Clint.run wrapMtime 2).mtime
        (mergeBytes (half (Clint.run wrapMtime 1).mtime .lo) (wrapMtime 1).wdata (wrapMtime 1).wmask) true := by
  refine ⟨⟨rfl, rfl, rfl⟩, by decide, by decide, ?_⟩
  intro h
  exact absurd h.2 (by decide)

/-- The first write of the two meets the condition, and so does a CSRRW of 5 to `mcycle`. -/
theorem half_writes_first :
    HalfWritten .lo (Clint.run wrapMtime 0).mtime (Clint.run wrapMtime 1).mtime 0xFFFFFFFF#32 true ∧
      HalfWritten .lo Csr.reset.mcycle (Csr.run Csr.reset (fun _ => ⟨false, false, false, false, 0⟩)
        (fun _ => ⟨true, F3_CSRRW, CSR_MCYCLE, 1, 5, false, 0, 0, 0, false, false, true⟩) 1).mcycle 5#32 false := by
  have h := half_writes wrapMtime (fun _ => ⟨false, false, false, false, 0⟩)
    (fun _ => ⟨true, F3_CSRRW, CSR_MCYCLE, 1, 5, false, 0, 0, 0, false, false, true⟩) 0 .lo
  exact ⟨(h.1 ⟨rfl, rfl, rfl⟩).mpr (by decide), (h.2 (by decide)).1 rfl⟩

end QinglongCore
