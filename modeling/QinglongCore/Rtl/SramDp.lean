import Mathlib.Data.Nat.Log
import QinglongCore.Rtl.Fabric

/-!
# Dual-port SRAM (`sram_dp.sv`)

An array of `words` words behind a port that reads and a port that also writes under a byte mask. Both accept in every
cycle and answer in the next one. There is no reset.
-/

namespace QinglongCore.SramDp

structure State (words : Nat) where
  mem : Fin words → Word
  aRspValid : Bool
  aRspRdata : Word
  bRspValid : Bool
  bRspRdata : Word

/-- The lines of the two ports. `past` is what a read past the end of the array gives. -/
structure In where
  aReqValid : Bool
  aReqAddr : Word
  bReq : Axi4Master.Req
  past : Nat → Word

variable {words : Nat}

def addrBits (words : Nat) : Nat := Nat.clog 2 words

/-- `a_word_addr` and `b_word_addr`, the bits `ADDR_BITS+1:2` of an address. -/
def wordAddr (words : Nat) (a : Word) : Nat := a.toNat / 4 % 2 ^ addrBits words

variable (s : State words) (i : In)

def read (n : Nat) : Word := if h : n < words then s.mem ⟨n, h⟩ else i.past n

/-- One clock edge. -/
def step : State words where
  mem := fun n =>
    if i.bReq.valid && i.bReq.wen && n.val == wordAddr words i.bReq.addr then
      mergeBytes (s.mem n) i.bReq.wdata i.bReq.wmask
    else s.mem n
  aRspValid := i.aReqValid
  aRspRdata := if i.aReqValid then read s i (wordAddr words i.aReqAddr) else s.aRspRdata
  bRspValid := i.bReq.valid
  bRspRdata := if i.bReq.valid && !i.bReq.wen then read s i (wordAddr words i.bReq.addr) else s.bRspRdata

variable {s i}

/-! ## What one edge does -/

/-- Without a write on port B the array stays. -/
theorem step_mem (h : (i.bReq.valid && i.bReq.wen) = false) : (step s i).mem = s.mem := by
  funext n
  simp only [step, h, Bool.false_and, Bool.false_eq_true, if_false]

theorem step_write (hv : i.bReq.valid = true) (hw : i.bReq.wen = true) (n : Fin words) :
    (step s i).mem n =
      if n.val = wordAddr words i.bReq.addr then mergeBytes (s.mem n) i.bReq.wdata i.bReq.wmask else s.mem n := by
  simp only [step, hv, hw, Bool.true_and, beq_iff_eq]

theorem step_read (hv : i.bReq.valid = true) (hw : i.bReq.wen = false) :
    (step s i).bRspRdata = read s i (wordAddr words i.bReq.addr) := by
  simp only [step, hv, hw, Bool.not_false, Bool.and_self, if_true]

theorem step_rdata (h : (i.bReq.valid && !i.bReq.wen) = false) : (step s i).bRspRdata = s.bRspRdata := by
  simp only [step, h, Bool.false_eq_true, if_false]

/-! ## Word addresses -/

/-- An array of a power of two has no end to read past. -/
theorem wordAddr_lt (k : Nat) (a : Word) : wordAddr (2 ^ k) a < 2 ^ k := by
  have hk : addrBits (2 ^ k) = k := Nat.clog_pow 2 k (by decide)
  rw [wordAddr, hk]
  exact Nat.mod_lt _ (Nat.two_pow_pos k)

/-! ## Port B in the bus fabric -/

/-- The array of the bus fabric and the registers of its port B hold the same. -/
structure Same (f : Fabric.Sram) (s : State (2 ^ 14)) : Prop where
  mem : ∀ n, f.mem n = s.mem n.toFin
  bRspValid : f.bRspValid = s.bRspValid
  bRspRdata : f.bRspRdata = s.bRspRdata

theorem bWordAddr_toNat (a : Word) : (Fabric.bWordAddr a).toNat = wordAddr (2 ^ 14) a := by
  have hk : addrBits (2 ^ 14) = 14 := Nat.clog_pow 2 14 (by decide)
  rw [Fabric.bWordAddr, BitVec.extractLsb'_toNat, Nat.shiftRight_eq_div_pow, wordAddr, hk]

/-- The SRAM of the fabric has 16384 words and answers its requests to port B. -/
theorem Same.step {f : Fabric.State} {i : Fabric.In} {s : State (2 ^ 14)} {j : In} (h : Same f.sram s)
    (hj : j.bReq = Fabric.sramBReq i) : Same (Fabric.sramNext f i) (step s j) := by
  rw [Fabric.sramNext, ← hj]
  have hn := bWordAddr_toNat j.bReq.addr
  cases hv : j.bReq.valid
  · refine ⟨fun n => ?_, hv.symm, ?_⟩
    · rw [step_mem (by rw [hv, Bool.false_and])]
      exact h.mem n
    · rw [step_rdata (by rw [hv, Bool.false_and])]
      exact h.bRspRdata
  · cases hw : j.bReq.wen
    · refine ⟨fun n => ?_, hv.symm, ?_⟩
      · rw [step_mem (by rw [hw, Bool.and_false])]
        exact h.mem n
      · rw [step_read hv hw, read, dif_pos (wordAddr_lt 14 _)]
        exact (h.mem _).trans (congrArg s.mem (Fin.ext hn))
    · refine ⟨fun n => ?_, hv.symm, ?_⟩
      · have hkey : n = Fabric.bWordAddr j.bReq.addr ↔ n.toFin.val = wordAddr (2 ^ 14) j.bReq.addr := by
          rw [← hn, ← BitVec.toNat_inj]
          rfl
        rw [step_write hv hw, ← h.mem]
        by_cases hk : n = Fabric.bWordAddr j.bReq.addr
        · rw [if_pos (hkey.mp hk), hk]
          exact if_pos rfl
        · rw [if_neg (fun hn => hk (hkey.mpr hn))]
          exact if_neg hk
      · rw [step_rdata (by rw [hw, Bool.not_true, Bool.and_false])]
        exact h.bRspRdata

end QinglongCore.SramDp
