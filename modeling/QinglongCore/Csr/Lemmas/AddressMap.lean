import QinglongCore.Rtl.Csr

/-!
# The address map of the CSR file
-/

namespace QinglongCore

theorem extractLsb'_extractLsb' {n i l j k : Nat} (x : BitVec n) (h : j + k ≤ l) :
    (x.extractLsb' i l).extractLsb' j k = x.extractLsb' (i + j) k := by
  ext m hm
  rw [BitVec.getElem_extractLsb', BitVec.getElem_extractLsb', BitVec.getLsbD_extractLsb',
    decide_eq_true (show j + m < l by omega), Bool.true_and, Nat.add_assoc]

/-- The field of a CSR address holds `funct7`. -/
theorem funct7_of_csrField {w : Word} {f : BitVec 12} (h : csrField w = f) : funct7 w = f.extractLsb' 5 7 := by
  rw [← h, csrField, extractLsb'_extractLsb' w (by decide)]
  rfl

namespace Csr

variable {s : State} {e : Ext} {a : BitVec 12}

/-- The addresses that the read multiplexer names, less the PMP registers. -/
def namedCsrs : List (BitVec 12) :=
  [CSR_MSTATUS, CSR_MISA, CSR_MEDELEG, CSR_MIDELEG, CSR_MIE, CSR_MIP, CSR_MTVEC, CSR_MSCRATCH, CSR_MEPC, CSR_MCAUSE,
    CSR_MTVAL, CSR_MCYCLE, CSR_MCYCLEH, CSR_MINSTRET, CSR_MINSTRETH, CSR_CYCLE, CSR_CYCLEH, CSR_INSTRET,
    CSR_INSTRETH, CSR_TIME, CSR_TIMEH, CSR_MHARTID, CSR_MVENDORID, CSR_MARCHID, CSR_MIMPID, CSR_SSTATUS, CSR_SIE,
    CSR_SIP, CSR_STVEC, CSR_SCOUNTEREN, CSR_SSCRATCH, CSR_SEPC, CSR_SCAUSE, CSR_STVAL, CSR_SATP]

theorem isSome_ite {α : Type} {c : Prop} [Decidable c] (v : α) (o : Option α) :
    (if c then some v else o).isSome = (decide c || o.isSome) := by
  split
  · next h => simp [h]
  · next h => simp [h]

/-- Which addresses are implemented does not depend on the state. -/
theorem readMux_isSome (s : State) (e : Ext) (a : BitVec 12) :
    (readMux s e a).isSome = (namedCsrs.contains a || (pmpcfgIdx a).isSome || (pmpaddrIdx a).isSome) := by
  unfold readMux
  iterate 35 rw [isSome_ite]
  simp only [namedCsrs, List.contains_cons, List.contains_nil, Bool.or_false, Bool.or_assoc]
  cases pmpcfgIdx a <;> cases pmpaddrIdx a <;> rfl

theorem pmpcfgIdx_privilege (h : (pmpcfgIdx a).isSome = true) : a.extractLsb' 8 2 = PRV_M := by
  unfold pmpcfgIdx at h
  split at h
  · next ha =>
      have hb := congrArg (fun v : BitVec 10 => v.extractLsb' 6 2) ha
      rw [extractLsb'_extractLsb' _ (by decide)] at hb
      exact hb
  · simp at h

theorem pmpaddrIdx_privilege (h : (pmpaddrIdx a).isSome = true) : a.extractLsb' 8 2 = PRV_M := by
  unfold pmpaddrIdx at h
  split at h
  · next ha =>
      have hb := congrArg (fun v : BitVec 8 => v.extractLsb' 4 2) ha
      rw [extractLsb'_extractLsb' _ (by decide)] at hb
      exact hb
  · simp at h

end Csr

end QinglongCore
