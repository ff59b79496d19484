import QinglongCore.Pipeline.Lemmas.Serial
import QinglongCore.Csr.Lemmas.Edges

/-!
# The translation regime changes with a redirect
-/

namespace QinglongCore.CorePipeline

variable {s : State}

theorem MemWb.FromMem.csr {w : MemWb} (h : w.FromMem) (hc : w.isCsr = true) :
    Decode.isCsr w.instr = true ∧ w.csrAddr = csrField w.instr := by
  obtain ⟨m, b, ⟨ex, rs1, rs2, dv, p, hit, ph, ls, ⟨id, md, d₁, d₂, rfl, -⟩, hv, rfl, hls⟩, -, rfl⟩ := h
  unfold MemWb.ofMem at hc ⊢
  dsimp only at hc ⊢
  split_ifs at hc ⊢
  all_goals simp only [MemWb.payload, Bool.false_eq_true, Bool.and_eq_true, ExMem.ofEx, IdEx.ofId, Ctrl.ofId] at hc ⊢
  exact ⟨hc.1.1, trivial⟩

/-- Without a redirect the translation regime stays as it is. -/
theorem Spaced.regime_kept (h : Spaced s) (hw : wbRedirect s = false) (e : Ext) :
    (Csr.step s.csr e (csrIn s)).satp = s.csr.satp ∧ (Csr.step s.csr e (csrIn s)).privMode = s.csr.privMode := by
  cases hv : s.wb.valid
  · rw [csrStep_of_idle hv]
    exact ⟨rfl, rfl⟩
  · simp only [wbRedirect, hv, Bool.true_and, Bool.or_eq_false_iff] at hw
    obtain ⟨⟨⟨⟨⟨ht, hm⟩, hsr⟩, -⟩, -⟩, hs⟩ := hw
    have hstep : Csr.step s.csr e (csrIn s) =
        if Csr.doWrite s.csr e (csrIn s) then
          Csr.writeMux (Csr.tick s.csr e (csrIn s)) s.wb.csrAddr (Csr.newVal s.csr e (csrIn s))
        else Csr.tick s.csr e (csrIn s) := by
      simp [Csr.step, csrIn, trapTakeWb, mretWb, sretWb, ht, hm, hsr]
    rw [hstep]
    split
    · next hd =>
        have hne : s.wb.csrAddr ≠ CSR_SATP := by
          intro he
          have hc : s.wb.isCsr = true := by
            simp only [Csr.doWrite, csrIn, csrEnWb, Bool.and_eq_true] at hd
            exact hd.1.1.1.2
          obtain ⟨hcsr, haddr⟩ := (h.wb_origin hv).csr hc
          simp only [Decode.isCsr, Decode.isSystem, Bool.and_eq_true, beq_iff_eq, bne_iff_ne] at hcsr
          simp [wbIsCsrwSatp, wbIsCsrOp, hv, ht, hcsr.1, hcsr.2, ← haddr, he] at hs
        exact ⟨Csr.writeMux_satp hne _, Csr.writeMux_privMode _ _ _⟩
    · exact ⟨rfl, rfl⟩

end QinglongCore.CorePipeline
