import QinglongCore.Pipeline.Lemmas.Serial

/-!
# Forwarding

`settled` is the register file once WB and MEM are done. The bypass in ID and the forwarding into EX
read exactly the registers as the older instructions will leave them.
-/

namespace QinglongCore.CorePipeline

variable {s : State} {i : In} {a : BitVec 5}

/-- The bypass in ID reads the register file as it is after the clock edge. -/
theorem idRead_eq (i : In) : idRead s i.ext a = (step s i).regs.read a := by
  show _ = (s.regs.write (rfWen s) s.wb.rd (wbCommitRdData s i.ext)).read a
  rw [RegFile.read_write, idRead]
  by_cases hz : a = 0#5
  · subst hz
    by_cases hr : s.wb.rd = 0#5
    · simp [rfWen, hr]
    · simp [hr]
  · by_cases hr : s.wb.rd = a
    · simp [hr, hz]
    · simp [hr]

/-- The registers once WB has retired. -/
def afterWb (s : State) : RegFile := s.regs.write (s.wb.valid && s.wb.rdWen) s.wb.rd s.wb.result

/-- The registers once WB and MEM have retired. -/
def settled (s : State) : RegFile := (afterWb s).write (s.mem.valid && s.mem.rdWen) s.mem.rd s.mem.result

theorem ExMem.FromEx.rdWen_no_trap {m : ExMem} (h : m.FromEx) (hw : m.rdWen = true) : m.trap = false := by
  obtain ⟨ex, rs1, rs2, dv, p, hit, ph, ls, hd, hv, rfl, hls⟩ := h
  simp only [ExMem.ofEx, Bool.and_eq_true, Bool.not_eq_true'] at hw ⊢
  exact hw.2

theorem ExMem.FromEx.isCsr_serial {m : ExMem} (h : m.FromEx) (hc : m.isCsr = true) : m.isSerial = true := by
  obtain ⟨ex, rs1, rs2, dv, p, hit, ph, ls, ⟨id, md, d₁, d₂, rfl, -⟩, hv, rfl, hls⟩ := h
  simp only [ExMem.ofEx, IdEx.ofId, Ctrl.ofId, Bool.and_eq_true] at hc ⊢
  simp [Decode.isSerial, hc.1]

/-- A DIV/REM word has its result in MEM if it writes a register at all. -/
theorem ExMem.FromEx.div_hasResult {m : ExMem} (h : m.FromEx) (hdiv : Decode.isDiv m.instr = true) :
    m.hasResult = m.rdWen := by
  obtain ⟨ex, rs1, rs2, dv, p, hit, ph, ls, ⟨id, md, d₁, d₂, rfl, -⟩, hv, rfl, hls⟩ := h
  have hb := Decode.not_bus_of_isDiv hdiv
  have ho := Decode.opcode_of_isDiv hdiv
  simp only [ExMem.ofEx, IdEx.ofId] at hb ho
  simp [ExMem.ofEx, IdEx.ofId, Ctrl.ofId, hb, Decode.isCsr, Decode.isSystem, ho, OP_OP, OP_SYSTEM]

theorem MemWb.FromMem.rdWen_no_trap {w : MemWb} (h : w.FromMem) (hw : w.rdWen = true) : w.trap = false := by
  obtain ⟨m, b, hm, -, rfl⟩ := h
  unfold MemWb.ofMem at hw ⊢
  dsimp only at hw ⊢
  split_ifs at hw ⊢ <;> simp_all [MemWb.payload, hm.rdWen_no_trap]

theorem MemWb.FromMem.isCsr_serial {w : MemWb} (h : w.FromMem) (hc : w.isCsr = true) : w.isSerial = true := by
  obtain ⟨m, b, hm, -, rfl⟩ := h
  rw [ofMem_isSerial]
  refine hm.isCsr_serial ?_
  unfold MemWb.ofMem at hc
  dsimp only at hc
  split_ifs at hc <;> simp_all [MemWb.payload]

theorem ofMem_of_no_bus {m : ExMem} (b : MemBus) (h : m.hasBusOp = false) :
    (MemWb.ofMem m b).rdWen = m.rdWen ∧ (MemWb.ofMem m b).result = m.result := by
  simp [MemWb.ofMem, h]

/-- Beside EX or MEM, WB holds no CSR access. -/
theorem SerialAlone.wb_no_csr (h : SerialAlone s) (hsp : Spaced s) (hv : s.wb.valid = true)
    (hb : s.ex.valid = true ∨ s.mem.valid = true) : s.wb.isCsr = false := by
  cases hc : s.wb.isCsr
  · rfl
  obtain ⟨hx, hm⟩ := h.wb hv ((hsp.wb_origin hv).isCsr_serial hc)
  simp [hx, hm] at hb

/-- Beside EX or MEM, the register file after the edge is the one after WB. -/
theorem step_regs (h : SerialAlone s) (hsp : Spaced s) (hb : s.ex.valid = true ∨ s.mem.valid = true) :
    (step s i).regs = afterWb s := by
  show s.regs.write (rfWen s) s.wb.rd (wbCommitRdData s i.ext) = _
  cases hv : s.wb.valid
  · simp [rfWen, afterWb, hv, RegFile.write_false]
  · have hw : rfWen s = (s.wb.rdWen && s.wb.rd != 0#5) := by
      cases hr : s.wb.rdWen
      · simp [rfWen, hr]
      · simp [rfWen, hv, hr, (hsp.wb_origin hv).rdWen_no_trap hr]
    rw [hw, afterWb, hv, wbCommitRdData, h.wb_no_csr hsp hv hb]
    funext x
    simp [RegFile.write, Bool.and_assoc]

/-- Forwarding into EX reads the settled registers. -/
theorem forward_eq (hsp : Spaced s) (hx : s.ex.valid = true) (a : BitVec 5) :
    forward s a (s.regs.read a) = (settled s).read a := by
  rw [settled, afterWb, RegFile.read_write, RegFile.read_write, forward]
  cases hm : s.mem.valid
  · simp [Bool.and_assoc]
  · rw [(hsp.mem_origin hm).div_hasResult (hsp.ex_mem hx hm)]
    simp [Bool.and_assoc]

/-- One edge later WB holds what was in MEM, and the registers have settled as far as EX is concerned. -/
theorem afterWb_step (h : SerialAlone s) (hsp : Spaced s) (hx : s.ex.valid = true) :
    afterWb (step s i) = settled s := by
  rw [afterWb, step_regs h hsp (Or.inl hx), settled]
  rw [step_wb]
  cases hm : s.mem.valid
  · simp [wbNext_empty (Or.inl hm), RegFile.write_false]
  · have hdiv := hsp.ex_mem hx hm
    have hw : wbRedirect s = false := by simp [wbRedirect, hsp.not_three hx hm]
    obtain ⟨hr, hres⟩ := ofMem_of_no_bus s.bus ((hsp.mem_origin hm).div_no_bus hdiv)
    rw [wbNext_of_mem hw hm (hsp.stallMem_of_ex hx), ofMem_valid, hr, ofMem_rd, hres]

/-- While MEM holds its instruction, WB is left empty and the registers stay as WB leaves them. -/
theorem afterWb_hold (h : SerialAlone s) (hsp : Spaced s) (hm : s.mem.valid = true) (hst : stallMem s = true) :
    afterWb (step s i) = afterWb s := by
  have hwb : (step s i).wb.valid = false := wbNext_empty (Or.inr hst)
  rw [afterWb, hwb, Bool.false_and, RegFile.write_false, step_regs h hsp (Or.inr hm)]

/-- An instruction that stays in EX keeps its view of the registers. -/
theorem settled_step (h : SerialAlone s) (hsp : Spaced s) (hx : s.ex.valid = true) (hst : stallEx s = true) :
    settled (step s i) = settled s := by
  have hm : (step s i).mem.valid = false := by
    rw [step_mem]
    simp [memNext, hst, hsp.stallMem_of_ex hx, ExMem.bubble]
  rw [← afterWb_step (i := i) h hsp hx, settled, hm]
  simp [RegFile.write_false]

end QinglongCore.CorePipeline
