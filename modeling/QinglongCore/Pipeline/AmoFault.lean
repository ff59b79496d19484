import QinglongCore.Pipeline.Reservation

/-!
# Faults on the load beat of an AMO

MEM turns an AMO to its store beat on a response without an access fault. A page fault that comes alone does not stop
it, and the response of the store beat takes the place of the page fault.
-/

namespace QinglongCore.CorePipeline

/-! ## Statement -/

/-- The load beat of an AMO in MEM is answered. -/
def amoLoadRsp (s : State) (i : In) : Bool := memRspThisCycle s i && s.mem.isAmoRmw && !s.mem.amoPhase

def amoFaultCause (i : In) : Word :=
  if i.dmemRspPagefault then CAUSE_STORE_PAGE_FAULT else CAUSE_STORE_ACCESS_FAULT

section Statement

variable (pc : Word) (regs : RegFile) (inp : Nat → In)

/-- The AMO in MEM in cycle `t`, whose load beat faults there, has no effect but its trap. -/
structure FaultAtomic (t : Nat) : Prop where
  /-- It drives no store beat in any later cycle in MEM. -/
  noStore : ∀ u, t ≤ u → (run pc regs inp u).mem.valid = true →
    (births pc regs inp u).mem = (births pc regs inp t).mem →
    (dmemReqValid (run pc regs inp u) && dmemReqWen (run pc regs inp u)) = false
  committed : (births pc regs inp (t + 2)).wb = (births pc regs inp t).mem ∧
    trapTakeWb (run pc regs inp (t + 2)) = true
  cause : (run pc regs inp (t + 2)).wb.cause = amoFaultCause (inp t)
  tval : (run pc regs inp (t + 2)).wb.tval = dmemReqAddr (run pc regs inp t)
  regs : ∀ u, t ≤ u → u ≤ t + 3 → (run pc regs inp u).regs = (run pc regs inp t).regs

end Statement

variable {s : State} {i : In}

/-! ## The AMO in MEM -/

theorem alignWord_of_aligned {a : Word} (h : IdEx.misaligned a = false) : alignWord a = a := by
  simp only [IdEx.misaligned, bne_eq_false_iff_eq] at h
  have hmask : 0xFFFFFFFC#32 = BitVec.allOnes 32 <<< 2 := by decide
  rw [alignWord, hmask]
  ext n hn
  have hbit := congrArg (fun v => v.getLsbD n) h
  simp only [BitVec.getLsbD_extractLsb', Nat.zero_add, BitVec.getLsbD_zero, Bool.and_eq_false_iff,
    decide_eq_false_iff_not] at hbit
  simp only [BitVec.getElem_and, BitVec.getElem_shiftLeft]
  rcases hbit with hge | hlow
  · have hone : (BitVec.allOnes 32)[n - 2] = true := BitVec.getElem_allOnes _ (by omega)
    rw [hone]
    simp [hge]
  · rw [BitVec.getLsbD_eq_getElem hn] at hlow
    simp [hlow]

/-- An AMO that has not trapped in EX has the address that it accesses. -/
theorem ExMem.FromEx.amo_aligned {m : ExMem} (h : m.FromEx) (ha : m.isAmoRmw = true) : alignWord m.aluY = m.aluY := by
  obtain ⟨ex, rs1, rs2, dv, p, hit, ph, ls, hd, hv, rfl, hls⟩ := h
  simp only [ExMem.ofEx, Bool.and_eq_true, Bool.not_eq_true'] at ha
  have hnone : ex.trapInfo rs1 rs2 p = none := by simpa using ha.2
  have hat : ex.isAtomic = true := by simp [IdEx.isAtomic, ha.1]
  have hls : ex.lsMisaligned rs1 = false := IdEx.aligned_of_no_trap hv hnone (by simp [ha.1])
  have hmis : IdEx.misaligned (ex.lsAddr rs1) = false := by simpa [IdEx.lsMisaligned, hv, hat] using hls
  simp only [ExMem.ofEx, hat, Bool.or_true, if_true]
  exact alignWord_of_aligned hmis

/-- What the response leaves behind. -/
structure Answered (s : State) (i : In) : Prop where
  mem : s.mem.valid = true
  amo : s.mem.isAmoRmw = true
  beat : s.mem.amoPhase = false
  rsp : memRspThisCycle s i = true

theorem amoLoadRsp_elim (h : amoLoadRsp s i = true) : Answered s i := by
  simp only [amoLoadRsp, Bool.and_eq_true, Bool.not_eq_true'] at h
  exact ⟨(memRspThisCycle_elim h.1.1).1, h.1.2, h.2, h.1.1⟩

namespace Answered

variable (h : Answered s i) (hsp : Spaced s) (hal : SerialAlone s)

include h

theorem stallMem : stallMem s = true := by
  have hl := (memRspThisCycle_elim h.rsp).2.1
  simp [CorePipeline.stallMem, memBusy, h.mem, hl]

theorem step_wb_empty : (step s i).wb.valid = false := wbNext_empty (.inr h.stallMem)

include hsp in
theorem no_store : dmemReqWen s = false := by
  obtain ⟨hst, hsc, -⟩ := (hsp.mem_origin h.mem).amo h.amo
  simp [dmemReqWen, memIsStoreOp, memAmoStoreBeat, hst, hsc, h.beat]

include hsp hal

theorem wb_empty : s.wb.valid = false := (hal.mem h.mem (hsp.serial_of_atomic h.mem (.inr (.inr h.amo)))).2

theorem no_redirect : wbRedirect s = false := by simp [wbRedirect, h.wb_empty hsp hal]

theorem step_mem_eq : (step s i).mem =
    if i.dmemRspFault then { s.mem with lsPending := false } else { s.mem with amoPhase := true } := by
  show memNext s i = _
  rw [memNext_of_stall (h.no_redirect hsp hal) h.stallMem, memHold, if_pos h.rsp]
  cases i.dmemRspFault <;> simp [h.amo, h.beat]

theorem step_bus_fault : (step s i).bus.busFault = i.dmemRspFault ∧
    (step s i).bus.busPagefault = i.dmemRspPagefault ∧ (step s i).bus.reqFired = false := by
  show (busNext s i).busFault = _ ∧ (busNext s i).busPagefault = _ ∧ (busNext s i).reqFired = _
  simp [busNext, h.no_redirect hsp hal, h.stallMem, h.rsp]

/-- After an access fault the AMO leaves MEM with its trap. -/
theorem step_ready (hf : i.dmemRspFault = true) :
    CorePipeline.stallMem (step s i) = false ∧ dmemReqValid (step s i) = false := by
  have hmem := h.step_mem_eq hsp hal
  rw [if_pos hf] at hmem
  have hl : (step s i).mem.lsPending = false := by rw [hmem]
  refine ⟨(spaced_step hsp i).stallMem_of_atomic ?_ (.inr (.inr ?_)) hl, by simp [dmemReqValid, hl]⟩
  · rw [hmem]
    exact h.mem
  · rw [hmem]
    exact h.amo

/-- Without one it asks for its store beat. -/
theorem step_store (hf : i.dmemRspFault = false) : (dmemReqValid (step s i) && dmemReqWen (step s i)) = true := by
  have hmem := h.step_mem_eq hsp hal
  rw [hf, if_neg (by decide)] at hmem
  have hl := (memRspThisCycle_elim h.rsp).2.1
  simp [dmemReqValid, memHasBusOp, ExMem.hasBusOp, dmemReqWen, memIsStoreOp, memAmoStoreBeat, hmem, h.mem, h.amo, hl,
    (h.step_bus_fault hsp hal).2.2]

end Answered

/-! ## Runs -/

variable {pc : Word} {regs : RegFile} {inp : Nat → In} {t : Nat}

theorem regs_of_no_write (h : (run pc regs inp t).wb.valid = false ∨ (run pc regs inp t).wb.trap = true) :
    (run pc regs inp (t + 1)).regs = (run pc regs inp t).regs := by
  have hw : rfWen (run pc regs inp t) = false := by rcases h with h | h <;> simp [rfWen, h]
  show (run pc regs inp t).regs.write (rfWen (run pc regs inp t)) _ _ = _
  rw [hw, RegFile.write_false]

theorem faultAtomic_of_fault (h : amoLoadRsp (run pc regs inp t) (inp t) = true)
    (hf : (inp t).dmemRspFault = true) : FaultAtomic pc regs inp t := by
  have hsp : Spaced (run pc regs inp t) := spaced_run t
  have hal : SerialAlone (run pc regs inp t) := serialAlone_run t
  have ha := amoLoadRsp_elim h
  have hfrom := hsp.mem_origin ha.mem
  have hmem : (run pc regs inp (t + 1)).mem = { (run pc regs inp t).mem with lsPending := false } := by
    have he := ha.step_mem_eq hsp hal
    rwa [if_pos hf] at he
  obtain ⟨hfault, hpagefault, -⟩ :
      (run pc regs inp (t + 1)).bus.busFault = (inp t).dmemRspFault ∧
        (run pc regs inp (t + 1)).bus.busPagefault = (inp t).dmemRspPagefault ∧ _ := ha.step_bus_fault hsp hal
  obtain ⟨hready, hreq⟩ : stallMem (run pc regs inp (t + 1)) = false ∧ dmemReqValid (run pc regs inp (t + 1)) = false :=
    ha.step_ready hsp hal hf
  have hwb₁ : (run pc regs inp (t + 1)).wb.valid = false := ha.step_wb_empty
  have hwb₂ : (run pc regs inp (t + 2)).wb = MemWb.ofMem (run pc regs inp (t + 1)).mem (run pc regs inp (t + 1)).bus := by
    refine wbNext_of_mem (by simp [wbRedirect, hwb₁]) ?_ hready
    rw [hmem]
    exact ha.mem
  have hname : (births pc regs inp (t + 2)).wb = (births pc regs inp t).mem := by
    show (if stallMem (run pc regs inp t) then _ else _) = _
    rw [if_pos ha.stallMem]
  obtain ⟨hst, hsc, hlr, -, hres⟩ := hfrom.amo ha.amo
  have hcommit : (run pc regs inp (t + 2)).wb.valid = true ∧ (run pc regs inp (t + 2)).wb.trap = true ∧
      (run pc regs inp (t + 2)).wb.cause = amoFaultCause (inp t) ∧
      (run pc regs inp (t + 2)).wb.tval = (run pc regs inp t).mem.aluY := by
    rw [hwb₂, hmem]
    simp only [MemWb.ofMem, ExMem.hasBusOp, ha.amo, hres, hfault, hpagefault, hf, Bool.or_true, Bool.not_false,
      Bool.and_true, if_true, amoFaultCause]
    cases (inp t).dmemRspPagefault <;> exact ⟨rfl, rfl, rfl, rfl⟩
  obtain ⟨hv, htrap, hcause, htval⟩ := hcommit
  refine ⟨fun u htu hm hr => ?_, ⟨hname, by simp [trapTakeWb, hv, htrap]⟩, hcause, ?_, fun u htu hu => ?_⟩
  · rcases Nat.lt_or_ge u (t + 2) with hlt | hge
    · have hu : u = t ∨ u = t + 1 := by omega
      rcases hu with rfl | rfl
      · rw [ha.no_store hsp, Bool.and_false]
      · rw [hreq, Bool.false_and]
    · -- what is in MEM now is younger than the AMO, which has committed
      have hlt := mem_birth_lt ha.mem
      have hyoung := (ordered_run (t + 2)).wb hv
      rw [hname] at hyoung
      have hafter := (youngerWb_from hyoung (by omega) hge).2 hm
      omega
  · rw [htval, dmemReqAddr, hfrom.amo_aligned ha.amo]
  · have hcases : u = t ∨ u = t + 1 ∨ u = t + 2 ∨ u = t + 3 := by omega
    have h₁ := regs_of_no_write (.inl (ha.wb_empty hsp hal))
    have h₂ := (regs_of_no_write (.inl hwb₁)).trans h₁
    have h₃ := (regs_of_no_write (.inr htrap)).trans h₂
    rcases hcases with rfl | rfl | rfl | rfl
    · rfl
    · exact h₁
    · exact h₂
    · exact h₃

/-- An AMO whose load beat faults has no effect but its trap, unless the response reports a page fault and no access
fault. -/
theorem amo_fault_iff (pc : Word) (regs : RegFile) (inp : Nat → In) (t : Nat)
    (h : amoLoadRsp (run pc regs inp t) (inp t) = true) :
    (((inp t).dmemRspFault || (inp t).dmemRspPagefault) = true → FaultAtomic pc regs inp t) ↔
      ¬ ((inp t).dmemRspPagefault = true ∧ (inp t).dmemRspFault = false) := by
  refine ⟨?_, fun hc hf => faultAtomic_of_fault h ?_⟩
  · rintro hat ⟨hp, hno⟩
    replace hat := hat (by simp [hp])
    have ha := amoLoadRsp_elim h
    have hsp : Spaced (run pc regs inp t) := spaced_run t
    have hal : SerialAlone (run pc regs inp t) := serialAlone_run t
    have hmem : (run pc regs inp (t + 1)).mem = { (run pc regs inp t).mem with amoPhase := true } := by
      have he := ha.step_mem_eq hsp hal
      rwa [hno, if_neg (by decide)] at he
    have hstore : (dmemReqValid (run pc regs inp (t + 1)) && dmemReqWen (run pc regs inp (t + 1))) = true :=
      ha.step_store hsp hal hno
    have hname : (births pc regs inp (t + 1)).mem = (births pc regs inp t).mem := by
      show (if stallMem (run pc regs inp t) then _ else _) = _
      rw [if_pos ha.stallMem]
    rw [hat.noStore (t + 1) (Nat.le_succ t) (by rw [hmem]; exact ha.mem) hname] at hstore
    exact absurd hstore (by decide)
  · rw [Bool.or_eq_true] at hf
    by_contra hno
    rw [Bool.not_eq_true] at hno
    exact hc ⟨hf.resolve_left (by simp [hno]), hno⟩

/-! ## Runs of `amoadd.w x3, x2, (x1)` -/

/-- Both beats are answered in the cycle after their request; the load beat is in cycle 5. -/
def amoInp (fault pagefault : Bool) (t : Nat) : In :=
  { In.fetching (some 0x0020A1AF#32) with
    dmemReqReady := true
    dmemRspValid := t == 5 || t == 7
    dmemRspFault := t == 5 && fault
    dmemRspPagefault := t == 5 && pagefault }

theorem amo_fault_iff_access : FaultAtomic RESET_PC (fun _ => 0) (amoInp true false) 5 :=
  (amo_fault_iff _ _ _ _ (by decide +kernel)).mpr (by decide) (by decide)

/-- After a page fault alone the AMO stores, and retires when its store beat is answered. -/
theorem amo_stores_after_pagefault :
    amoLoadRsp (run RESET_PC (fun _ => 0) (amoInp false true) 5) (amoInp false true 5) = true ∧
      (amoInp false true 5).dmemRspPagefault = true ∧
      dmemAccept (run RESET_PC (fun _ => 0) (amoInp false true) 6) (amoInp false true 6) = true ∧
      dmemReqWen (run RESET_PC (fun _ => 0) (amoInp false true) 6) = true ∧
      (births RESET_PC (fun _ => 0) (amoInp false true) 6).mem =
        (births RESET_PC (fun _ => 0) (amoInp false true) 5).mem ∧
      retireWb (run RESET_PC (fun _ => 0) (amoInp false true) 9) = true ∧
      (births RESET_PC (fun _ => 0) (amoInp false true) 9).wb =
        (births RESET_PC (fun _ => 0) (amoInp false true) 5).mem := by
  decide +kernel

end QinglongCore.CorePipeline
