import QinglongCore.Soc.Lemmas.Arbiters
import QinglongCore.Soc.Lemmas.Bare

/-!
# A program that keeps to the SRAM and the console port

The AXI master, the CLINT, the PLIC and the responders of bad addresses have nothing to answer, and the lines of the
core lead to the SRAM and to the console port.
-/

namespace QinglongCore.SocTop

variable {x : State} {i : In}

/-- Nothing else has an answer to give. -/
structure Quiet (x : State) : Prop where
  master : x.fabric.master.fsm = .idle ∧ x.fabric.master.rspValid = false ∧ x.fabric.master.rspFault = false
  last : x.fabric.lastWasPtw = false
  bad : x.fabric.ptwBadRspValid = false ∧ x.fabric.ifBadRspValid = false ∧ x.fabric.dmemBadRspValid = false
  clint : x.clint.rspValid = false ∧ x.clint.rspFault = false
  plic : x.plic.rspValid = false ∧ x.plic.rspFault = false

/-- An address of the console port that a program stores to. -/
def IsPort (a : Word) : Prop := a = Mmio.ADDR_CONSOLE ∨ a = Mmio.ADDR_EXIT

/-- The requests of this cycle go to the SRAM and to the console port. -/
structure Local (x : State) : Prop where
  ptw : Mmu.ptwReqValid x.soc.mmu = false
  fetch : ifReqValid x = true → Fabric.isSram (ifReqAddr x) = true
  data : (dmReq x).valid = true → Fabric.isSram (dmReq x).addr = true ∨ IsPort (dmReq x).addr

theorem quiet_reset (pc : Word) (u : Unreset) : Quiet (reset pc u) :=
  ⟨⟨rfl, rfl, rfl⟩, rfl, ⟨rfl, rfl, rfl⟩, ⟨rfl, rfl⟩, rfl, rfl⟩

/-! ## Addresses -/

theorem isSram_only {a : Word} (h : Fabric.isSram a = true) : Fabric.isAxi a = false ∧ Fabric.dmIsAxi a = false ∧
    Fabric.dmIsClint a = false ∧ Fabric.dmIsPlic a = false ∧ Fabric.dmIsMmio a = false := by
  have ha : a.extractLsb' 16 16 = 0x8000#16 := by simpa [Fabric.isSram] using h
  have hn := Fabric.top_nibble a
  have hax : Fabric.isAxi a = false := by
    rw [Fabric.isAxi, hn, ha]
    decide
  have hd : Fabric.dmIsAxi a = false := by
    rw [Fabric.dmIsAxi, hn, ha]
    decide
  refine ⟨hax, hd, ?_, ?_, ?_⟩
  · cases hc : Fabric.dmIsClint a
    · rfl
    · have he : a.extractLsb' 20 12 = 0x020#12 := by simpa [Fabric.dmIsClint] using hc
      have hm := Fabric.top_nibble_clint a
      rw [hn, ha, he] at hm
      exact absurd hm (by decide)
  · cases hc : Fabric.dmIsPlic a
    · rfl
    · have he : a.extractLsb' 24 8 = 0x0C#8 := by simpa [Fabric.dmIsPlic] using hc
      have hm := Fabric.top_nibble_plic a
      rw [hn, ha, he] at hm
      exact absurd hm (by decide)
  · rw [Fabric.dmIsMmio, ha]
    decide

theorem isPort_only {a : Word} (h : IsPort a) : Fabric.isSram a = false ∧ Fabric.dmIsAxi a = false ∧
    Fabric.dmIsClint a = false ∧ Fabric.dmIsPlic a = false ∧ Fabric.dmIsMmio a = true := by
  rcases h with rfl | rfl <;> decide

/-- Neither side of the bus fabric asks anybody else. -/
theorem Local.elsewhere (h : Local x) :
    Fabric.isAxi (ifReqAddr x) = true → ifReqValid x = false := by
  intro ha
  cases hv : ifReqValid x
  · rfl
  · rw [(isSram_only (h.fetch hv)).1] at ha
    cases ha

theorem Local.data_elsewhere (h : Local x) (hv : (dmReq x).valid = true) :
    Fabric.dmIsAxi (dmReq x).addr = false ∧ Fabric.dmIsClint (dmReq x).addr = false ∧
      Fabric.dmIsPlic (dmReq x).addr = false ∧
      (Fabric.isSram (dmReq x).addr || Fabric.dmIsMmio (dmReq x).addr) = true := by
  rcases h.data hv with h' | h'
  · obtain ⟨-, h₁, h₂, h₃, -⟩ := isSram_only h'
    exact ⟨h₁, h₂, h₃, by rw [h']; rfl⟩
  · obtain ⟨-, h₁, h₂, h₃, h₄⟩ := isPort_only h'
    exact ⟨h₁, h₂, h₃, by rw [h₄, Bool.or_true]⟩

/-! ## One clock edge -/

namespace Local

variable (h : Local x)
include h

theorem amReq_valid : (Fabric.amReq x.fabric (fabricIn x i)).valid = false := by
  have hp : Fabric.ptwAxiReqValid (fabricIn x i) = false := by
    show (Mmu.ptwReqValid x.soc.mmu && _) = false
    rw [h.ptw, Bool.false_and]
  have hi : Fabric.ifAxiReqValid (fabricIn x i) = false := by
    show (ifReqValid x && Fabric.isAxi (ifReqAddr x)) = false
    cases ha : Fabric.isAxi (ifReqAddr x)
    · rw [Bool.and_false]
    · rw [h.elsewhere ha, Bool.false_and]
  have hd : Fabric.axiReqValid (fabricIn x i) = false := by
    show ((dmReq x).valid && Fabric.dmIsAxi (dmReq x).addr) = false
    cases hv : (dmReq x).valid
    · rw [Bool.false_and]
    · rw [(h.data_elsewhere hv).1, Bool.and_false]
  show (Fabric.ptwAxiReqValid (fabricIn x i) || Fabric.ifAxiReqValid (fabricIn x i) ||
    Fabric.axiReqValid (fabricIn x i)) = false
  rw [hp, hi, hd]
  rfl

theorem arbPickPtw : Fabric.arbPickPtw (fabricIn x i) = false := by
  show (Mmu.ptwReqValid x.soc.mmu && _) = false
  rw [h.ptw, Bool.false_and]

/-- Port B takes the data requests to the SRAM. -/
theorem sramBReq : Fabric.sramBReq (fabricIn x i) =
    { dmReq x with valid := (dmReq x).valid && Fabric.isSram (dmReq x).addr } := by
  rw [Fabric.sramBReq, h.arbPickPtw]
  rfl

theorem step (hq : Quiet x) : Quiet (step x i) where
  master := by
    have hv := h.amReq_valid (i := i)
    have hf := hq.master.1
    show (Axi4Master.step x.fabric.master (Fabric.amReq x.fabric (fabricIn x i)) i.axi).fsm = _ ∧
      (Axi4Master.step x.fabric.master (Fabric.amReq x.fabric (fabricIn x i)) i.axi).rspValid = _ ∧
      (Axi4Master.step x.fabric.master (Fabric.amReq x.fabric (fabricIn x i)) i.axi).rspFault = _
    simp [Axi4Master.step, hf, hv]
  last := by
    show (if (Fabric.sramBReq (fabricIn x i)).valid && Fabric.sramBReqReady then Fabric.arbPickPtw (fabricIn x i)
      else x.fabric.lastWasPtw) = false
    rw [h.arbPickPtw, hq.last]
    exact ite_self _
  bad := by
    refine ⟨?_, ?_, ?_⟩
    · show (Mmu.ptwReqValid x.soc.mmu && _ && _) = false
      rw [h.ptw]
      rfl
    · show ((ifReqValid x && !Fabric.isSram (ifReqAddr x) && _) && _) = false
      cases hv : ifReqValid x
      · rfl
      · rw [h.fetch hv]
        rfl
    · show ((dmReq x).valid && !Fabric.isSram (dmReq x).addr && !Fabric.dmIsMmio (dmReq x).addr && _ && _ && _) = false
      cases hv : (dmReq x).valid
      · rfl
      · have hs := (h.data_elsewhere hv).2.2.2
        rw [Bool.or_eq_true] at hs
        rcases hs with hs | hs <;> simp [hs]
  clint := by
    have hv : (clintReq x).valid = false := by
      show ((dmReq x).valid && Fabric.dmIsClint (dmReq x).addr) = false
      cases hv : (dmReq x).valid
      · rfl
      · exact (h.data_elsewhere hv).2.1
    show (Clint.step x.clint (clintReq x)).rspValid = false ∧ (Clint.step x.clint (clintReq x)).rspFault = false
    rw [Clint.step, hv]
    exact ⟨rfl, rfl⟩
  plic := by
    have hv : (plicReq x).valid = false := by
      show ((dmReq x).valid && Fabric.dmIsPlic (dmReq x).addr) = false
      cases hv : (dmReq x).valid
      · rfl
      · exact (h.data_elsewhere hv).2.2.1
    show (Plic.step x.plic ⟨plicReq x, plicSources i⟩).rspValid = false ∧
      (Plic.step x.plic ⟨plicReq x, plicSources i⟩).rspFault = false
    rw [Plic.step, hv]
    exact ⟨hv, rfl⟩

end Local

/-! ## The lines of the core -/

section
variable (hb : Soc.Bare x.soc)
include hb

theorem ifReqValid_bare : ifReqValid x = CorePipeline.ifetchReqValid x.soc.core (ext x) := by
  rw [ifReqValid, hb.ifOut]
  rfl

theorem ifReqAddr_bare : ifReqAddr x = x.soc.core.fetch.pc := by
  rw [ifReqAddr, hb.ifOut]
  rfl

theorem dmReq_bare : dmReq x = ⟨x.soc.pipe.valid, x.soc.pipe.req.addr, x.soc.pipe.req.wen, x.soc.pipe.req.wdata,
    x.soc.pipe.req.wmask⟩ := by
  rw [dmReq, hb.dmOut]
  rfl

variable (hq : Quiet x)
include hq

omit hb in
theorem axiRsp_quiet (c : Fabric.Client) : (Fabric.axiRsp x.fabric c).valid = false ∧
    (Fabric.axiRsp x.fabric c).fault = false := by
  simp [Fabric.axiRsp, hq.master.2]

omit hb in
theorem ifRsp_quiet : Fabric.ifRsp x.fabric (fabricIn x i) =
    ⟨x.aRspValid, if x.aRspValid then x.aRspRdata else 0#32, false⟩ := by
  obtain ⟨hv, hf⟩ := axiRsp_quiet hq .ifetch
  simp [Fabric.ifRsp, hv, hf, hq.bad, fabricIn]

omit hb in
theorem dmRsp_quiet : (Fabric.dmRsp x.fabric (fabricIn x i)).valid = (x.fabric.sram.bRspValid || x.mmio.rspValid) ∧
    (Fabric.dmRsp x.fabric (fabricIn x i)).fault = x.mmio.rspFault := by
  obtain ⟨hv, hf⟩ := axiRsp_quiet hq .dmem
  simp [Fabric.dmRsp, Fabric.sramBRsp, hq.last, hv, hf, hq.bad, fabricIn, hq.clint, hq.plic]

/-- What the core sees of its buses. -/
theorem coreIn_eq : coreIn x i =
    { ifetchReqReady := Fabric.ifReqReady x.fabric (fabricIn x i)
      ifetchRspValid := x.aRspValid
      ifetchRspData := if x.aRspValid then x.aRspRdata else 0#32
      ifetchRspFault := false
      ifetchRspPagefault := false
      dmemReqReady := !x.soc.pipe.valid || Fabric.dmReqReady x.fabric (fabricIn x i)
      dmemRspValid := x.fabric.sram.bRspValid || x.mmio.rspValid
      dmemRspRdata := (Fabric.dmRsp x.fabric (fabricIn x i)).data
      dmemRspFault := x.mmio.rspFault
      dmemRspPagefault := false
      ext := ext x } := by
  obtain ⟨hv, hf⟩ := dmRsp_quiet (i := i) hq
  rw [coreIn, Soc.coreIn, Soc.coreDmReqReady, hb.ifOut, hb.dmOut]
  simp only [Mmu.Side.pass, Soc.ifPort, Soc.dmPort, socIn, ifRsp_quiet hq, hv, hf]

end

end QinglongCore.SocTop
