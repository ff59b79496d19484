import Mathlib.Tactic.Common
import QinglongCore.Rtl.Fabric

/-!
# Decode and arbitration of the bus fabric
-/

namespace QinglongCore.Fabric

/-- Where a request of a client ends. -/
inductive Route where
  | sram | portA | mmio | clint | plic | axi | bad
  deriving DecidableEq, Repr

def route (c : Client) (a : Word) : Route :=
  match c with
  | .ptw => if isSram a then .sram else if isAxi a then .axi else .bad
  | .ifetch => if isSram a then .portA else if isAxi a then .axi else .bad
  | .dmem =>
      if isSram a then .sram
      else if dmIsMmio a then .mmio
      else if dmIsClint a then .clint
      else if dmIsPlic a then .plic
      else if dmIsAxi a then .axi
      else .bad

/-! ## Regions are disjoint -/

theorem top_nibble (a : Word) : a.extractLsb' 28 4 = (a.extractLsb' 16 16).extractLsb' 12 4 := by
  ext k hk
  simp only [BitVec.getElem_extractLsb', BitVec.getLsbD_extractLsb']
  grind

theorem top_nibble_clint (a : Word) : a.extractLsb' 28 4 = (a.extractLsb' 20 12).extractLsb' 8 4 := by
  ext k hk
  simp only [BitVec.getElem_extractLsb', BitVec.getLsbD_extractLsb']
  grind

theorem top_nibble_plic (a : Word) : a.extractLsb' 28 4 = (a.extractLsb' 24 8).extractLsb' 4 4 := by
  ext k hk
  simp only [BitVec.getElem_extractLsb', BitVec.getLsbD_extractLsb']
  grind

variable {a : Word}

theorem isAxi_not_isSram (h : isAxi a = true) : isSram a = false := by
  simp only [isAxi, isSram, beq_iff_eq, beq_eq_false_iff_ne] at h ⊢
  intro hs
  rw [top_nibble, hs] at h
  exact absurd h (by decide)

/-- The regions behind the AXI master share no address with the others. -/
theorem dmIsAxi_only (h : dmIsAxi a = true) :
    isSram a = false ∧ dmIsMmio a = false ∧ dmIsClint a = false ∧ dmIsPlic a = false := by
  simp only [dmIsAxi, isSram, dmIsMmio, dmIsClint, dmIsPlic, beq_iff_eq, beq_eq_false_iff_ne, Bool.or_eq_true] at h ⊢
  refine ⟨fun hs => ?_, fun hs => ?_, fun hs => ?_, fun hs => ?_⟩
  · rw [top_nibble, hs] at h
    exact absurd h (by decide)
  · rw [top_nibble, hs] at h
    exact absurd h (by decide)
  · rw [top_nibble_clint, hs] at h
    exact absurd h (by decide)
  · rw [top_nibble_plic, hs] at h
    exact absurd h (by decide)

theorem route_ptw_axi : route .ptw a = .axi ↔ isAxi a = true := by
  unfold route
  cases hx : isAxi a <;> cases hs : isSram a <;> simp
  rw [isAxi_not_isSram hx] at hs
  exact Bool.false_ne_true hs

theorem route_ifetch_axi : route .ifetch a = .axi ↔ isAxi a = true := by
  unfold route
  cases hx : isAxi a <;> cases hs : isSram a <;> simp
  rw [isAxi_not_isSram hx] at hs
  exact Bool.false_ne_true hs

theorem route_dmem_axi : route .dmem a = .axi ↔ dmIsAxi a = true := by
  unfold route
  constructor
  · intro h
    simp only at h
    split_ifs at h
    assumption
  · intro h
    obtain ⟨h₁, h₂, h₃, h₄⟩ := dmIsAxi_only h
    simp [h, h₁, h₂, h₃, h₄]

theorem route_ptw_sram : route .ptw a = .sram ↔ isSram a = true := by
  unfold route
  split_ifs <;> simp_all

theorem route_dmem_sram : route .dmem a = .sram ↔ isSram a = true := by
  unfold route
  split_ifs <;> simp_all

theorem route_ifetch_sram : route .ifetch a ≠ .sram := by
  unfold route
  split_ifs <;> simp

/-! ## Requests of the clients -/

/-- A request as its responder sees it. -/
inductive Access where
  | read (addr : Word)
  | write (addr data : Word) (mask : BitVec 4)
  deriving DecidableEq

def Access.addr : Access → Word
  | .read a => a
  | .write a _ _ => a

def Access.isRead : Access → Bool
  | .read _ => true
  | .write _ _ _ => false

def accessOf (r : Axi4Master.Req) : Access := if r.wen then .write r.addr r.wdata r.wmask else .read r.addr

variable (s : State) (i : In)

def reqValid (c : Client) : Bool :=
  match c with
  | .ptw => i.ptwReqValid
  | .ifetch => i.ifReqValid
  | .dmem => i.dmReq.valid

def reqReady (c : Client) : Bool :=
  match c with
  | .ptw => ptwReqReady s i
  | .ifetch => ifReqReady s i
  | .dmem => dmReqReady s i

def access (c : Client) : Access :=
  match c with
  | .ptw => .read i.ptwReqAddr
  | .ifetch => .read i.ifReqAddr
  | .dmem => accessOf i.dmReq

def rsp (c : Client) : Rsp :=
  match c with
  | .ptw => ptwRsp s
  | .ifetch => ifRsp s i
  | .dmem => dmRsp s i

def badRspValid (c : Client) : Bool :=
  match c with
  | .ptw => s.ptwBadRspValid
  | .ifetch => s.ifBadRspValid
  | .dmem => s.dmemBadRspValid

def taken (c : Client) : Bool := reqValid i c && reqReady s i c

/-- The client that the AXI arbiter lets through, and the one that the arbiter of port B does. -/
def winner : Client := if arbPickPtwAx i then .ptw else if arbPickIf s i then .ifetch else .dmem
def owner (lastWasPtw : Bool) : Client := if lastWasPtw then .ptw else .dmem

theorem accessOf_addr (r : Axi4Master.Req) : (accessOf r).addr = r.addr := by
  unfold accessOf
  split <;> rfl

theorem arbPickPtwAx_eq : arbPickPtwAx i = (i.ptwReqValid && isAxi i.ptwReqAddr) := rfl

theorem arbPickIf_eq : arbPickIf s i = (!arbPickPtwAx i && ifAxiReqValid i && (!axiReqValid i || !s.arbLastGrantIf)) := rfl

theorem amReq_valid : (amReq s i).valid = (arbPickPtwAx i || ifAxiReqValid i || axiReqValid i) := rfl

/-- A request goes through the AXI arbiter when the master takes it for its client. -/
theorem taken_axi (c : Client) :
    (taken s i c && route c (access i c).addr == .axi) = (amFired s i && winner s i == c) := by
  rw [Bool.eq_iff_iff]
  simp only [Bool.and_eq_true, beq_iff_eq]
  unfold amFired winner taken
  rw [amReq_valid]
  cases c with
  | ptw =>
      have hr : route .ptw (access i .ptw).addr = .axi ↔ isAxi i.ptwReqAddr = true := route_ptw_axi
      rw [hr, arbPickPtwAx_eq]
      unfold reqValid reqReady ptwReqReady
      rw [arbPickPtwAx_eq]
      cases hv : i.ptwReqValid <;> cases hx : isAxi i.ptwReqAddr
      · simp
        intro _ _
        split <;> simp
      · simp
        intro _ _
        split <;> simp
      · simp
        intro _ _
        split <;> simp
      · simp [isAxi_not_isSram hx]
  | ifetch =>
      have hr : route .ifetch (access i .ifetch).addr = .axi ↔ isAxi i.ifReqAddr = true := route_ifetch_axi
      have hv : ifAxiReqValid i = (i.ifReqValid && isAxi i.ifReqAddr) := rfl
      rw [hr]
      unfold reqValid reqReady ifReqReady
      simp only [arbPickIf_eq, hv]
      cases hx : isAxi i.ifReqAddr
      · cases arbPickPtwAx i <;> simp
      · rw [isAxi_not_isSram hx]
        cases i.ifReqValid <;> cases arbPickPtwAx i <;> cases axiReqValid i <;> cases s.arbLastGrantIf <;> simp
  | dmem =>
      have hr : route .dmem (access i .dmem).addr = .axi ↔ dmIsAxi i.dmReq.addr = true := by
        have haddr : (access i .dmem).addr = i.dmReq.addr := accessOf_addr _
        rw [haddr]
        exact route_dmem_axi
      have hv : axiReqValid i = (i.dmReq.valid && dmIsAxi i.dmReq.addr) := rfl
      have hd : arbPickDm s i = (!arbPickPtwAx i && !arbPickIf s i && axiReqValid i) := rfl
      rw [hr]
      unfold reqValid reqReady dmReqReady
      simp only [hd, arbPickIf_eq, hv]
      cases hx : dmIsAxi i.dmReq.addr
      · cases arbPickPtwAx i <;> cases ifAxiReqValid i <;> simp
      · obtain ⟨h₁, h₂, h₃, h₄⟩ := dmIsAxi_only hx
        simp only [h₁, h₂, h₃, h₄, Bool.false_eq_true, ↓reduceIte]
        cases arbPickPtwAx i <;> cases ifAxiReqValid i <;> cases i.dmReq.valid <;> cases s.arbLastGrantIf <;> simp

/-- What the master is given is the request of the client it is taken for. -/
theorem amReq_access : accessOf (amReq s i) = access i (winner s i) := by
  unfold amReq winner access accessOf
  cases arbPickPtwAx i
  · cases arbPickIf s i <;> rfl
  · rfl

theorem sramBReq_valid : (sramBReq i).valid = (arbPickPtw i || dmSramReqValid i) := by
  unfold sramBReq
  cases h : arbPickPtw i
  · rfl
  · exact h

/-- A request goes through port B when the arbiter lets its client through. -/
theorem taken_sram (c : Client) :
    (taken s i c && route c (access i c).addr == .sram) = ((sramBReq i).valid && owner (arbPickPtw i) == c) := by
  rw [Bool.eq_iff_iff, sramBReq_valid]
  simp only [Bool.and_eq_true, beq_iff_eq]
  unfold taken
  cases c with
  | ptw =>
      have hr : route .ptw (access i .ptw).addr = .sram ↔ isSram i.ptwReqAddr = true := route_ptw_sram
      have hp : arbPickPtw i = (i.ptwReqValid && isSram i.ptwReqAddr) := rfl
      rw [hr, hp]
      unfold reqValid reqReady ptwReqReady owner
      cases hx : isSram i.ptwReqAddr <;> cases i.ptwReqValid <;> simp [sramBReqReady]
  | ifetch =>
      have hr : route .ifetch (access i .ifetch).addr ≠ .sram := route_ifetch_sram
      simp only [hr, and_false, false_iff, not_and]
      intro _
      unfold owner
      split <;> simp
  | dmem =>
      have hr : route .dmem (access i .dmem).addr = .sram ↔ isSram i.dmReq.addr = true := by
        have haddr : (access i .dmem).addr = i.dmReq.addr := accessOf_addr _
        rw [haddr]
        exact route_dmem_sram
      have hv : dmSramReqValid i = (i.dmReq.valid && isSram i.dmReq.addr) := rfl
      rw [hr, hv]
      unfold reqValid reqReady dmReqReady owner
      cases hx : isSram i.dmReq.addr <;> cases i.dmReq.valid <;> cases arbPickPtw i <;> simp [sramBReqReady]

theorem sramBReq_access : accessOf (sramBReq i) = access i (owner (arbPickPtw i)) := by
  unfold sramBReq owner access accessOf
  cases arbPickPtw i <;> rfl

/-- A request to no responder is taken at once. -/
theorem bad_taken (c : Client) (h : reqValid i c = true) (hb : route c (access i c).addr = .bad) :
    taken s i c = true := by
  unfold taken
  rw [h]
  cases c with
  | ptw =>
      have hs : isSram i.ptwReqAddr = false ∧ isAxi i.ptwReqAddr = false := by
        cases h₁ : isSram i.ptwReqAddr <;> cases h₂ : isAxi i.ptwReqAddr <;>
          simp [access, route, Access.addr, h₁, h₂] at hb ⊢
      simp [reqReady, ptwReqReady, hs]
  | ifetch =>
      have hs : isSram i.ifReqAddr = false ∧ isAxi i.ifReqAddr = false := by
        cases h₁ : isSram i.ifReqAddr <;> cases h₂ : isAxi i.ifReqAddr <;>
          simp [access, route, Access.addr, h₁, h₂] at hb ⊢
      simp [reqReady, ifReqReady, hs]
  | dmem =>
      have haddr : (access i .dmem).addr = i.dmReq.addr := accessOf_addr _
      rw [haddr] at hb
      simp only [route] at hb
      split_ifs at hb with h₁ h₂ h₃ h₄ h₅
      simp [reqReady, dmReqReady, h₁, h₂, h₃, h₄, h₅]

/-- A response of a fault responder follows a request to no responder. -/
theorem badRsp_next (c : Client) (h : badRspValid (step s i) c = true) :
    reqValid i c = true ∧ route c (access i c).addr = .bad := by
  cases c with
  | ptw =>
      simp only [badRspValid, step, ptwIsBad, Bool.and_eq_true, Bool.not_eq_true'] at h
      exact ⟨h.1.1, by simp [route, access, Access.addr, h.1.2, h.2]⟩
  | ifetch =>
      simp only [badRspValid, step, ifIsBad, Bool.and_eq_true, Bool.not_eq_true'] at h
      exact ⟨h.1.1.1, by simp [route, access, Access.addr, h.1.1.2, h.1.2]⟩
  | dmem =>
      have haddr : (access i .dmem).addr = i.dmReq.addr := accessOf_addr _
      simp only [badRspValid, step, dmIsBad, Bool.and_eq_true, Bool.not_eq_true'] at h
      obtain ⟨⟨⟨⟨⟨h₀, h₁⟩, h₂⟩, h₃⟩, h₄⟩, h₅⟩ := h
      rw [haddr]
      exact ⟨h₀, by simp [route, h₁, h₂, h₃, h₄, h₅]⟩

end QinglongCore.Fabric
