import QinglongCore.Base.InOrder
import QinglongCore.Base.Sync
import QinglongCore.Soc.Lemmas.Arbiters

/-!
# Routing of bus responses

The fabric between its clients, each with at most one request under way, and an AXI slave that answers each transfer
that it has taken once, whenever it likes. A client that waits may keep a request raised that is not taken.
-/

namespace QinglongCore.Fabric

/-! ## The fabric among its neighbours -/

/-- What is free in a cycle. The clients may raise, keep, change and withdraw requests. -/
structure Stim where
  ptwReqValid : Bool
  ptwReqAddr : Word
  ifReqValid : Bool
  ifReqAddr : Word
  dmReq : Axi4Master.Req
  ifSramReady : Bool
  mmioReady : Bool
  clintReady : Bool
  plicReady : Bool
  ifSramAnswer : Option (Word × Bool)
  dmAnswer : Option (Word × Bool)
  awready : Bool
  wready : Bool
  arready : Bool
  bAnswer : Bool
  bresp : BitVec 2
  rAnswer : Bool
  rdata : Word
  rresp : BitVec 2

/-- An access that its responder has performed. -/
structure Txn where
  access : Access
  data : Word
  fault : Bool

/-- The addresses and the data that the AXI slave has taken and not answered. -/
structure Slave where
  ar : List Word
  aw : List Word
  w : List (Word × BitVec 4)

/-- Each client is owed answers to the requests in `owed`. The requests that a client was granted through the AXI
arbiter and through port B, and the accesses that the slave and the SRAM have performed, are logged newest first. -/
structure Sys where
  bus : State
  slave : Slave
  owed : Client → List Access
  axiTaken : List (Client × Access)
  axiDone : List Txn
  sramTaken : List (Client × Access)
  sramDone : List Txn

namespace Sys

variable (s : Sys) (x : Stim)

def owes (c : Client) (r : Route) : Bool := (s.owed c).any fun a => route c a.addr == r

/-- A responder that is not modelled answers what it owes. -/
def answer (c : Client) (r : Route) (y : Option (Word × Bool)) : Rsp :=
  match y with
  | some (d, f) => ⟨s.owes c r, d, s.owes c r && f⟩
  | none => ⟨false, 0, false⟩

def lines : Axi4Master.Lines where
  awready := x.awready
  wready := x.wready
  bvalid := x.bAnswer && !s.slave.aw.isEmpty && !s.slave.w.isEmpty
  bresp := x.bresp
  arready := x.arready
  rvalid := x.rAnswer && !s.slave.ar.isEmpty
  rdata := x.rdata
  rresp := x.rresp

/-- The inputs without the requests, which no response looks at. -/
def quietInput : In where
  ptwReqValid := false
  ptwReqAddr := x.ptwReqAddr
  ifReqValid := false
  ifReqAddr := x.ifReqAddr
  dmReq := { x.dmReq with valid := false }
  ifSram := ⟨x.ifSramReady, s.answer .ifetch .portA x.ifSramAnswer⟩
  mmio := ⟨x.mmioReady, s.answer .dmem .mmio x.dmAnswer⟩
  clint := ⟨x.clintReady, s.answer .dmem .clint x.dmAnswer⟩
  plic := ⟨x.plicReady, s.answer .dmem .plic x.dmAnswer⟩
  axi := s.lines x

/-- The response to a client in this cycle. -/
def rspTo (c : Client) : Rsp := rsp s.bus (s.quietInput x) c

/-- A client is owed no response, or gets it in this cycle. -/
def free (c : Client) : Bool := (s.owed c).isEmpty || (s.rspTo x c).valid

def input : In :=
  { s.quietInput x with ptwReqValid := x.ptwReqValid, ifReqValid := x.ifReqValid, dmReq := x.dmReq }

def takes (c : Client) : Bool := taken s.bus (s.input x) c
def requested (c : Client) : Access := access (s.input x) c

/-- Each client has at most one request under way; the next one may come with the response. -/
def Single : Prop := ∀ c, s.takes x c = true → s.free x c = true

/-- The requests that are granted in this cycle and end in `r`. -/
def takenAt (r : Route) : List (Client × Access) :=
  [Client.ptw, .ifetch, .dmem].filterMap fun c =>
    if s.takes x c && route c (s.requested x c).addr == r then some (c, s.requested x c) else none

def rFired : Bool := Axi4Master.rready s.bus.master && (s.lines x).rvalid
def bFired : Bool := Axi4Master.bready s.bus.master && (s.lines x).bvalid

/-- What the slave answers in this cycle. -/
def axiTxn : List Txn :=
  (if s.rFired x then [⟨.read (s.slave.ar.headD 0), x.rdata, x.rresp != 0⟩] else []) ++
  (if s.bFired x then
    [⟨.write (s.slave.aw.headD 0) (s.slave.w.headD (0, 0)).1 (s.slave.w.headD (0, 0)).2, 0, x.bresp != 0⟩]
  else [])

/-- What the SRAM performs in this cycle on port B. -/
def sramTxn : List Txn :=
  let r := sramBReq (s.input x)
  if r.valid && sramBReqReady then [⟨accessOf r, s.bus.sram.mem (bWordAddr r.addr), false⟩] else []

def slaveNext : Slave where
  ar := InOrder.serve s.slave.ar (s.rFired x)
    (if Axi4Master.arvalid s.bus.master && x.arready then some s.bus.master.addr else none)
  aw := InOrder.serve s.slave.aw (s.bFired x)
    (if Axi4Master.awvalid s.bus.master && x.awready then some s.bus.master.addr else none)
  w := InOrder.serve s.slave.w (s.bFired x)
    (if Axi4Master.wvalid s.bus.master && x.wready then some (s.bus.master.wdata, s.bus.master.wmask) else none)

def next : Sys where
  bus := step s.bus (s.input x)
  slave := s.slaveNext x
  owed := fun c => InOrder.serve (s.owed c) (s.rspTo x c).valid (if s.takes x c then some (s.requested x c) else none)
  axiTaken := s.takenAt x .axi ++ s.axiTaken
  axiDone := s.axiTxn x ++ s.axiDone
  sramTaken := s.takenAt x .sram ++ s.sramTaken
  sramDone := s.sramTxn x ++ s.sramDone

end Sys

def start (mem : BitVec 14 → Word) (rdata : Word) : Sys where
  bus := reset mem rdata
  slave := ⟨[], [], []⟩
  owed := fun _ => []
  axiTaken := []
  axiDone := []
  sramTaken := []
  sramDone := []

def run (s₀ : Sys) (stim : Nat → Stim) : Nat → Sys := Sync.run Sys.next s₀ stim

/-! ## Specification -/

/-- A response carries the outcome of an access: its fault, and its word if it reads. -/
def Carries (r : Rsp) (t : Txn) : Prop := r.fault = t.fault ∧ (t.access.isRead = true → r.data = t.data)

/-- The newest request granted on a path is that of `c` for `a`, and the newest access performed there is that one,
with the outcome of the response. -/
def FromPath (taken : List (Client × Access)) (done : List Txn) (c : Client) (a : Access) (r : Rsp) : Prop :=
  taken.map Prod.snd = done.map Txn.access ∧ taken.head? = some (c, a) ∧
    ∃ t, done.head? = some t ∧ t.access = a ∧ Carries r t

/-- A response goes to a client that has one request under way, and comes from where that request went. -/
def Sys.Answers (s : Sys) (x : Stim) : Prop :=
  ∀ c, (s.rspTo x c).valid = true → ∃ a, s.owed c = [a] ∧
    match route c a.addr with
    | .axi => FromPath s.axiTaken s.axiDone c a (s.rspTo x c)
    | .sram => FromPath s.sramTaken s.sramDone c a (s.rspTo x c)
    | .bad => s.rspTo x c = ⟨true, 0, true⟩
    | .portA => ∃ d f, x.ifSramAnswer = some (d, f) ∧ s.rspTo x c = ⟨true, d, f⟩
    | .mmio | .clint | .plic => ∃ d f, x.dmAnswer = some (d, f) ∧ s.rspTo x c = ⟨true, d, f⟩

/-- The contents of the SRAM after the accesses of a log. -/
def contents (mem₀ : BitVec 14 → Word) : List Txn → BitVec 14 → Word
  | [], n => mem₀ n
  | t :: log, n =>
      match t.access with
      | .read _ => contents mem₀ log n
      | .write a d m =>
          if n = bWordAddr a then mergeBytes (contents mem₀ log n) d m else contents mem₀ log n

/-- The slave and the SRAM perform the accesses that are granted, each once and in order; on the AXI path the newest
may be under way, and its client waits for it. -/
structure Sys.Once (mem₀ : BitVec 14 → Word) (s : Sys) : Prop where
  axi : ∃ waiting rest, s.axiTaken = waiting ++ rest ∧ rest.map Prod.snd = s.axiDone.map Txn.access ∧
    waiting.length ≤ 1 ∧ ∀ p ∈ waiting, s.owed p.1 = [p.2]
  sram : s.sramTaken.map Prod.snd = s.sramDone.map Txn.access
  contents : s.bus.sram.mem = contents mem₀ s.sramDone

/-- The slave goes on taking and answering. -/
structure Fair (stim : Nat → Stim) : Prop where
  awready : ∀ t, ∃ u, t ≤ u ∧ (stim u).awready = true
  wready : ∀ t, ∃ u, t ≤ u ∧ (stim u).wready = true
  arready : ∀ t, ∃ u, t ≤ u ∧ (stim u).arready = true
  bAnswer : ∀ t, ∃ u, t ≤ u ∧ (stim u).bAnswer = true
  rAnswer : ∀ t, ∃ u, t ≤ u ∧ (stim u).rAnswer = true

open Sys

/-! ## Sources of a response -/

/-- The responder at the end of route `r` answers client `c`. -/
def source (s : Sys) (x : Stim) (c : Client) : Route → Rsp
  | .sram => ⟨s.bus.sram.bRspValid && owner s.bus.lastWasPtw == c, s.bus.sram.bRspRdata, false⟩
  | .axi => ⟨s.bus.master.rspValid && s.bus.inflightClient == c, s.bus.master.rspRdata, s.bus.master.rspFault⟩
  | .bad => ⟨badRspValid s.bus c, 0, true⟩
  | .portA =>
      let y := s.answer .ifetch .portA x.ifSramAnswer
      { y with valid := c == .ifetch && y.valid }
  | .mmio =>
      let y := s.answer .dmem .mmio x.dmAnswer
      { y with valid := c == .dmem && y.valid }
  | .clint =>
      let y := s.answer .dmem .clint x.dmAnswer
      { y with valid := c == .dmem && y.valid }
  | .plic =>
      let y := s.answer .dmem .plic x.dmAnswer
      { y with valid := c == .dmem && y.valid }

variable {s : Sys} {x : Stim} {c : Client} {a : Access} {mem₀ : BitVec 14 → Word}

theorem answer_fault {r : Route} {y : Option (Word × Bool)} (h : (s.answer c r y).fault = true) :
    (s.answer c r y).valid = true := by
  unfold answer at h ⊢
  split at h
  · simp only [Bool.and_eq_true] at h
    exact h.1
  · simp at h

theorem answer_owed {r : Route} {y : Option (Word × Bool)} (h : (s.answer c r y).valid = true) :
    s.owes c r = true ∧ ∃ d f, y = some (d, f) ∧ s.answer c r y = ⟨true, d, f⟩ := by
  unfold answer at h ⊢
  match y with
  | some (d, f) =>
      have hv : s.owes c r = true := h
      exact ⟨hv, d, f, rfl, by simp [hv]⟩
  | none => simp at h

theorem rsp_valid : (s.rspTo x c).valid = true ↔ ∃ r, (source s x c r).valid = true := by
  constructor
  · intro h
    cases c with
    | ptw =>
        simp only [rspTo, rsp, ptwRsp, sramBRsp, axiRsp, Bool.or_eq_true] at h
        rcases h with (h | h) | h
        · refine ⟨.sram, ?_⟩
          simp only [source, owner]
          simp_all
        · exact ⟨.axi, h⟩
        · exact ⟨.bad, h⟩
    | ifetch =>
        simp only [rspTo, rsp, ifRsp, axiRsp, quietInput, Bool.or_eq_true] at h
        rcases h with (h | h) | h
        · exact ⟨.portA, by simpa [source] using h⟩
        · exact ⟨.axi, h⟩
        · exact ⟨.bad, h⟩
    | dmem =>
        simp only [rspTo, rsp, dmRsp, sramBRsp, axiRsp, quietInput, Bool.or_eq_true] at h
        rcases h with ((((h | h) | h) | h) | h) | h
        · refine ⟨.sram, ?_⟩
          simp only [source, owner]
          simp_all
        · exact ⟨.mmio, by simpa [source] using h⟩
        · exact ⟨.clint, by simpa [source] using h⟩
        · exact ⟨.plic, by simpa [source] using h⟩
        · exact ⟨.axi, h⟩
        · exact ⟨.bad, h⟩
  · rintro ⟨r, h⟩
    cases c <;> cases r <;>
      simp_all [source, rspTo, rsp, ptwRsp, ifRsp, dmRsp, sramBRsp, axiRsp, quietInput, owner, badRspValid]
    all_goals (split at h <;> simp_all)

theorem sramBRsp_ptw : (sramBRsp s.bus true).valid = (source s x .ptw .sram).valid := by
  simp only [sramBRsp, source, owner]
  cases s.bus.lastWasPtw <;> simp

theorem sramBRsp_dmem : (sramBRsp s.bus false).valid = (source s x .dmem .sram).valid := by
  simp only [sramBRsp, source, owner]
  cases s.bus.lastWasPtw <;> simp

theorem axi_fault (hf : s.bus.master.rspFault = true → s.bus.master.rspValid = true) :
    (axiRsp s.bus c).fault = ((source s x c .axi).valid && s.bus.master.rspFault) := by
  simp only [axiRsp, source]
  cases hr : s.bus.master.rspFault
  · simp
  · simp [hf hr]

theorem answer_fault_eq {r : Route} {y : Option (Word × Bool)} (h : (s.answer c r y).valid = false) :
    (s.answer c r y).fault = false := by
  by_contra hf
  rw [answer_fault (by simpa using hf)] at h
  simp at h

/-- A response with one source is that of the source. -/
theorem rsp_eq {r : Route} (h : (source s x c r).valid = true)
    (honly : ∀ r', r' ≠ r → (source s x c r').valid = false)
    (hf : s.bus.master.rspFault = true → s.bus.master.rspValid = true) :
    (s.rspTo x c).data = (source s x c r).data ∧ (s.rspTo x c).fault = (source s x c r).fault := by
  cases c with
  | ptw =>
      have hd : (s.rspTo x .ptw).data = if (source s x .ptw .sram).valid then s.bus.sram.bRspRdata
          else if (source s x .ptw .axi).valid then s.bus.master.rspRdata else 0 := by
        rw [← sramBRsp_ptw]
        rfl
      have hflt : (s.rspTo x .ptw).fault =
          ((source s x .ptw .axi).valid && s.bus.master.rspFault || (source s x .ptw .bad).valid) := by
        rw [← axi_fault hf]
        rfl
      rw [hd, hflt]
      cases r with
      | sram => simp [h, honly .axi, honly .bad]; simp [source]
      | axi => simp [h, honly .sram, honly .bad]; simp [source]
      | bad => simp [h, honly .sram, honly .axi]; simp [source]
      | portA | mmio | clint | plic => simp [source] at h
  | ifetch =>
      have hd : (s.rspTo x .ifetch).data =
          if (source s x .ifetch .portA).valid then (source s x .ifetch .portA).data
          else if (source s x .ifetch .axi).valid then s.bus.master.rspRdata else 0 := by
        simp [source, rspTo, rsp, ifRsp, quietInput, axiRsp]
      have hflt : (s.rspTo x .ifetch).fault = ((s.answer .ifetch .portA x.ifSramAnswer).fault ||
          ((source s x .ifetch .axi).valid && s.bus.master.rspFault) || (source s x .ifetch .bad).valid) := by
        rw [← axi_fault hf]
        rfl
      have hans : (source s x .ifetch .portA).valid = false → (s.answer .ifetch .portA x.ifSramAnswer).fault = false :=
        fun hv => answer_fault_eq (by simpa [source] using hv)
      rw [hd, hflt]
      cases r with
      | portA => simp [h, honly .axi, honly .bad]; simp [source]
      | axi => simp [h, honly .portA, honly .bad, hans]; simp [source]
      | bad => simp [h, honly .portA, honly .axi]; simp [source]
      | sram =>
        simp only [source, owner, Bool.and_eq_true] at h
        have hc := h.2
        split at hc <;> simp at hc
      | mmio | clint | plic => simp [source] at h
  | dmem =>
      have hd : (s.rspTo x .dmem).data =
          if (source s x .dmem .sram).valid then s.bus.sram.bRspRdata
          else if (source s x .dmem .mmio).valid then (source s x .dmem .mmio).data
          else if (source s x .dmem .clint).valid then (source s x .dmem .clint).data
          else if (source s x .dmem .plic).valid then (source s x .dmem .plic).data
          else if (source s x .dmem .axi).valid then s.bus.master.rspRdata else 0 := by
        rw [← sramBRsp_dmem]
        simp [source, rspTo, rsp, dmRsp, quietInput, axiRsp, sramBRsp]
      have hflt : (s.rspTo x .dmem).fault = ((s.answer .dmem .mmio x.dmAnswer).fault ||
          (s.answer .dmem .clint x.dmAnswer).fault || (s.answer .dmem .plic x.dmAnswer).fault ||
          ((source s x .dmem .axi).valid && s.bus.master.rspFault) || (source s x .dmem .bad).valid) := by
        rw [← axi_fault hf]
        rfl
      have hm : (source s x .dmem .mmio).valid = false → (s.answer .dmem .mmio x.dmAnswer).fault = false :=
        fun hv => answer_fault_eq (by simpa [source] using hv)
      have hc : (source s x .dmem .clint).valid = false → (s.answer .dmem .clint x.dmAnswer).fault = false :=
        fun hv => answer_fault_eq (by simpa [source] using hv)
      have hp : (source s x .dmem .plic).valid = false → (s.answer .dmem .plic x.dmAnswer).fault = false :=
        fun hv => answer_fault_eq (by simpa [source] using hv)
      rw [hd, hflt]
      cases r with
      | sram => simp [h, honly .mmio, honly .clint, honly .plic, honly .axi, honly .bad, hm, hc, hp]; simp [source]
      | mmio => simp [h, honly .sram, honly .clint, honly .plic, honly .axi, honly .bad, hc, hp]; simp [source]
      | clint => simp [h, honly .mmio, honly .sram, honly .plic, honly .axi, honly .bad, hm, hp]; simp [source]
      | plic => simp [h, honly .mmio, honly .clint, honly .sram, honly .axi, honly .bad, hm, hc]; simp [source]
      | axi => simp [h, honly .mmio, honly .clint, honly .plic, honly .sram, honly .bad, hm, hc, hp]; simp [source]
      | bad => simp [h, honly .mmio, honly .clint, honly .plic, honly .axi, honly .sram, hm, hc, hp]; simp [source]
      | portA => simp [source] at h

/-! ## Invariant -/

/-- Client `c` waits for the answer to `a`, which went to `r`. -/
def Waits (s : Sys) (c : Client) (a : Access) (r : Route) : Prop := s.owed c = [a] ∧ route c a.addr = r

/-- The master and the slave in the middle of the transfer for `a`. -/
def Transfer (m : Axi4Master.State) (l : Slave) (a : Access) : Prop :=
  match m.fsm with
  | .idle => False
  | .write => a = .write m.addr m.wdata m.wmask ∧ (m.awSent && m.wSent) = false ∧
      l = ⟨[], if m.awSent then [m.addr] else [], if m.wSent then [(m.wdata, m.wmask)] else []⟩
  | .writeB => a = .write m.addr m.wdata m.wmask ∧ l = ⟨[], [m.addr], [(m.wdata, m.wmask)]⟩
  | .read => a = .read m.addr ∧ l = ⟨[], [], []⟩
  | .readR => a = .read m.addr ∧ l = ⟨[m.addr], [], []⟩

/-- The AXI path between transfers: all that was granted is performed, and a response is that of the newest. -/
structure Resting (s : Sys) : Prop where
  slave : s.slave = ⟨[], [], []⟩
  all : s.axiTaken.map Prod.snd = s.axiDone.map Txn.access
  response : s.bus.master.rspValid = true → ∃ a t, Waits s s.bus.inflightClient a .axi ∧
    s.axiTaken.head? = some (s.bus.inflightClient, a) ∧ s.axiDone.head? = some t ∧ t.access = a ∧
      Carries ⟨true, s.bus.master.rspRdata, s.bus.master.rspFault⟩ t

/-- The AXI path in a transfer: that of the newest grant. -/
structure Busy (s : Sys) : Prop where
  quiet : s.bus.master.rspValid = false
  transfer : ∃ a rest, s.axiTaken = (s.bus.inflightClient, a) :: rest ∧
    rest.map Prod.snd = s.axiDone.map Txn.access ∧ Waits s s.bus.inflightClient a .axi ∧
      Transfer s.bus.master s.slave a

structure Inv (mem₀ : BitVec 14 → Word) (s : Sys) : Prop where
  single : ∀ c, (s.owed c).length ≤ 1
  sramOnce : s.sramTaken.map Prod.snd = s.sramDone.map Txn.access
  sramMem : s.bus.sram.mem = contents mem₀ s.sramDone
  sramRsp : s.bus.sram.bRspValid = true → ∃ a t, Waits s (owner s.bus.lastWasPtw) a .sram ∧
    s.sramTaken.head? = some (owner s.bus.lastWasPtw, a) ∧ s.sramDone.head? = some t ∧ t.access = a ∧
      Carries ⟨true, s.bus.sram.bRspRdata, false⟩ t
  sramOwed : ∀ c a, Waits s c a .sram → s.bus.sram.bRspValid = true ∧ owner s.bus.lastWasPtw = c
  badRsp : ∀ c, badRspValid s.bus c = true → ∃ a, Waits s c a .bad
  resting : s.bus.master.fsm = .idle → Resting s
  busy : s.bus.master.fsm ≠ .idle → Busy s
  axiOwed : ∀ c a, Waits s c a .axi →
    (s.bus.master.fsm ≠ .idle ∨ s.bus.master.rspValid = true) ∧ s.bus.inflightClient = c
  fault : s.bus.master.rspFault = true → s.bus.master.rspValid = true

/-! ## Who gets a response -/

theorem owes_waits {r : Route} (hlen : (s.owed c).length ≤ 1) (h : s.owes c r = true) : ∃ a, Waits s c a r := by
  unfold owes at h
  match ho : s.owed c with
  | [] => rw [ho] at h; simp at h
  | [a] =>
      rw [ho] at h
      simp only [List.any_cons, List.any_nil, Bool.or_false, beq_iff_eq] at h
      exact ⟨a, ho, h⟩
  | _ :: _ :: _ => rw [ho] at hlen; simp at hlen

/-- A source answers only the client that waits for it. -/
theorem Inv.source_waits (h : Inv mem₀ s) {r : Route} (hr : (source s x c r).valid = true) : ∃ a, Waits s c a r := by
  cases r with
  | sram =>
      simp only [source, Bool.and_eq_true, beq_iff_eq] at hr
      obtain ⟨a, t, hw, -⟩ := h.sramRsp hr.1
      rw [hr.2] at hw
      exact ⟨a, hw⟩
  | axi =>
      simp only [source, Bool.and_eq_true, beq_iff_eq] at hr
      have hidle : s.bus.master.fsm = .idle := by
        by_contra hne
        rw [(h.busy hne).quiet] at hr
        simp at hr
      obtain ⟨a, t, hw, -⟩ := (h.resting hidle).response hr.1
      rw [hr.2] at hw
      exact ⟨a, hw⟩
  | bad => exact h.badRsp c hr
  | portA =>
      simp only [source, Bool.and_eq_true, beq_iff_eq] at hr
      obtain ⟨rfl, hv⟩ := hr
      exact owes_waits (h.single _) (answer_owed hv).1
  | mmio | clint | plic =>
      simp only [source, Bool.and_eq_true, beq_iff_eq] at hr
      obtain ⟨rfl, hv⟩ := hr
      exact owes_waits (h.single _) (answer_owed hv).1

theorem Waits.unique {b : Access} {r r' : Route} (h : Waits s c a r) (h' : Waits s c b r') : b = a ∧ r' = r := by
  obtain ⟨ho, hr⟩ := h
  obtain ⟨ho', hr'⟩ := h'
  rw [ho] at ho'
  simp only [List.cons.injEq, and_true] at ho'
  subst ho'
  exact ⟨rfl, hr'.symm.trans hr⟩

/-- A client that waits on route `r` gets its response from there. -/
theorem Inv.rsp_of_waits (h : Inv mem₀ s) {r : Route} (hw : Waits s c a r) :
    (s.rspTo x c).valid = (source s x c r).valid := by
  rw [Bool.eq_iff_iff, rsp_valid]
  constructor
  · rintro ⟨r', hr'⟩
    obtain ⟨b, hb⟩ := h.source_waits hr'
    rw [(hw.unique hb).2] at hr'
    exact hr'
  · intro hr
    exact ⟨r, hr⟩

theorem Inv.rsp_waits (h : Inv mem₀ s) (hv : (s.rspTo x c).valid = true) :
    ∃ a r, Waits s c a r ∧ (source s x c r).valid = true ∧ (s.rspTo x c).data = (source s x c r).data ∧
      (s.rspTo x c).fault = (source s x c r).fault := by
  obtain ⟨r, hr⟩ := rsp_valid.mp hv
  obtain ⟨a, hw⟩ := h.source_waits hr
  have honly : ∀ r', r' ≠ r → (source s x c r').valid = false := by
    intro r' hne
    by_contra hr'
    obtain ⟨b, hb⟩ := h.source_waits (r := r') (by simpa using hr')
    exact hne (hw.unique hb).2
  obtain ⟨hd, hf⟩ := rsp_eq hr honly h.fault
  exact ⟨a, r, hw, hr, hd, hf⟩

/-! ## What is owed -/

theorem Inv.owed_next (hone : s.Single x) (h : Inv mem₀ s) : (s.next x).owed c =
    if s.takes x c then [s.requested x c] else if (s.rspTo x c).valid then [] else s.owed c := by
  have hlen := h.single c
  have howed : (s.next x).owed c =
      InOrder.serve (s.owed c) (s.rspTo x c).valid (if s.takes x c then some (s.requested x c) else none) := rfl
  rw [howed]
  unfold InOrder.serve
  cases ht : s.takes x c
  · cases hr : (s.rspTo x c).valid
    · simp
    · match ho : s.owed c with
      | [] => simp
      | [a] => simp
      | _ :: _ :: _ => rw [ho] at hlen; simp at hlen
  · have hfree := hone c ht
    cases hr : (s.rspTo x c).valid
    · simp only [free, hr, Bool.or_false, List.isEmpty_iff] at hfree
      simp [hfree]
    · match ho : s.owed c with
      | [] => simp
      | [a] => simp
      | _ :: _ :: _ => rw [ho] at hlen; simp at hlen

/-- A client that waits keeps waiting until its response. -/
theorem Inv.waits_stay (hone : s.Single x) (h : Inv mem₀ s) {r : Route} (hw : Waits s c a r)
    (hr : (source s x c r).valid = false) : Waits (s.next x) c a r := by
  have hrsp : (s.rspTo x c).valid = false := by rw [h.rsp_of_waits hw, hr]
  have ht : s.takes x c = false := by
    by_contra hc
    have hfree := hone c (by simpa using hc)
    simp [free, hrsp, hw.1] at hfree
  refine ⟨?_, hw.2⟩
  rw [h.owed_next hone, ht, hrsp]
  exact hw.1

/-- What a client waits for was taken in this cycle or is still not answered. -/
theorem Inv.waits_before (hone : s.Single x) (h : Inv mem₀ s) {r : Route} (hw : Waits (s.next x) c a r) :
    (s.takes x c = true ∧ a = s.requested x c) ∨ (Waits s c a r ∧ (source s x c r).valid = false) := by
  obtain ⟨ho, hr⟩ := hw
  rw [h.owed_next hone] at ho
  cases ht : s.takes x c
  · right
    cases hv : (s.rspTo x c).valid
    · simp only [ht, hv, Bool.false_eq_true, ↓reduceIte] at ho
      have hold : Waits s c a r := ⟨ho, hr⟩
      exact ⟨hold, by rw [← h.rsp_of_waits hold, hv]⟩
    · simp [ht, hv] at ho
  · left
    simp only [ht, ↓reduceIte, List.cons.injEq, and_true] at ho
    exact ⟨rfl, ho.symm⟩

theorem Inv.taken_waits (hone : s.Single x) (h : Inv mem₀ s) (ht : s.takes x c = true) {r : Route}
    (hr : route c (s.requested x c).addr = r) : Waits (s.next x) c (s.requested x c) r := by
  refine ⟨?_, hr⟩
  rw [h.owed_next hone, ht]
  rfl

/-! ## Grants -/

theorem axi_granted (c : Client) : (s.takes x c && route c (s.requested x c).addr == .axi) =
    (amFired s.bus (s.input x) && winner s.bus (s.input x) == c) := taken_axi s.bus (s.input x) c

theorem sram_granted (c : Client) : (s.takes x c && route c (s.requested x c).addr == .sram) =
    ((sramBReq (s.input x)).valid && owner (arbPickPtw (s.input x)) == c) := taken_sram s.bus (s.input x) c

theorem takenAt_axi : s.takenAt x .axi =
    if amFired s.bus (s.input x) then [(winner s.bus (s.input x), s.requested x (winner s.bus (s.input x)))] else [] := by
  unfold takenAt
  simp only [axi_granted]
  cases amFired s.bus (s.input x)
  · simp
  · cases winner s.bus (s.input x) <;> simp

theorem takenAt_sram : s.takenAt x .sram =
    if (sramBReq (s.input x)).valid then
      [(owner (arbPickPtw (s.input x)), s.requested x (owner (arbPickPtw (s.input x))))]
    else [] := by
  unfold takenAt
  simp only [sram_granted]
  cases (sramBReq (s.input x)).valid
  · simp
  · cases owner (arbPickPtw (s.input x)) <;> simp

theorem winner_waits (hone : s.Single x) (h : Inv mem₀ s) (hf : amFired s.bus (s.input x) = true) :
    Waits (s.next x) (winner s.bus (s.input x)) (s.requested x (winner s.bus (s.input x))) .axi := by
  have hg := axi_granted (s := s) (x := x) (winner s.bus (s.input x))
  simp only [hf, beq_self_eq_true, Bool.and_self, Bool.and_eq_true, beq_iff_eq] at hg
  exact h.taken_waits hone hg.1 hg.2

theorem owner_waits (hone : s.Single x) (h : Inv mem₀ s) (hv : (sramBReq (s.input x)).valid = true) :
    Waits (s.next x) (owner (arbPickPtw (s.input x))) (s.requested x (owner (arbPickPtw (s.input x)))) .sram := by
  have hg := sram_granted (s := s) (x := x) (owner (arbPickPtw (s.input x)))
  simp only [hv, beq_self_eq_true, Bool.and_self, Bool.and_eq_true, beq_iff_eq] at hg
  exact h.taken_waits hone hg.1 hg.2

/-! ## Port B -/

theorem sramDone_next : (s.next x).sramDone = s.sramTxn x ++ s.sramDone := rfl

theorem sramTaken_next : (s.next x).sramTaken = s.takenAt x .sram ++ s.sramTaken := rfl

theorem sramTxn_eq : s.sramTxn x = if (sramBReq (s.input x)).valid then
    [⟨s.requested x (owner (arbPickPtw (s.input x))),
      s.bus.sram.mem (bWordAddr (sramBReq (s.input x)).addr), false⟩] else [] := by
  unfold sramTxn requested
  rw [← sramBReq_access]
  simp [sramBReqReady]

theorem lastWasPtw_next : (s.next x).bus.lastWasPtw =
    if (sramBReq (s.input x)).valid then arbPickPtw (s.input x) else s.bus.lastWasPtw := by
  simp [next, step, sramBReqReady]

theorem sramRsp_next_valid : (s.next x).bus.sram.bRspValid = (sramBReq (s.input x)).valid := by
  have hstep : (s.next x).bus.sram = sramNext s.bus (s.input x) := rfl
  rw [hstep]
  unfold sramNext
  cases hv : (sramBReq (s.input x)).valid
  · simp [hv]
  · simp only [hv, ↓reduceIte]
    split <;> rfl

theorem Inv.sramOnce_next (h : Inv mem₀ s) :
    (s.next x).sramTaken.map Prod.snd = (s.next x).sramDone.map Txn.access := by
  rw [sramTaken_next, sramDone_next, List.map_append, List.map_append, h.sramOnce, takenAt_sram, sramTxn_eq]
  split <;> rfl

theorem Inv.sramMem_next (h : Inv mem₀ s) : (s.next x).bus.sram.mem = contents mem₀ (s.next x).sramDone := by
  have hstep : (s.next x).bus.sram = sramNext s.bus (s.input x) := rfl
  rw [hstep, sramDone_next, sramTxn_eq]
  unfold sramNext
  cases hv : (sramBReq (s.input x)).valid
  · simpa [hv] using h.sramMem
  · have hacc : s.requested x (owner (arbPickPtw (s.input x))) = accessOf (sramBReq (s.input x)) :=
      (sramBReq_access _).symm
    simp only [hv, ↓reduceIte, hacc]
    unfold accessOf
    cases hw : (sramBReq (s.input x)).wen
    · simpa [contents] using h.sramMem
    · funext n
      simp only [↓reduceIte, List.cons_append, List.nil_append, contents, ← h.sramMem]
      split
      · next hn => rw [hn]
      · rfl

theorem Inv.sramRsp_next (hone : s.Single x) (h : Inv mem₀ s) (hv : (s.next x).bus.sram.bRspValid = true) :
    ∃ a t, Waits (s.next x) (owner (s.next x).bus.lastWasPtw) a .sram ∧
      (s.next x).sramTaken.head? = some (owner (s.next x).bus.lastWasPtw, a) ∧
      (s.next x).sramDone.head? = some t ∧ t.access = a ∧
        Carries ⟨true, (s.next x).bus.sram.bRspRdata, false⟩ t := by
  rw [sramRsp_next_valid] at hv
  have hw := owner_waits hone h hv
  rw [lastWasPtw_next, hv, if_pos rfl, sramTaken_next, sramDone_next, takenAt_sram, sramTxn_eq, hv]
  refine ⟨_, _, hw, rfl, rfl, rfl, rfl, ?_⟩
  intro hread
  have hacc : s.requested x (owner (arbPickPtw (s.input x))) = accessOf (sramBReq (s.input x)) :=
    (sramBReq_access _).symm
  have hwen : (sramBReq (s.input x)).wen = false := by
    simp only [hacc] at hread
    unfold accessOf at hread
    cases hw : (sramBReq (s.input x)).wen
    · rfl
    · simp [hw, Access.isRead] at hread
  have hstep : (s.next x).bus.sram = sramNext s.bus (s.input x) := rfl
  simp [hstep, sramNext, hv, hwen]

theorem Inv.sramOwed_next (hone : s.Single x) (h : Inv mem₀ s) (hw : Waits (s.next x) c a .sram) :
    (s.next x).bus.sram.bRspValid = true ∧ owner (s.next x).bus.lastWasPtw = c := by
  rcases h.waits_before hone hw with ⟨ht, rfl⟩ | ⟨hold, hsrc⟩
  · have hg := sram_granted (s := s) (x := x) c
    have hr : route c (s.requested x c).addr = .sram := hw.2
    simp only [ht, hr, beq_self_eq_true, Bool.and_self] at hg
    have hg' := hg.symm
    simp only [Bool.and_eq_true, beq_iff_eq] at hg'
    rw [sramRsp_next_valid, lastWasPtw_next, hg'.1]
    exact ⟨rfl, hg'.2⟩
  · -- port B answers in the next cycle
    obtain ⟨hv, hc⟩ := h.sramOwed c a hold
    simp [source, hv, hc] at hsrc

/-! ## Fault responders -/

theorem Inv.badRsp_next (hone : s.Single x) (h : Inv mem₀ s) (hb : badRspValid (s.next x).bus c = true) :
    ∃ a, Waits (s.next x) c a .bad := by
  obtain ⟨hv, hr⟩ := Fabric.badRsp_next s.bus (s.input x) c hb
  exact ⟨_, h.taken_waits hone (bad_taken s.bus (s.input x) c hv hr) hr⟩

/-! ## The AXI path -/

theorem inflight_next : (s.next x).bus.inflightClient =
    if amFired s.bus (s.input x) then winner s.bus (s.input x) else s.bus.inflightClient := rfl

theorem axiTaken_next : (s.next x).axiTaken = s.takenAt x .axi ++ s.axiTaken := rfl

theorem axiDone_next : (s.next x).axiDone = s.axiTxn x ++ s.axiDone := rfl

theorem master_next : (s.next x).bus.master =
    Axi4Master.step s.bus.master (amReq s.bus (s.input x)) (s.lines x) := rfl

theorem slave_next : (s.next x).slave = s.slaveNext x := rfl

theorem amFired_idle (h : amFired s.bus (s.input x) = true) :
    s.bus.master.fsm = .idle ∧ s.bus.master.rspValid = false ∧ (amReq s.bus (s.input x)).valid = true ∧
      Axi4Master.reqReady s.bus.master = true := by
  simp only [amFired, amReqReady, Bool.and_eq_true] at h
  have hr := h.2
  simp only [Axi4Master.reqReady, Bool.and_eq_true, beq_iff_eq, Bool.not_eq_true'] at hr
  exact ⟨hr.1.1, hr.1.2, h.1, h.2⟩

/-- The slave takes no address and no data and answers nothing. -/
theorem slaveNext_keep (hr : s.rFired x = false) (hb : s.bFired x = false)
    (har : (Axi4Master.arvalid s.bus.master && x.arready) = false) (hw : s.bus.master.fsm ≠ .write) :
    s.slaveNext x = s.slave := by
  have haw : Axi4Master.awvalid s.bus.master = false := by simp [Axi4Master.awvalid, hw]
  have hwv : Axi4Master.wvalid s.bus.master = false := by simp [Axi4Master.wvalid, hw]
  simp [slaveNext, hr, hb, har, haw, hwv, InOrder.serve]

theorem slaveNext_idle (hs : s.bus.master.fsm = .idle) : s.slaveNext x = s.slave :=
  slaveNext_keep (by simp [rFired, Axi4Master.rready, hs]) (by simp [bFired, Axi4Master.bready, hs])
    (by simp [Axi4Master.arvalid, hs]) (by simp [hs])

theorem axiTxn_idle (hs : s.bus.master.fsm = .idle) : s.axiTxn x = [] := by
  simp [axiTxn, rFired, bFired, Axi4Master.rready, Axi4Master.bready, hs]

/-- A grant starts a transfer for the request of the client that is let through. -/
theorem Inv.busy_grant (hone : s.Single x) (h : Inv mem₀ s) (hf : amFired s.bus (s.input x) = true) :
    Busy (s.next x) := by
  obtain ⟨hs, -, hv, hready⟩ := amFired_idle hf
  have hrest := h.resting hs
  have hw := winner_waits hone h hf
  have hacc := amReq_access s.bus (s.input x)
  have hm : (s.next x).bus.master.fsm = (if (amReq s.bus (s.input x)).wen then .write else .read) ∧
      (s.next x).bus.master.rspValid = false ∧
      (s.next x).bus.master.addr = (amReq s.bus (s.input x)).addr ∧
      (s.next x).bus.master.wdata = (amReq s.bus (s.input x)).wdata ∧
      (s.next x).bus.master.wmask = (amReq s.bus (s.input x)).wmask ∧
      (s.next x).bus.master.awSent = false ∧ (s.next x).bus.master.wSent = false := by
    rw [master_next]
    simp [Axi4Master.step, hs, hv, hready]
  obtain ⟨hfsm, hquiet, haddr, hwdata, hwmask, haw, hwsent⟩ := hm
  refine ⟨hquiet, s.requested x (winner s.bus (s.input x)), s.axiTaken, ?_, ?_, ?_, ?_⟩
  · rw [axiTaken_next, takenAt_axi, inflight_next, hf]
    rfl
  · rw [axiDone_next, axiTxn_idle hs]
    exact hrest.all
  · rw [inflight_next, hf]
    exact hw
  · have hreq : s.requested x (winner s.bus (s.input x)) = accessOf (amReq s.bus (s.input x)) := hacc.symm
    rw [hreq, slave_next, slaveNext_idle hs, hrest.slave]
    unfold Transfer accessOf
    rw [hfsm]
    cases hwen : (amReq s.bus (s.input x)).wen
    · simp [haddr]
    · simp [haddr, hwdata, hwmask, haw, hwsent]

theorem Inv.resting_stay (h : Inv mem₀ s) (hs : s.bus.master.fsm = .idle)
    (hf : amFired s.bus (s.input x) = false) :
    (s.next x).bus.master.fsm = .idle ∧ (s.next x).bus.master.rspValid = false ∧
      (s.next x).bus.master.rspFault = false ∧ Resting (s.next x) := by
  have hrest := h.resting hs
  have hf' : ((amReq s.bus (s.input x)).valid && Axi4Master.reqReady s.bus.master) = false := hf
  have hm : (s.next x).bus.master.fsm = .idle ∧ (s.next x).bus.master.rspValid = false ∧
      (s.next x).bus.master.rspFault = false := by
    rw [master_next]
    unfold Axi4Master.step
    rw [hs]
    simp [hf']
  refine ⟨hm.1, hm.2.1, hm.2.2, ?_, ?_, ?_⟩
  · rw [slave_next, slaveNext_idle hs, hrest.slave]
  · rw [axiTaken_next, takenAt_axi, hf, axiDone_next, axiTxn_idle hs]
    exact hrest.all
  · intro hv
    rw [hm.2.1] at hv
    simp at hv

theorem amFired_busy (hs : s.bus.master.fsm ≠ .idle) : amFired s.bus (s.input x) = false := by
  by_contra hf
  exact hs (amFired_idle (by simpa using hf)).1

/-- A transfer that goes on. -/
theorem Inv.busy_of (hone : s.Single x) (h : Inv mem₀ s) (hs : s.bus.master.fsm ≠ .idle) (ht : s.axiTxn x = [])
    (hq : (s.next x).bus.master.rspValid = false)
    (htr : ∀ b, Transfer s.bus.master s.slave b → Transfer (s.next x).bus.master (s.next x).slave b) :
    Busy (s.next x) := by
  obtain ⟨a, rest, htk, hrest, hw, hold⟩ := (h.busy hs).transfer
  have hsrc : (source s x s.bus.inflightClient .axi).valid = false := by simp [source, (h.busy hs).quiet]
  refine ⟨hq, a, rest, ?_, ?_, ?_, htr a hold⟩
  · rw [axiTaken_next, takenAt_axi, inflight_next, amFired_busy hs]
    exact htk
  · rw [axiDone_next, ht]
    exact hrest
  · rw [inflight_next, amFired_busy hs]
    exact h.waits_stay hone hw hsrc

/-- A transfer that ends with the transaction `t`. -/
theorem Inv.resting_of (hone : s.Single x) (h : Inv mem₀ s) (hs : s.bus.master.fsm ≠ .idle) {t : Txn}
    (ht : s.axiTxn x = [t])
    (htr : ∀ b, Transfer s.bus.master s.slave b → t.access = b ∧ (s.next x).slave = ⟨[], [], []⟩)
    (hcar : Carries ⟨true, (s.next x).bus.master.rspRdata, (s.next x).bus.master.rspFault⟩ t) : Resting (s.next x) := by
  obtain ⟨a, rest, htk, hrest, hw, hold⟩ := (h.busy hs).transfer
  have hsrc : (source s x s.bus.inflightClient .axi).valid = false := by simp [source, (h.busy hs).quiet]
  obtain ⟨hacc, hslave⟩ := htr a hold
  have hinf : (s.next x).bus.inflightClient = s.bus.inflightClient := by
    rw [inflight_next, amFired_busy hs]
    rfl
  have htaken : (s.next x).axiTaken = s.axiTaken := by
    rw [axiTaken_next, takenAt_axi, amFired_busy hs]
    rfl
  refine ⟨hslave, ?_, fun _ => ⟨a, t, ?_, ?_, ?_, hacc, hcar⟩⟩
  · rw [htaken, axiDone_next, ht, htk]
    simp [hrest, hacc]
  · rw [hinf]
    exact h.waits_stay hone hw hsrc
  · rw [htaken, hinf, htk]
    rfl
  · rw [axiDone_next, ht]
    rfl

/-! ### Steps of the master -/

section

variable {m : Axi4Master.State} {r : Axi4Master.Req} {l : Axi4Master.Lines}

/-- The response lasts one cycle and the pause runs down. -/
def pulsed (m : Axi4Master.State) : Axi4Master.State :=
  { m with
    rspValid := false, rspFault := false
    cooldown := if m.cooldown != 0 then m.cooldown - 1 else m.cooldown }

theorem step_write (hs : m.fsm = .write) : Axi4Master.step m r l =
    { pulsed m with
      awSent := Axi4Master.awDone m l, wSent := Axi4Master.wDone m l
      fsm := if Axi4Master.awDone m l && Axi4Master.wDone m l then .writeB else .write } := by
  simp [Axi4Master.step, hs, pulsed]

theorem step_writeB (hs : m.fsm = .writeB) : Axi4Master.step m r l =
    if l.bvalid then
      { pulsed m with rspValid := true, rspRdata := 0, rspFault := l.bresp != 0, fsm := .idle, cooldown := 8 }
    else pulsed m := by
  simp [Axi4Master.step, hs, pulsed]

theorem step_read (hs : m.fsm = .read) : Axi4Master.step m r l =
    if l.arready then { pulsed m with fsm := .readR } else pulsed m := by
  simp [Axi4Master.step, hs, pulsed, Axi4Master.arvalid]

theorem step_readR (hs : m.fsm = .readR) : Axi4Master.step m r l =
    if l.rvalid then
      { pulsed m with rspValid := true, rspRdata := l.rdata, rspFault := l.rresp != 0, fsm := .idle, cooldown := 8 }
    else pulsed m := by
  simp [Axi4Master.step, hs, pulsed]

end

/-- What becomes of a transfer in one cycle. -/
theorem Inv.busy_next (hone : s.Single x) (h : Inv mem₀ s) (hs : s.bus.master.fsm ≠ .idle) :
    ((s.next x).bus.master.fsm ≠ .idle ∧ (s.next x).bus.master.rspFault = false ∧ Busy (s.next x)) ∨
    ((s.next x).bus.master.fsm = .idle ∧ (s.next x).bus.master.rspValid = true ∧ Resting (s.next x)) := by
  have hslave := slave_next (s := s) (x := x)
  cases hf : s.bus.master.fsm with
  | idle => exact absurd hf hs
  | write =>
      left
      have hm : (s.next x).bus.master = _ := step_write hf (r := amReq s.bus (s.input x)) (l := s.lines x)
      have hr : s.rFired x = false := by simp [rFired, Axi4Master.rready, hf]
      have hb : s.bFired x = false := by simp [bFired, Axi4Master.bready, hf]
      have hne : (s.next x).bus.master.fsm ≠ .idle := by
        rw [hm]
        simp only
        split <;> simp
      refine ⟨hne, by rw [hm]; rfl, h.busy_of hone hs (by simp [axiTxn, hr, hb])
          (by rw [hm]; rfl) fun b hold => ?_⟩
      unfold Transfer at hold ⊢
      rw [hf] at hold
      obtain ⟨hacc, hnot, hl⟩ := hold
      have haw : Axi4Master.awvalid s.bus.master = !s.bus.master.awSent := by simp [Axi4Master.awvalid, hf]
      have hwv : Axi4Master.wvalid s.bus.master = !s.bus.master.wSent := by simp [Axi4Master.wvalid, hf]
      have har : Axi4Master.arvalid s.bus.master = false := by simp [Axi4Master.arvalid, hf]
      rw [hslave, hm]
      unfold slaveNext
      rw [hr, hb, haw, hwv, har, hl]
      simp only [Axi4Master.awDone, Axi4Master.wDone, haw, hwv, InOrder.serve, lines]
      cases s.bus.master.awSent <;> cases s.bus.master.wSent <;> cases x.awready <;> cases x.wready <;>
        simp [hacc, pulsed] at hnot ⊢
  | writeB =>
      have hr : s.rFired x = false := by simp [rFired, Axi4Master.rready, hf]
      cases hb : s.bFired x
      · left
        have hv : (s.lines x).bvalid = false := by simpa [bFired, Axi4Master.bready, hf] using hb
        have hm : (s.next x).bus.master = _ := step_writeB hf (r := amReq s.bus (s.input x)) (l := s.lines x)
        rw [hv] at hm
        simp only [Bool.false_eq_true, ↓reduceIte] at hm
        refine ⟨by rw [hm]; exact hs, by rw [hm]; rfl, h.busy_of hone hs (by simp [axiTxn, hr, hb])
          (by rw [hm]; rfl) fun b hold => ?_⟩
        rw [hslave, hm, slaveNext_keep hr hb (by simp [Axi4Master.arvalid, hf]) (by simp [hf])]
        exact hold
      · right
        have hv : (s.lines x).bvalid = true := by simpa [bFired, Axi4Master.bready, hf] using hb
        have hm : (s.next x).bus.master = _ := step_writeB hf (r := amReq s.bus (s.input x)) (l := s.lines x)
        rw [hv] at hm
        simp only [↓reduceIte] at hm
        have ht : s.axiTxn x = [⟨.write (s.slave.aw.headD 0) (s.slave.w.headD (0, 0)).1 (s.slave.w.headD (0, 0)).2, 0,
            x.bresp != 0⟩] := by simp [axiTxn, hr, hb]
        refine ⟨by rw [hm], by rw [hm], h.resting_of hone hs ht (fun b hold => ?_) ?_⟩
        · rw [hslave]
          unfold Transfer at hold
          rw [hf] at hold
          rw [hold.2]
          refine ⟨hold.1.symm, ?_⟩
          simp [slaveNext, hr, hb, hold.2, InOrder.serve, Axi4Master.arvalid, Axi4Master.awvalid, Axi4Master.wvalid, hf]
        · rw [hm]
          exact ⟨rfl, fun hread => by simp [Access.isRead] at hread⟩
  | read =>
      left
      have hr : s.rFired x = false := by simp [rFired, Axi4Master.rready, hf]
      have hb : s.bFired x = false := by simp [bFired, Axi4Master.bready, hf]
      have har : Axi4Master.arvalid s.bus.master = true := by simp [Axi4Master.arvalid, hf]
      have hm : (s.next x).bus.master = _ := step_read hf (r := amReq s.bus (s.input x)) (l := s.lines x)
      have hready : (s.lines x).arready = x.arready := rfl
      rw [hready] at hm
      have hgrown : (s.next x).slave =
          ⟨s.slave.ar ++ if x.arready then [s.bus.master.addr] else [], s.slave.aw, s.slave.w⟩ := by
        rw [hslave]
        simp only [slaveNext, hr, hb, har, Axi4Master.awvalid, Axi4Master.wvalid, hf, InOrder.serve]
        cases x.arready <;> simp
      cases hx : x.arready
      · rw [hx] at hm hgrown
        simp only [Bool.false_eq_true, ↓reduceIte, List.append_nil] at hm hgrown
        refine ⟨by rw [hm]; exact hs, by rw [hm]; rfl, h.busy_of hone hs (by simp [axiTxn, hr, hb])
          (by rw [hm]; rfl) fun b hold => ?_⟩
        rw [hgrown, hm]
        exact hold
      · rw [hx] at hm hgrown
        simp only [↓reduceIte] at hm hgrown
        refine ⟨by rw [hm]; simp, by rw [hm]; rfl, h.busy_of hone hs (by simp [axiTxn, hr, hb])
          (by rw [hm]; rfl) fun b hold => ?_⟩
        rw [hgrown, hm]
        unfold Transfer at hold ⊢
        rw [hf] at hold
        refine ⟨hold.1, ?_⟩
        rw [hold.2]
        rfl
  | readR =>
      have hb : s.bFired x = false := by simp [bFired, Axi4Master.bready, hf]
      cases hr : s.rFired x
      · left
        have hv : (s.lines x).rvalid = false := by simpa [rFired, Axi4Master.rready, hf] using hr
        have hm : (s.next x).bus.master = _ := step_readR hf (r := amReq s.bus (s.input x)) (l := s.lines x)
        rw [hv] at hm
        simp only [Bool.false_eq_true, ↓reduceIte] at hm
        refine ⟨by rw [hm]; exact hs, by rw [hm]; rfl, h.busy_of hone hs (by simp [axiTxn, hr, hb])
          (by rw [hm]; rfl) fun b hold => ?_⟩
        rw [hslave, hm, slaveNext_keep hr hb (by simp [Axi4Master.arvalid, hf]) (by simp [hf])]
        exact hold
      · right
        have hv : (s.lines x).rvalid = true := by simpa [rFired, Axi4Master.rready, hf] using hr
        have hm : (s.next x).bus.master = _ := step_readR hf (r := amReq s.bus (s.input x)) (l := s.lines x)
        rw [hv] at hm
        simp only [↓reduceIte] at hm
        have ht : s.axiTxn x = [⟨.read (s.slave.ar.headD 0), x.rdata, x.rresp != 0⟩] := by simp [axiTxn, hr, hb]
        refine ⟨by rw [hm], by rw [hm], h.resting_of hone hs ht (fun b hold => ?_) ?_⟩
        · rw [hslave]
          unfold Transfer at hold
          rw [hf] at hold
          rw [hold.2]
          refine ⟨hold.1.symm, ?_⟩
          simp [slaveNext, hr, hb, hold.2, InOrder.serve, Axi4Master.arvalid, Axi4Master.awvalid, Axi4Master.wvalid, hf]
        · rw [hm]
          exact ⟨rfl, fun _ => rfl⟩

/-- The AXI path after a cycle. -/
theorem Inv.axi_next (hone : s.Single x) (h : Inv mem₀ s) :
    ((s.next x).bus.master.fsm = .idle → Resting (s.next x)) ∧
    ((s.next x).bus.master.fsm ≠ .idle → Busy (s.next x)) ∧
    ((s.next x).bus.master.rspFault = true → (s.next x).bus.master.rspValid = true) ∧
    (s.bus.master.fsm ≠ .idle ∨ amFired s.bus (s.input x) = true →
      (s.next x).bus.master.fsm ≠ .idle ∨ (s.next x).bus.master.rspValid = true) := by
  by_cases hs : s.bus.master.fsm = .idle
  · cases hf : amFired s.bus (s.input x)
    · obtain ⟨hfsm, -, hflt, hrest⟩ := h.resting_stay hs hf
      refine ⟨fun _ => hrest, fun hne => absurd hfsm hne, fun hc => by rw [hflt] at hc; simp at hc, fun hc => ?_⟩
      rcases hc with hc | hc
      · exact absurd hs hc
      · simp at hc
    · have hb := h.busy_grant hone hf
      have hne : (s.next x).bus.master.fsm ≠ .idle := by
        intro hc
        obtain ⟨a, rest, -, -, -, htr⟩ := hb.transfer
        unfold Transfer at htr
        rw [hc] at htr
        exact htr
      refine ⟨fun hc => absurd hc hne, fun _ => hb, fun hc => ?_, fun _ => Or.inl hne⟩
      obtain ⟨-, -, hv, hready⟩ := amFired_idle hf
      rw [master_next] at hc
      simp [Axi4Master.step, hs, hv, hready] at hc
  · rcases h.busy_next hone hs with ⟨hne, hflt, hb⟩ | ⟨hfsm, hv, hrest⟩
    · exact ⟨fun hc => absurd hc hne, fun _ => hb, fun hc => by rw [hflt] at hc; simp at hc, fun _ => Or.inl hne⟩
    · exact ⟨fun _ => hrest, fun hc => absurd hfsm hc, fun _ => hv, fun _ => Or.inr hv⟩

theorem Inv.axiOwed_next (hone : s.Single x) (h : Inv mem₀ s) (hw : Waits (s.next x) c a .axi) :
    ((s.next x).bus.master.fsm ≠ .idle ∨ (s.next x).bus.master.rspValid = true) ∧
      (s.next x).bus.inflightClient = c := by
  obtain ⟨-, -, -, hgo⟩ := h.axi_next hone
  rcases h.waits_before hone hw with ⟨ht, rfl⟩ | ⟨hold, hsrc⟩
  · have hg := axi_granted (s := s) (x := x) c
    have hr : route c (s.requested x c).addr = .axi := hw.2
    simp only [ht, hr, beq_self_eq_true, Bool.and_self] at hg
    have hg' := hg.symm
    simp only [Bool.and_eq_true, beq_iff_eq] at hg'
    refine ⟨hgo (Or.inr hg'.1), ?_⟩
    rw [inflight_next, hg'.1]
    exact hg'.2
  · obtain ⟨hbusy, hc⟩ := h.axiOwed c a hold
    -- a response would have been that of this client
    have hv : s.bus.master.rspValid = false := by simpa [source, hc] using hsrc
    have hs : s.bus.master.fsm ≠ .idle := by simpa [hv] using hbusy
    refine ⟨hgo (Or.inl hs), ?_⟩
    rw [inflight_next, amFired_busy hs]
    exact hc

theorem Inv.next (hone : s.Single x) (h : Inv mem₀ s) : Inv mem₀ (s.next x) where
  single c := by
    rw [h.owed_next hone]
    split
    · simp
    · split
      · simp
      · exact h.single c
  sramOnce := h.sramOnce_next
  sramMem := h.sramMem_next
  sramRsp := h.sramRsp_next hone
  sramOwed _ _ hw := h.sramOwed_next hone hw
  badRsp _ hb := h.badRsp_next hone hb
  resting := (h.axi_next hone).1
  busy := (h.axi_next hone).2.1
  axiOwed _ _ hw := h.axiOwed_next hone hw
  fault := (h.axi_next hone).2.2.1

/-! ## Runs -/

variable {rdata : Word} {stim : Nat → Stim} {t u : Nat}

theorem inv_start : Inv mem₀ (start mem₀ rdata) := by
  constructor
  · exact fun _ => Nat.zero_le _
  · rfl
  · rfl
  · intro hv
    simp [start, reset] at hv
  · intro c a hw
    simp [Waits, start] at hw
  · intro c hb
    cases c <;> simp [badRspValid, start, reset] at hb
  · exact fun _ => ⟨rfl, rfl, fun hv => by simp [start, reset, Axi4Master.reset] at hv⟩
  · intro hne
    simp [start, reset, Axi4Master.reset] at hne
  · intro c a hw
    simp [Waits, start] at hw
  · intro hv
    simp [start, reset, Axi4Master.reset] at hv

theorem inv_run (hone : ∀ u < t, (run (start mem₀ rdata) stim u).Single (stim u)) :
    Inv mem₀ (run (start mem₀ rdata) stim t) := by
  induction t with
  | zero => exact inv_start
  | succ t ih => exact (ih fun u hu => hone u (by omega)).next (hone t (by omega))

theorem Inv.answers (h : Inv mem₀ s) : s.Answers x := by
  intro c hv
  obtain ⟨a, r, hw, hsrc, hd, hf⟩ := h.rsp_waits hv
  refine ⟨a, hw.1, ?_⟩
  have heq : s.rspTo x c = ⟨true, (source s x c r).data, (source s x c r).fault⟩ := by
    rw [← hd, ← hf, ← hv]
  rw [heq, hw.2]
  cases r with
  | sram =>
      simp only [source, Bool.and_eq_true, beq_iff_eq] at hsrc
      obtain ⟨b, t, hwb, htk, hdone, hacc, hcar⟩ := h.sramRsp hsrc.1
      rw [hsrc.2] at hwb htk
      rw [(hw.unique hwb).1] at htk hacc
      exact ⟨h.sramOnce, htk, t, hdone, hacc, hcar⟩
  | axi =>
      simp only [source, Bool.and_eq_true, beq_iff_eq] at hsrc
      have hidle : s.bus.master.fsm = .idle := by
        by_contra hne
        rw [(h.busy hne).quiet] at hsrc
        simp at hsrc
      obtain ⟨b, t, hwb, htk, hdone, hacc, hcar⟩ := (h.resting hidle).response hsrc.1
      rw [hsrc.2] at hwb htk
      rw [(hw.unique hwb).1] at htk hacc
      exact ⟨(h.resting hidle).all, htk, t, hdone, hacc, hcar⟩
  | bad => rfl
  | portA =>
      simp only [source, Bool.and_eq_true] at hsrc
      obtain ⟨-, d, f, hy, hans⟩ := answer_owed hsrc.2
      exact ⟨d, f, hy, by simp [source, hans]⟩
  | mmio | clint | plic =>
      simp only [source, Bool.and_eq_true] at hsrc
      obtain ⟨-, d, f, hy, hans⟩ := answer_owed hsrc.2
      exact ⟨d, f, hy, by simp [source, hans]⟩

theorem Inv.once (h : Inv mem₀ s) : s.Once mem₀ := by
  refine ⟨?_, h.sramOnce, h.sramMem⟩
  by_cases hs : s.bus.master.fsm = .idle
  · exact ⟨[], s.axiTaken, rfl, (h.resting hs).all, by simp, by simp⟩
  · obtain ⟨a, rest, htk, hrest, hw, -⟩ := (h.busy hs).transfer
    refine ⟨[(s.bus.inflightClient, a)], rest, htk, hrest, by simp, ?_⟩
    intro p hp
    rw [List.mem_singleton] at hp
    rw [hp]
    exact hw.1

/-! ## Progress -/

/-- How far a transfer is from its end. -/
def rank (m : Axi4Master.State) : Nat :=
  match m.fsm with
  | .idle => 0
  | .write | .read => 2
  | .writeB | .readR => 1

/-- A transfer comes nearer to its end with the event that its state waits for, and otherwise stays where it is. -/
structure Nearer (s : Sys) (x : Stim) : Prop where
  mono : rank (s.next x).bus.master ≤ rank s.bus.master
  stay : rank (s.next x).bus.master = rank s.bus.master → (s.next x).bus.master.fsm = s.bus.master.fsm
  arready : s.bus.master.fsm = .read → x.arready = true → rank (s.next x).bus.master < rank s.bus.master
  rAnswer : s.bus.master.fsm = .readR → x.rAnswer = true → rank (s.next x).bus.master < rank s.bus.master
  bAnswer : s.bus.master.fsm = .writeB → x.bAnswer = true → rank (s.next x).bus.master < rank s.bus.master

theorem Inv.nearer (h : Inv mem₀ s) (hs : s.bus.master.fsm ≠ .idle) : Nearer s x := by
  obtain ⟨a, rest, -, -, -, htr⟩ := (h.busy hs).transfer
  unfold Transfer at htr
  cases hf : s.bus.master.fsm with
  | idle => exact absurd hf hs
  | write =>
      have hm : (s.next x).bus.master = _ := step_write hf (r := amReq s.bus (s.input x)) (l := s.lines x)
      constructor <;> simp only [rank, hm, hf] <;>
        cases Axi4Master.awDone s.bus.master (s.lines x) && Axi4Master.wDone s.bus.master (s.lines x) <;> simp
  | writeB =>
      have hm : (s.next x).bus.master = _ := step_writeB hf (r := amReq s.bus (s.input x)) (l := s.lines x)
      rw [hf] at htr
      have hv : (s.lines x).bvalid = x.bAnswer := by simp [lines, htr.2]
      rw [hv] at hm
      constructor <;> simp only [rank, hm, hf] <;> cases x.bAnswer <;> simp [pulsed, hf]
  | read =>
      have hm : (s.next x).bus.master = _ := step_read hf (r := amReq s.bus (s.input x)) (l := s.lines x)
      have hv : (s.lines x).arready = x.arready := rfl
      rw [hv] at hm
      constructor <;> simp only [rank, hm, hf] <;> cases x.arready <;> simp [pulsed, hf]
  | readR =>
      have hm : (s.next x).bus.master = _ := step_readR hf (r := amReq s.bus (s.input x)) (l := s.lines x)
      rw [hf] at htr
      have hv : (s.lines x).rvalid = x.rAnswer := by simp [lines, htr.2]
      rw [hv] at hm
      constructor <;> simp only [rank, hm, hf] <;> cases x.rAnswer <;> simp [pulsed, hf]

/-- A store that is on offer keeps what the slave has taken of it, and leaves when the slave has taken the rest. -/
theorem write_offer (hs : s.bus.master.fsm = .write) :
    (s.next x).bus.master.awSent = (s.bus.master.awSent || x.awready) ∧
    ((s.next x).bus.master.fsm = .write → (s.bus.master.awSent && x.wready) = false) := by
  have hm : (s.next x).bus.master = _ := step_write hs (r := amReq s.bus (s.input x)) (l := s.lines x)
  have haw : (s.lines x).awready = x.awready := rfl
  have hw : (s.lines x).wready = x.wready := rfl
  rw [hm]
  simp only [Axi4Master.awDone, Axi4Master.wDone, Axi4Master.awvalid, Axi4Master.wvalid, hs, haw, hw]
  cases s.bus.master.awSent <;> cases s.bus.master.wSent <;> cases x.awready <;> cases x.wready <;> simp

theorem transfer_falls (hone : ∀ u, (run (start mem₀ rdata) stim u).Single (stim u)) (hfair : Fair stim)
    (hs : (run (start mem₀ rdata) stim t).bus.master.fsm ≠ .idle) :
    ∃ u, t ≤ u ∧ rank (run (start mem₀ rdata) stim u).bus.master < rank (run (start mem₀ rdata) stim t).bus.master := by
  by_contra hno
  have hkeep : ∀ u, t ≤ u → rank (run (start mem₀ rdata) stim u).bus.master =
      rank (run (start mem₀ rdata) stim t).bus.master ∧
      (run (start mem₀ rdata) stim u).bus.master.fsm = (run (start mem₀ rdata) stim t).bus.master.fsm := by
    intro u htu
    induction u, htu using Nat.le_induction with
    | base => exact ⟨rfl, rfl⟩
    | succ u htu ih =>
        have hn : Nearer (run (start mem₀ rdata) stim u) (stim u) := (inv_run fun v _ => hone v).nearer (by
          rw [ih.2]
          exact hs)
        have hmono := hn.mono
        have hge : ¬ rank (run (start mem₀ rdata) stim (u + 1)).bus.master <
            rank (run (start mem₀ rdata) stim t).bus.master := fun hlt => hno ⟨u + 1, by omega, hlt⟩
        have heq : rank (run (start mem₀ rdata) stim (u + 1)).bus.master =
            rank (run (start mem₀ rdata) stim u).bus.master :=
          Nat.le_antisymm hmono (by rw [ih.1]; exact Nat.le_of_not_lt hge)
        exact ⟨heq.trans ih.1, (hn.stay heq).trans ih.2⟩
  have hnear : ∀ u, t ≤ u → Nearer (run (start mem₀ rdata) stim u) (stim u) := fun u htu =>
    (inv_run fun v _ => hone v).nearer (by rw [(hkeep u htu).2]; exact hs)
  -- the rank stays, so the event that would lower it never comes
  have hstuck : ∀ u, t ≤ u → ¬ rank (run (start mem₀ rdata) stim (u + 1)).bus.master <
      rank (run (start mem₀ rdata) stim u).bus.master := by
    intro u htu hlt
    rw [(hkeep u htu).1, (hkeep (u + 1) (by omega)).1] at hlt
    omega
  cases hf : (run (start mem₀ rdata) stim t).bus.master.fsm with
  | idle => exact hs hf
  | read =>
      obtain ⟨u, htu, hu⟩ := hfair.arready t
      exact hstuck u htu ((hnear u htu).arready ((hkeep u htu).2.trans hf) hu)
  | readR =>
      obtain ⟨u, htu, hu⟩ := hfair.rAnswer t
      exact hstuck u htu ((hnear u htu).rAnswer ((hkeep u htu).2.trans hf) hu)
  | writeB =>
      obtain ⟨u, htu, hu⟩ := hfair.bAnswer t
      exact hstuck u htu ((hnear u htu).bAnswer ((hkeep u htu).2.trans hf) hu)
  | write =>
      have hw : ∀ u, t ≤ u → (run (start mem₀ rdata) stim u).bus.master.fsm = .write := fun u htu =>
        (hkeep u htu).2.trans hf
      obtain ⟨v, htv, hv⟩ := hfair.awready t
      have hsent : ∀ u, v + 1 ≤ u → (run (start mem₀ rdata) stim u).bus.master.awSent = true := by
        intro u hvu
        induction u, hvu using Nat.le_induction with
        | base =>
            have hn := (write_offer (x := stim v) (hw v htv)).1
            rw [hv, Bool.or_true] at hn
            exact hn
        | succ u hvu ih =>
            have hn := (write_offer (x := stim u) (hw u (by omega))).1
            rw [ih, Bool.true_or] at hn
            exact hn
      obtain ⟨u, hvu, hu⟩ := hfair.wready (v + 1)
      have hn := (write_offer (x := stim u) (hw u (by omega))).2 (hw (u + 1) (by omega))
      rw [hsent u hvu, hu] at hn
      simp at hn

/-- What is granted on the AXI path is answered. -/
theorem axi_answered (hone : ∀ u, (run (start mem₀ rdata) stim u).Single (stim u)) (hfair : Fair stim)
    (hw : Waits (run (start mem₀ rdata) stim t) c a .axi) :
    ∃ u, t ≤ u ∧ ((run (start mem₀ rdata) stim u).rspTo (stim u) c).valid = true ∧
      (run (start mem₀ rdata) stim u).owed c = [a] := by
  by_contra hno
  have hwait : ∀ u, t ≤ u → Waits (run (start mem₀ rdata) stim u) c a .axi := by
    intro u htu
    induction u, htu using Nat.le_induction with
    | base => exact hw
    | succ u htu ih =>
        have hinv : Inv mem₀ (run (start mem₀ rdata) stim u) := inv_run fun v _ => hone v
        refine hinv.waits_stay (hone u) ih ?_
        rw [← hinv.rsp_of_waits ih]
        by_contra hc
        exact hno ⟨u, htu, by simpa using hc, ih.1⟩
  have hfall : ∀ u, 0 < rank (run (start mem₀ rdata) stim u).bus.master → ∃ v, u ≤ v ∧
      rank (run (start mem₀ rdata) stim v).bus.master < rank (run (start mem₀ rdata) stim u).bus.master := by
    intro u hu
    refine transfer_falls hone hfair fun hidle => ?_
    simp [rank, hidle] at hu
  obtain ⟨u, htu, hu⟩ : ∃ u, t ≤ u ∧ rank (run (start mem₀ rdata) stim u).bus.master = 0 := Sync.descends hfall t
  have hinv : Inv mem₀ (run (start mem₀ rdata) stim u) := inv_run fun v _ => hone v
  have hidle : (run (start mem₀ rdata) stim u).bus.master.fsm = .idle := by
    unfold rank at hu
    cases hs : (run (start mem₀ rdata) stim u).bus.master.fsm <;> rw [hs] at hu <;> simp at hu
  obtain ⟨hbusy, hc⟩ := hinv.axiOwed c a (hwait u htu)
  have hv : (run (start mem₀ rdata) stim u).bus.master.rspValid = true := by
    rcases hbusy with hb | hb
    · exact absurd hidle hb
    · exact hb
  refine hno ⟨u, htu, ?_, (hwait u htu).1⟩
  rw [hinv.rsp_of_waits (hwait u htu)]
  simp [source, hv, hc]

/-- What is granted through port B is answered in the next cycle. -/
theorem Inv.sram_answered (h : Inv mem₀ s) (hw : Waits s c a .sram) : (s.rspTo x c).valid = true := by
  obtain ⟨hv, hc⟩ := h.sramOwed c a hw
  rw [h.rsp_of_waits hw]
  simp [source, hv, hc]

/-- Clients that ask for the AXI region only may keep their requests raised while they wait: the master takes none of
them before it has answered. -/
theorem single_of_axi (haxi : ∀ u (s : Sys) c, route c (s.requested (stim u) c).addr = .axi) (t : Nat) :
    (run (start mem₀ rdata) stim t).Single (stim t) := by
  have now : ∀ u s, Inv mem₀ s → (∀ c a, s.owed c = [a] → route c a.addr = .axi) → s.Single (stim u) := by
    intro u s h howed c ht
    have hg := axi_granted (s := s) (x := stim u) c
    simp only [ht, haxi u s c, beq_self_eq_true, Bool.and_self] at hg
    obtain ⟨hidle, hno, -⟩ := amFired_idle (Bool.and_eq_true _ _ ▸ hg.symm).1
    cases ho : s.owed c with
    | nil => simp [free, ho]
    | cons a rest =>
        have hlen := h.single c
        obtain rfl : rest = [] := by simpa [ho] using hlen
        obtain ⟨hbusy | hrsp, -⟩ := h.axiOwed c a ⟨ho, howed c a ho⟩
        · exact absurd hidle hbusy
        · rw [hno] at hrsp
          simp at hrsp
  have all : Inv mem₀ (run (start mem₀ rdata) stim t) ∧
      ∀ c a, (run (start mem₀ rdata) stim t).owed c = [a] → route c a.addr = .axi := by
    induction t with
    | zero => exact ⟨inv_start, fun c a ho => by simp [run, Sync.run, start] at ho⟩
    | succ t ih =>
        have hone := now t _ ih.1 ih.2
        refine ⟨ih.1.next hone, fun c a ho => ?_⟩
        have hnext := ih.1.owed_next hone (c := c)
        rw [show (run (start mem₀ rdata) stim (t + 1)).owed c = _ from hnext] at ho
        split_ifs at ho with ht hv
        · obtain rfl : _ = a := by simpa using ho
          exact haxi t _ c
        · exact ih.2 c a ho
  exact now t _ all.1 all.2

/-- Every response goes to the client whose access it is of, every access that is granted is performed once, and what
is granted through an arbiter is answered. -/
theorem responses_routed (mem₀ : BitVec 14 → Word) (rdata : Word) (stim : Nat → Stim) (t : Nat)
    (hone : ∀ u, (run (start mem₀ rdata) stim u).Single (stim u)) :
    (run (start mem₀ rdata) stim t).Answers (stim t) ∧ (run (start mem₀ rdata) stim t).Once mem₀ ∧
    (Fair stim → ∀ c, (run (start mem₀ rdata) stim t).takes (stim t) c = true →
      route c ((run (start mem₀ rdata) stim t).requested (stim t) c).addr = .axi ∨
        route c ((run (start mem₀ rdata) stim t).requested (stim t) c).addr = .sram →
      ∃ u, t < u ∧ ((run (start mem₀ rdata) stim u).rspTo (stim u) c).valid = true ∧
        (run (start mem₀ rdata) stim u).owed c = [(run (start mem₀ rdata) stim t).requested (stim t) c]) := by
  have hinv : ∀ u, Inv mem₀ (run (start mem₀ rdata) stim u) := fun u => inv_run fun v _ => hone v
  refine ⟨(hinv t).answers, (hinv t).once, fun hfair c ht hr => ?_⟩
  rcases hr with hr | hr
  · have hw : Waits (run (start mem₀ rdata) stim (t + 1)) c _ .axi := (hinv t).taken_waits (hone t) ht hr
    obtain ⟨u, htu, hv, ho⟩ := axi_answered hone hfair hw
    exact ⟨u, htu, hv, ho⟩
  · have hw : Waits (run (start mem₀ rdata) stim (t + 1)) c _ .sram := (hinv t).taken_waits (hone t) ht hr
    exact ⟨t + 1, by omega, (hinv (t + 1)).sram_answered hw, hw.1⟩

/-- The three clients ask the AXI slave for their own words without pause. -/
def busyStim : Stim where
  ptwReqValid := true
  ptwReqAddr := 0x40000000
  ifReqValid := true
  ifReqAddr := 0x40000004
  dmReq := ⟨true, 0x40000008, true, 0xAABBCCDD, 0xF⟩
  ifSramReady := true
  mmioReady := true
  clintReady := true
  plicReady := true
  ifSramAnswer := none
  dmAnswer := none
  awready := true
  wready := true
  arready := true
  bAnswer := true
  bresp := 0
  rAnswer := true
  rdata := 7
  rresp := 0

theorem single_busy : ∀ u, (run (start (fun _ => 0) 0) (fun _ => busyStim) u).Single busyStim :=
  single_of_axi fun _ _ c => by
    cases c
    · exact (by decide : route .ptw 0x40000000#32 = .axi)
    · exact (by decide : route .ifetch 0x40000004#32 = .axi)
    · exact (by decide : route .dmem 0x40000008#32 = .axi)

theorem responses_routed_busy : ∃ u, 0 < u ∧
    ((run (start (fun _ => 0) 0) (fun _ => busyStim) u).rspTo busyStim .ptw).valid = true ∧
      (run (start (fun _ => 0) 0) (fun _ => busyStim) u).owed .ptw = [.read 0x40000000] := by
  have hfair : Fair fun _ => busyStim :=
    ⟨fun t => ⟨t, le_refl t, rfl⟩, fun t => ⟨t, le_refl t, rfl⟩, fun t => ⟨t, le_refl t, rfl⟩,
      fun t => ⟨t, le_refl t, rfl⟩, fun t => ⟨t, le_refl t, rfl⟩⟩
  exact (responses_routed (fun _ => 0) 0 (fun _ => busyStim) 0 single_busy).2.2 hfair .ptw (by decide)
    (Or.inl (by decide))

end QinglongCore.Fabric
