import Mathlib.Tactic.Common
import QinglongCore.Axi.MasterHandshake
import QinglongCore.Base.InOrder
import QinglongCore.Isa.StoreLog
import QinglongCore.Rtl.Axi4RouterLinux

/-!
# The memory path of the Linux test bench

Master, router and BRAM of `soc_tb_linux.sv`. Between two requests all their handshake registers are at rest, so
every request runs through the same four cycles; that makes the path a memory of bytes.
-/

namespace QinglongCore.LinuxMemory

open Axi4Master (Req Lines)
open Axi4RouterLinux (decode)

structure State (n : Nat) where
  master : Axi4Master.State
  router : Axi4RouterLinux.State
  ddr : AxilBramBig.State n

/-- The native request and the lines of the UART. -/
structure In where
  req : Req
  uart : Lines

variable {n : Nat}

/-- The reset of all three, the BRAM having come up as `b`. -/
def reset (b : AxilBramBig.State n) : State n where
  master := Axi4Master.reset
  router := Axi4RouterLinux.reset
  ddr := AxilBramBig.reset b

/-- The lines that the master sees. -/
def bus (s : State n) (i : In) : Lines :=
  Axi4RouterLinux.lines s.router (Axi4Master.drive s.master) (AxilBramBig.lines s.ddr) i.uart

def step (s : State n) (i : In) : State n where
  master := Axi4Master.step s.master i.req (bus s i)
  router := Axi4RouterLinux.step s.router (Axi4Master.drive s.master) (AxilBramBig.lines s.ddr) i.uart
  ddr := AxilBramBig.step s.ddr (Axi4RouterLinux.slave s.router (Axi4Master.drive s.master) 0)

variable {s : State n} {i : In} {r : Req}

/-! ## The write side -/

structure WriteQuiet (s : State n) : Prop where
  selWValid : s.router.selWValid = false
  dAw : s.router.dAw = false
  dW : s.router.dW = false
  dB : s.router.dB = false
  awHs : s.ddr.awHs = false
  wHs : s.ddr.wHs = false
  bvalid : s.ddr.bvalid = false

/-- Address and data of the write `r` have been taken; `done` tells that the response is up. -/
structure WriteIssued (r : Req) (done : Bool) (s : State n) : Prop where
  selWValid : s.router.selWValid = true
  selW : s.router.selW = decode r.addr
  dAw : s.router.dAw = (decode r.addr == 2)
  dW : s.router.dW = (decode r.addr == 2)
  dB : s.router.dB = (done && decode r.addr == 2)
  awHs : s.ddr.awHs = (decode r.addr == 0)
  wHs : s.ddr.wHs = (decode r.addr == 0)
  bvalid : s.ddr.bvalid = (done && decode r.addr == 0)
  latched : decode r.addr = 0 → s.ddr.awaddr = r.addr ∧ s.ddr.wdata = r.wdata ∧ s.ddr.wstrb = r.wmask

/-! ## What the master drives -/

structure Latched (r : Req) (m : Axi4Master.State) : Prop where
  addr : m.addr = r.addr
  wdata : m.wdata = r.wdata
  wmask : m.wmask = r.wmask

section
variable {m : Axi4Master.State}

theorem drive_write (h : m.fsm = .write) :
    Axi4Master.drive m =
      { awvalid := !m.awSent, awaddr := m.addr, wvalid := !m.wSent, wdata := m.wdata, wstrb := m.wmask
        bready := false, arvalid := false, araddr := m.addr, rready := false } := by
  cases m
  cases h
  rfl

theorem drive_writeB (h : m.fsm = .writeB) :
    Axi4Master.drive m =
      { awvalid := false, awaddr := m.addr, wvalid := false, wdata := m.wdata, wstrb := m.wmask
        bready := true, arvalid := false, araddr := m.addr, rready := false } := by
  cases m
  cases h
  rfl

theorem drive_read (h : m.fsm = .read) :
    Axi4Master.drive m =
      { awvalid := false, awaddr := m.addr, wvalid := false, wdata := m.wdata, wstrb := m.wmask
        bready := false, arvalid := true, araddr := m.addr, rready := false } := by
  cases m
  cases h
  rfl

theorem drive_readR (h : m.fsm = .readR) :
    Axi4Master.drive m =
      { awvalid := false, awaddr := m.addr, wvalid := false, wdata := m.wdata, wstrb := m.wmask
        bready := false, arvalid := false, araddr := m.addr, rready := true } := by
  cases m
  cases h
  rfl

theorem drive_idle (h : m.fsm = .idle) :
    Axi4Master.drive m =
      { awvalid := false, awaddr := m.addr, wvalid := false, wdata := m.wdata, wstrb := m.wmask
        bready := false, arvalid := false, araddr := m.addr, rready := false } := by
  cases m
  cases h
  rfl

end

/-- With nothing offered the write side rests, and the memory keeps its words. -/
theorem writeQuiet_step (h : WriteQuiet s) (ha : (Axi4Master.drive s.master).awvalid = false)
    (hw : (Axi4Master.drive s.master).wvalid = false) :
    WriteQuiet (step s i) ∧ (step s i).ddr.mem = s.ddr.mem := by
  obtain ⟨h₁, h₂, h₃, h₄, h₅, h₆, h₇⟩ := h
  refine ⟨⟨?_, ?_, ?_, ?_, ?_, ?_, ?_⟩, ?_⟩ <;>
    simp [step, Axi4RouterLinux.step, AxilBramBig.step, Axi4RouterLinux.lines, Axi4RouterLinux.slave, *]

theorem write_issue (h : WriteQuiet s) (hf : s.master.fsm = .write) (ha : s.master.awSent = false)
    (hw : s.master.wSent = false) (hr : Latched r s.master) (hd : decode r.addr = 0 ∨ decode r.addr = 2) :
    WriteIssued r false (step s i) ∧ (step s i).ddr.mem = s.ddr.mem ∧ (step s i).master.fsm = .writeB := by
  obtain ⟨h₁, h₂, h₃, h₄, h₅, h₆, h₇⟩ := h
  obtain ⟨hr₁, hr₂, hr₃⟩ := hr
  have hv := drive_write hf
  refine ⟨⟨?_, ?_, ?_, ?_, ?_, ?_, ?_, ?_, ?_⟩, ?_, ?_⟩
  case refine_11 =>
    have hm : (step s i).master = _ := Axi4Master.step_write s.master i.req (bus s i) hf
    rw [hm]
    rcases hd with hd | hd <;>
      simp [Axi4Master.awDone, Axi4Master.wDone, Axi4Master.awvalid, Axi4Master.wvalid, bus, Axi4RouterLinux.lines,
        AxilBramBig.lines, *]
  all_goals
    rcases hd with hd | hd <;>
      simp [step, Axi4RouterLinux.step, AxilBramBig.step, Axi4RouterLinux.lines, Axi4RouterLinux.slave,
        AxilBramBig.lines, *]

/-- What the word memory becomes with the request `r`. -/
def served (r : Req) (mem : BitVec n → Word) : BitVec n → Word := fun k =>
  if r.wen && decode r.addr == 0 && k == AxilBramBig.index n r.addr then mergeBytes (mem k) r.wdata r.wmask else mem k

/-- What the master sees of the response to a write. -/
theorem WriteIssued.bus_b {d : Bool} (h : WriteIssued r d s) (hd : decode r.addr = 0 ∨ decode r.addr = 2) :
    (bus s i).bvalid = d ∧ (bus s i).bresp = if decode r.addr = 0 then 0 else 0b11 := by
  obtain ⟨h₁, h₂, -, -, h₅, -, -, h₈, -⟩ := h
  rcases hd with hd | hd <;> simp [bus, Axi4RouterLinux.lines, AxilBramBig.lines, h₁, h₂, h₅, h₈, hd]

theorem write_store (h : WriteIssued r false s) (hf : s.master.fsm = .writeB) (hw : r.wen = true)
    (hd : decode r.addr = 0 ∨ decode r.addr = 2) :
    WriteIssued r true (step s i) ∧ (step s i).ddr.mem = served r s.ddr.mem ∧ (step s i).master.fsm = .writeB := by
  have hm : (step s i).master = _ := Axi4Master.step_writeB s.master i.req (bus s i) hf
  rw [(h.bus_b hd).1] at hm
  obtain ⟨h₁, h₂, h₃, h₄, h₅, h₆, h₇, h₈, h₉⟩ := h
  have hv := drive_writeB hf
  refine ⟨⟨?_, ?_, ?_, ?_, ?_, ?_, ?_, ?_, ?_⟩, ?_, ?_⟩
  case refine_10 =>
    funext k
    rcases hd with hd | hd <;>
      simp [step, AxilBramBig.step, Axi4RouterLinux.slave, AxilBramBig.awIdx, served, *]
  case refine_11 => simp [hm, Axi4Master.settle, hf]
  all_goals
    rcases hd with hd | hd <;>
      simp [step, Axi4RouterLinux.step, AxilBramBig.step, Axi4RouterLinux.lines, Axi4RouterLinux.slave,
        AxilBramBig.lines, *]

theorem write_reply (h : WriteIssued r true s) (hf : s.master.fsm = .writeB)
    (hd : decode r.addr = 0 ∨ decode r.addr = 2) :
    WriteQuiet (step s i) ∧ (step s i).ddr.mem = s.ddr.mem ∧
      (step s i).master = Axi4Master.answer s.master 0 (if decode r.addr = 0 then 0 else 0b11) := by
  have hm : (step s i).master = _ := Axi4Master.step_writeB s.master i.req (bus s i) hf
  rw [(h.bus_b hd).1, (h.bus_b hd).2] at hm
  obtain ⟨h₁, h₂, h₃, h₄, h₅, h₆, h₇, h₈, h₉⟩ := h
  have hv := drive_writeB hf
  refine ⟨⟨?_, ?_, ?_, ?_, ?_, ?_, ?_⟩, ?_, hm⟩
  all_goals
    rcases hd with hd | hd <;>
      simp [step, Axi4RouterLinux.step, AxilBramBig.step, Axi4RouterLinux.lines, Axi4RouterLinux.slave,
        AxilBramBig.lines, *]

/-! ## The read side -/

structure ReadQuiet (s : State n) : Prop where
  selRValid : s.router.selRValid = false
  dAr : s.router.dAr = false
  dR : s.router.dR = false
  arHs : s.ddr.arHs = false
  rvalid : s.ddr.rvalid = false

/-- The address of the read `r` has been taken; `done` tells that the response is up. -/
structure ReadIssued (r : Req) (done : Bool) (s : State n) : Prop where
  selRValid : s.router.selRValid = true
  selR : s.router.selR = decode r.addr
  dAr : s.router.dAr = (decode r.addr == 2)
  dR : s.router.dR = (done && decode r.addr == 2)
  arHs : s.ddr.arHs = (decode r.addr == 0)
  rvalid : s.ddr.rvalid = (done && decode r.addr == 0)
  latched : decode r.addr = 0 → s.ddr.araddr = r.addr
  data : done = true → decode r.addr = 0 → s.ddr.rdata = s.ddr.mem (AxilBramBig.index n r.addr)

theorem readQuiet_step (h : ReadQuiet s) (ha : (Axi4Master.drive s.master).arvalid = false) : ReadQuiet (step s i) := by
  obtain ⟨h₁, h₂, h₃, h₄, h₅⟩ := h
  refine ⟨?_, ?_, ?_, ?_, ?_⟩ <;>
    simp [step, Axi4RouterLinux.step, AxilBramBig.step, Axi4RouterLinux.lines, Axi4RouterLinux.slave, *]

theorem read_issue (h : ReadQuiet s) (hf : s.master.fsm = .read) (hr : Latched r s.master)
    (hd : decode r.addr = 0 ∨ decode r.addr = 2) :
    ReadIssued r false (step s i) ∧ (step s i).master.fsm = .readR := by
  obtain ⟨h₁, h₂, h₃, h₄, h₅⟩ := h
  obtain ⟨hr₁, hr₂, hr₃⟩ := hr
  have hv := drive_read hf
  refine ⟨⟨?_, ?_, ?_, ?_, ?_, ?_, ?_, ?_⟩, ?_⟩
  case refine_9 =>
    have hm : (step s i).master = _ := Axi4Master.step_read s.master i.req (bus s i) hf
    rw [hm]
    rcases hd with hd | hd <;> simp [bus, Axi4RouterLinux.lines, AxilBramBig.lines, *]
  all_goals
    rcases hd with hd | hd <;>
      simp [step, Axi4RouterLinux.step, AxilBramBig.step, Axi4RouterLinux.lines, Axi4RouterLinux.slave,
        AxilBramBig.lines, *]

/-- What the master sees of the response to a read. -/
theorem ReadIssued.bus_r {d : Bool} (h : ReadIssued r d s) (hd : decode r.addr = 0 ∨ decode r.addr = 2) :
    (bus s i).rvalid = d ∧
      (d = true →
        (bus s i).rdata = (if decode r.addr = 0 then s.ddr.mem (AxilBramBig.index n r.addr) else 0) ∧
          (bus s i).rresp = if decode r.addr = 0 then 0 else 0b11) := by
  obtain ⟨h₁, h₂, -, h₄, -, h₆, -, h₈⟩ := h
  rcases hd with hd | hd
  · refine ⟨by simp [bus, Axi4RouterLinux.lines, AxilBramBig.lines, h₁, h₂, h₆, hd], fun ht => ?_⟩
    simp [bus, Axi4RouterLinux.lines, AxilBramBig.lines, h₁, h₂, h₈ ht hd, hd]
  · simp [bus, Axi4RouterLinux.lines, AxilBramBig.lines, h₁, h₂, h₄, hd]

theorem read_load (h : ReadIssued r false s) (hq : WriteQuiet s) (hf : s.master.fsm = .readR)
    (hd : decode r.addr = 0 ∨ decode r.addr = 2) :
    ReadIssued r true (step s i) ∧ (step s i).master.fsm = .readR := by
  have hv := drive_readR hf
  have hmem := (writeQuiet_step (i := i) hq (by rw [hv]) (by rw [hv])).2
  have hm : (step s i).master = _ := Axi4Master.step_readR s.master i.req (bus s i) hf
  rw [(h.bus_r hd).1] at hm
  obtain ⟨h₁, h₂, h₃, h₄, h₅, h₆, h₇, -⟩ := h
  refine ⟨⟨?_, ?_, ?_, ?_, ?_, ?_, ?_, ?_⟩, ?_⟩
  case refine_8 =>
    intro _ hz
    rw [hmem]
    simp [step, AxilBramBig.step, AxilBramBig.arIdx, h₅, h₆, h₇ hz, hz]
  case refine_9 => simp [hm, Axi4Master.settle, hf]
  all_goals
    rcases hd with hd | hd <;>
      simp [step, Axi4RouterLinux.step, AxilBramBig.step, Axi4RouterLinux.lines, Axi4RouterLinux.slave,
        AxilBramBig.lines, *]

theorem read_reply (h : ReadIssued r true s) (hf : s.master.fsm = .readR)
    (hd : decode r.addr = 0 ∨ decode r.addr = 2) :
    ReadQuiet (step s i) ∧
      (step s i).master =
        Axi4Master.answer s.master
          (if decode r.addr = 0 then s.ddr.mem (AxilBramBig.index n r.addr) else 0)
          (if decode r.addr = 0 then 0 else 0b11) := by
  have hm : (step s i).master = _ := Axi4Master.step_readR s.master i.req (bus s i) hf
  rw [(h.bus_r hd).1, ((h.bus_r hd).2 rfl).1, ((h.bus_r hd).2 rfl).2] at hm
  obtain ⟨h₁, h₂, h₃, h₄, h₅, h₆, h₇, h₈⟩ := h
  have hv := drive_readR hf
  refine ⟨⟨?_, ?_, ?_, ?_, ?_⟩, hm⟩
  all_goals
    rcases hd with hd | hd <;>
      simp [step, Axi4RouterLinux.step, AxilBramBig.step, Axi4RouterLinux.lines, Axi4RouterLinux.slave,
        AxilBramBig.lines, *]

/-! ## One request -/

structure Idle (s : State n) : Prop where
  fsm : s.master.fsm = .idle
  write : WriteQuiet s
  read : ReadQuiet s

theorem idle_mem (h : Idle s) : (step s i).ddr.mem = s.ddr.mem :=
  (writeQuiet_step h.write (by rw [drive_idle h.fsm]) (by rw [drive_idle h.fsm])).2

theorem idle_quiet (h : Idle s) : WriteQuiet (step s i) ∧ ReadQuiet (step s i) :=
  ⟨(writeQuiet_step h.write (by rw [drive_idle h.fsm]) (by rw [drive_idle h.fsm])).1,
    readQuiet_step h.read (by rw [drive_idle h.fsm])⟩

/-- An idle path that accepts nothing stays idle and gives no response. -/
theorem idle_stay (h : Idle s) (ha : (i.req.valid && Axi4Master.reqReady s.master) = false) :
    Idle (step s i) ∧ (step s i).master.rspValid = false := by
  have hm : (step s i).master = Axi4Master.settle s.master := by
    have hs := Axi4Master.step_idle s.master i.req (bus s i) h.fsm
    rw [ha] at hs
    exact hs
  obtain ⟨hw, hr⟩ := idle_quiet (i := i) h
  exact ⟨⟨by rw [hm]; exact h.fsm, hw, hr⟩, by rw [hm]; rfl⟩

theorem idle_accept (h : Idle s) (ha : (i.req.valid && Axi4Master.reqReady s.master) = true) :
    (step s i).master = Axi4Master.latch s.master i.req := by
  have hs := Axi4Master.step_idle s.master i.req (bus s i) h.fsm
  rw [ha] at hs
  exact hs

theorem latched_latch (m : Axi4Master.State) (r : Req) : Latched r (Axi4Master.latch m r) := ⟨rfl, rfl, rfl⟩

/-- The path has answered `r`: at rest again, the memory served and the response right. -/
structure Replied (r : Req) (mem₀ : BitVec n → Word) (s : State n) : Prop where
  idle : Idle s
  mem : s.ddr.mem = served r mem₀
  responds : s.master.rspValid = true
  fault : s.master.rspFault = (decode r.addr == 2)
  data : r.wen = false → decode r.addr = 0 → s.master.rspRdata = mem₀ (AxilBramBig.index n r.addr)

theorem fault_of_decode (hd : decode r.addr = 0 ∨ decode r.addr = 2) :
    ((if decode r.addr = 0 then 0#2 else 0b11#2) != 0) = (decode r.addr == 2) := by
  rcases hd with hd | hd <;> simp [hd]

section
variable {b : AxilBramBig.State n} {inp : Nat → In} {t : Nat}

def run (b : AxilBramBig.State n) (inp : Nat → In) : Nat → State n := Sync.run step (reset b) inp

theorem run_succ : run b inp (t + 1) = step (run b inp t) (inp t) := rfl

def accepted (b : AxilBramBig.State n) (inp : Nat → In) (t : Nat) : Bool :=
  (inp t).req.valid && Axi4Master.reqReady (run b inp t).master

def responds (b : AxilBramBig.State n) (inp : Nat → In) (t : Nat) : Bool := (run b inp t).master.rspValid

/-- A write takes four cycles from its acceptance to the response. -/
theorem write_transfer (hi : Idle (run b inp t)) (ha : accepted b inp t = true) (hw : (inp t).req.wen = true)
    (hd : decode (inp t).req.addr = 0 ∨ decode (inp t).req.addr = 2) :
    (∀ k, 1 ≤ k → k ≤ 3 → (run b inp (t + k)).master.fsm ≠ .idle) ∧
      Replied (inp t).req (run b inp t).ddr.mem (run b inp (t + 4)) := by
  have hm : (run b inp (t + 1)).master = _ := idle_accept hi ha
  have hf₁ : (run b inp (t + 1)).master.fsm = .write := by simp [hm, Axi4Master.latch, hw]
  obtain ⟨hq₁, hr₁⟩ : WriteQuiet (run b inp (t + 1)) ∧ ReadQuiet (run b inp (t + 1)) := idle_quiet hi
  have hmem₁ : (run b inp (t + 1)).ddr.mem = (run b inp t).ddr.mem := idle_mem hi
  obtain ⟨hi₂, hmem₂, hf₂⟩ := write_issue (i := inp (t + 1)) hq₁ hf₁ (by simp [hm, Axi4Master.latch])
    (by simp [hm, Axi4Master.latch]) (hm ▸ latched_latch _ _) hd
  rw [← run_succ] at hi₂ hmem₂ hf₂
  have hr₂ : ReadQuiet (run b inp (t + 2)) := readQuiet_step (s := run b inp (t + 1)) hr₁ (by rw [drive_write hf₁])
  obtain ⟨hi₃, hmem₃, hf₃⟩ := write_store (i := inp (t + 2)) hi₂ hf₂ hw hd
  rw [← run_succ] at hi₃ hmem₃ hf₃
  have hr₃ : ReadQuiet (run b inp (t + 3)) := readQuiet_step (s := run b inp (t + 2)) hr₂ (by rw [drive_writeB hf₂])
  obtain ⟨hq₄, hmem₄, hm₄⟩ := write_reply (i := inp (t + 3)) hi₃ hf₃ hd
  rw [← run_succ] at hq₄ hmem₄ hm₄
  have hr₄ : ReadQuiet (run b inp (t + 4)) := readQuiet_step (s := run b inp (t + 3)) hr₃ (by rw [drive_writeB hf₃])
  refine ⟨fun k hk₁ hk₃ => ?_, ⟨⟨?_, hq₄, hr₄⟩, ?_, ?_, ?_, ?_⟩⟩
  · rcases (by omega : k = 1 ∨ k = 2 ∨ k = 3) with rfl | rfl | rfl
    · simp [hf₁]
    · simp [hf₂]
    · simp [hf₃]
  · rw [hm₄]
    rfl
  · rw [hmem₄, hmem₃, hmem₂, hmem₁]
  · rw [hm₄]
    rfl
  · rw [hm₄]
    exact fault_of_decode hd
  · intro hw'
    rw [hw] at hw'
    simp at hw'

/-- So does a read. -/
theorem read_transfer (hi : Idle (run b inp t)) (ha : accepted b inp t = true) (hw : (inp t).req.wen = false)
    (hd : decode (inp t).req.addr = 0 ∨ decode (inp t).req.addr = 2) :
    (∀ k, 1 ≤ k → k ≤ 3 → (run b inp (t + k)).master.fsm ≠ .idle) ∧
      Replied (inp t).req (run b inp t).ddr.mem (run b inp (t + 4)) := by
  have hm : (run b inp (t + 1)).master = _ := idle_accept hi ha
  have hf₁ : (run b inp (t + 1)).master.fsm = .read := by simp [hm, Axi4Master.latch, hw]
  obtain ⟨hq₁, hr₁⟩ : WriteQuiet (run b inp (t + 1)) ∧ ReadQuiet (run b inp (t + 1)) := idle_quiet hi
  have hmem₁ : (run b inp (t + 1)).ddr.mem = (run b inp t).ddr.mem := idle_mem hi
  obtain ⟨hi₂, hf₂⟩ := read_issue (i := inp (t + 1)) hr₁ hf₁ (hm ▸ latched_latch _ _) hd
  rw [← run_succ] at hi₂ hf₂
  obtain ⟨hq₂, hmem₂⟩ := writeQuiet_step (i := inp (t + 1)) hq₁ (by rw [drive_read hf₁]) (by rw [drive_read hf₁])
  rw [← run_succ] at hq₂ hmem₂
  obtain ⟨hi₃, hf₃⟩ := read_load (i := inp (t + 2)) hi₂ hq₂ hf₂ hd
  rw [← run_succ] at hi₃ hf₃
  obtain ⟨hq₃, hmem₃⟩ := writeQuiet_step (i := inp (t + 2)) hq₂ (by rw [drive_readR hf₂]) (by rw [drive_readR hf₂])
  rw [← run_succ] at hq₃ hmem₃
  obtain ⟨hr₄, hm₄⟩ := read_reply (i := inp (t + 3)) hi₃ hf₃ hd
  rw [← run_succ] at hr₄ hm₄
  obtain ⟨hq₄, hmem₄⟩ := writeQuiet_step (i := inp (t + 3)) hq₃ (by rw [drive_readR hf₃]) (by rw [drive_readR hf₃])
  rw [← run_succ] at hq₄ hmem₄
  refine ⟨fun k hk₁ hk₃ => ?_, ⟨⟨?_, hq₄, hr₄⟩, ?_, ?_, ?_, ?_⟩⟩
  · rcases (by omega : k = 1 ∨ k = 2 ∨ k = 3) with rfl | rfl | rfl
    · simp [hf₁]
    · simp [hf₂]
    · simp [hf₃]
  · rw [hm₄]
    rfl
  · rw [hmem₄, hmem₃, hmem₂, hmem₁]
    funext k
    simp [served, hw]
  · rw [hm₄]
    rfl
  · rw [hm₄]
    exact fault_of_decode hd
  · intro _ hz
    rw [hm₄, ← hmem₁, ← hmem₂, ← hmem₃]
    simp [Axi4Master.answer, hz]

theorem decode_cases (a : Word) : decode a = 0 ∨ decode a = 1 ∨ decode a = 2 := by
  unfold decode
  split_ifs <;> simp

/-- No request for the UART is accepted. -/
def NoUart (b : AxilBramBig.State n) (inp : Nat → In) : Prop :=
  ∀ t, accepted b inp t = true → decode (inp t).req.addr ≠ 1

theorem transfer (hu : NoUart b inp) (hi : Idle (run b inp t)) (ha : accepted b inp t = true) :
    (∀ k, 1 ≤ k → k ≤ 3 → (run b inp (t + k)).master.fsm ≠ .idle) ∧
      Replied (inp t).req (run b inp t).ddr.mem (run b inp (t + 4)) := by
  have hd : decode (inp t).req.addr = 0 ∨ decode (inp t).req.addr = 2 := by
    rcases decode_cases (inp t).req.addr with h | h | h
    · exact .inl h
    · exact absurd h (hu t ha)
    · exact .inr h
  cases hw : (inp t).req.wen with
  | true => exact write_transfer hi ha hw hd
  | false => exact read_transfer hi ha hw hd

/-! ## The memory of bytes -/

open Isa (byteOf byteOf_mergeBytes)

variable (b inp) in
/-- The byte that the request accepted in cycle `t` writes to byte `k` of word `j`, if it does. -/
def writes (j : BitVec n) (k : Fin 4) (t : Nat) : Option (BitVec 8) :=
  let r := (inp t).req
  if accepted b inp t && (r.wen && decode r.addr == 0 && j == AxilBramBig.index n r.addr) && r.wmask.getLsbD k.val then
    some (byteOf r.wdata k)
  else none

variable (b inp) in
/-- The last byte written before cycle `t`, or the one the BRAM has come up with. -/
def content (t : Nat) (j : BitVec n) (k : Fin 4) : BitVec 8 :=
  (Events.latest (writes b inp j k) t).getD (byteOf (b.mem j) k)

theorem content_stay (ha : accepted b inp t = false) (j : BitVec n) (k : Fin 4) :
    content b inp (t + 1) j k = content b inp t j k := by
  unfold content
  rw [Events.latest_of_none (by simp [writes, ha])]

theorem content_served (ha : accepted b inp t = true) {mem : BitVec n → Word}
    (h : ∀ j k, byteOf (mem j) k = content b inp t j k) (j : BitVec n) (k : Fin 4) :
    byteOf (served (inp t).req mem j) k = content b inp (t + 1) j k := by
  unfold content served
  cases hw : (inp t).req.wen && decode (inp t).req.addr == 0 && j == AxilBramBig.index n (inp t).req.addr
  · rw [Events.latest_of_none (by simp only [writes, hw]; simp)]
    exact h j k
  · rw [if_pos rfl, byteOf_mergeBytes]
    cases hm : (inp t).req.wmask.getLsbD k.val
    · rw [Events.latest_of_none (by simp only [writes, hw, hm]; simp)]
      exact h j k
    · rw [Events.latest_of_mark (x := byteOf (inp t).req.wdata k) (by simp only [writes, ha, hw, hm]; simp)]
      simp

variable (b inp) in
/-- The response of cycle `u` is the one that the request accepted in cycle `a` is due. -/
structure Fits (a u : Nat) : Prop where
  mapped : decode (inp a).req.addr = 0 → (run b inp u).master.rspFault = false ∧
    ((inp a).req.wen = false →
      ∀ k, byteOf (run b inp u).master.rspRdata k = content b inp a (AxilBramBig.index n (inp a).req.addr) k)
  unmapped : decode (inp a).req.addr = 2 →
    (run b inp u).master.rspFault = true ∧ (run b inp u).ddr.mem = (run b inp a).ddr.mem

/-! ## Runs -/

variable (b inp) in
/-- Between two requests: the path is idle, its memory is the last bytes written, and every request is answered
but the one whose response is up. -/
structure Settled (t : Nat) : Prop where
  idle : Idle (run b inp t)
  content : ∀ j k, byteOf ((run b inp t).ddr.mem j) k = content b inp t j k
  unanswered : responds b inp t = false → InOrder.outstanding (accepted b inp) (responds b inp) t = []
  answers : responds b inp t = true →
    ∃ a, InOrder.outstanding (accepted b inp) (responds b inp) t = [a] ∧ Fits b inp a t

theorem settled_zero : Settled b inp 0 where
  idle := by
    refine ⟨rfl, ⟨rfl, rfl, rfl, rfl, rfl, rfl, rfl⟩, ⟨rfl, rfl, rfl, rfl, rfl⟩⟩
  content _ _ := rfl
  unanswered _ := rfl
  answers h := by simp [responds, run, reset, Axi4Master.reset] at h

theorem responds_of_accepted (ha : accepted b inp t = true) : responds b inp t = false := by
  simp only [accepted, Axi4Master.reqReady, Bool.and_eq_true, Bool.not_eq_true'] at ha
  exact ha.2.1.2

theorem settled_stay (h : Settled b inp t) (ha : accepted b inp t = false) : Settled b inp (t + 1) := by
  obtain ⟨hi, hr⟩ := idle_stay h.idle ha
  have hr' : responds b inp (t + 1) = false := hr
  refine ⟨hi, fun j k => ?_, fun _ => ?_, fun hr₁ => ?_⟩
  · rw [content_stay ha, run_succ, idle_mem h.idle]
    exact h.content j k
  · cases hrt : responds b inp t
    · rw [InOrder.outstanding_idle ha hrt]
      exact h.unanswered hrt
    · obtain ⟨a, hl, -⟩ := h.answers hrt
      exact InOrder.outstanding_return hl ha hrt
  · rw [hr'] at hr₁
    simp at hr₁

theorem rests_run : Axi4Master.Rests (run b inp t).master := by
  induction t with
  | zero => simp [Axi4Master.Rests, run, Sync.run, reset, Axi4Master.reset]
  | succ t ih => exact Axi4Master.rests_step _ _ _ ih

theorem quiet_of_busy (h : (run b inp t).master.fsm ≠ .idle) :
    accepted b inp t = false ∧ responds b inp t = false := by
  constructor
  · simp [accepted, Axi4Master.reqReady, h]
  · cases hr : responds b inp t
    · rfl
    · exact absurd (rests_run (.inl hr)) h

/-- While a request is served it is the only one outstanding. -/
theorem outstanding_served (hu : NoUart b inp) (h : Settled b inp t) (ha : accepted b inp t = true) {k : Nat}
    (hk₁ : 1 ≤ k) (hk : k ≤ 4) : InOrder.outstanding (accepted b inp) (responds b inp) (t + k) = [t] := by
  induction k, hk₁ using Nat.le_induction with
  | base =>
      rw [InOrder.outstanding_issue (h.unanswered (responds_of_accepted ha)), ha]
      rfl
  | succ k hk₁ ih =>
      obtain ⟨hacc, hr⟩ := quiet_of_busy ((transfer hu h.idle ha).1 k hk₁ (by omega))
      exact (InOrder.outstanding_idle hacc hr).trans (ih (by omega))

theorem content_kept (hu : NoUart b inp) (h : Settled b inp t) (ha : accepted b inp t = true) {m : Nat}
    (hm₁ : 1 ≤ m) (hm : m ≤ 4) (j : BitVec n) (k : Fin 4) : content b inp (t + m) j k = content b inp (t + 1) j k := by
  induction m, hm₁ using Nat.le_induction with
  | base => rfl
  | succ m hm₁ ih =>
      have hacc := (quiet_of_busy ((transfer hu h.idle ha).1 m hm₁ (by omega))).1
      exact (content_stay hacc j k).trans (ih (by omega))

theorem settled_served (hu : NoUart b inp) (h : Settled b inp t) (ha : accepted b inp t = true) :
    Settled b inp (t + 4) ∧ responds b inp (t + 4) = true := by
  obtain ⟨hi, hmem, hresp, hfault, hdata⟩ := (transfer hu h.idle ha).2
  refine ⟨⟨hi, fun j k => ?_, fun hr => ?_, fun _ => ⟨t, outstanding_served hu h ha (by omega) (by omega), ?_⟩⟩, hresp⟩
  · rw [hmem, content_kept hu h ha (by omega) (by omega)]
    exact content_served ha h.content j k
  · rw [responds, hresp] at hr
    simp at hr
  · refine ⟨fun hz => ⟨by rw [hfault, hz]; rfl, fun hw k => ?_⟩, fun hz => ⟨by rw [hfault, hz]; rfl, ?_⟩⟩
    · rw [hdata hw hz]
      exact h.content _ k
    · rw [hmem]
      funext j
      simp [served, hz]

/-- Every cycle lies in a settled one or in the four cycles that a request takes. -/
theorem settled_or_served (hu : NoUart b inp) (t : Nat) :
    ∃ a, a ≤ t ∧ Settled b inp a ∧ (a = t ∨ (accepted b inp a = true ∧ t < a + 4)) := by
  induction t with
  | zero => exact ⟨0, le_refl 0, settled_zero, .inl rfl⟩
  | succ t ih =>
      obtain ⟨a, hat, hs, rfl | ⟨ha, hlt⟩⟩ := ih
      · cases ha : accepted b inp a
        · exact ⟨a + 1, le_refl _, settled_stay hs ha, .inl rfl⟩
        · exact ⟨a, by omega, hs, .inr ⟨ha, by omega⟩⟩
      · rcases Nat.lt_or_ge (t + 1) (a + 4) with hlt' | hge
        · exact ⟨a, by omega, hs, .inr ⟨ha, hlt'⟩⟩
        · have heq : t + 1 = a + 4 := by omega
          rw [heq]
          exact ⟨a + 4, le_refl _, (settled_served hu hs ha).1, .inl rfl⟩

variable (b inp) in
/-- Every accepted request is answered once, in order and in the end, by the memory of bytes. -/
structure ByteMemory : Prop where
  serves : InOrder.Serves (accepted b inp) (responds b inp) (Fits b inp)
  prompt : InOrder.Prompt (accepted b inp) (responds b inp)

end

/-- Two bytes written to an empty memory, and the word read from then on. -/
def writeRead (t : Nat) : In where
  req := { valid := true, addr := 0x40000010, wen := t == 0, wdata := 0xDEADBEEF, wmask := 0b0101 }
  uart :=
    { awready := false, wready := false, bvalid := false, bresp := 0, arready := false, rvalid := false, rdata := 0
      rresp := 0 }

def emptyBram : AxilBramBig.State 25 where
  mem := fun _ => 0
  awHs := true
  wHs := false
  awaddr := 0
  wdata := 0
  wstrb := 0
  bvalid := true
  arHs := false
  rvalid := false
  araddr := 0
  rdata := 0

end QinglongCore.LinuxMemory
