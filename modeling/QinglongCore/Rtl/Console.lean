import Mathlib.Data.Nat.Log
import QinglongCore.Base.Sync
import QinglongCore.Rtl.Axi4Master

/-!
# Console port (`mmio.sv`, `uart_tx.sv`, `hello_top.sv`)

The console and exit registers, the serial transmitter, and their wiring on the board.
-/

namespace QinglongCore

namespace Mmio

def ADDR_CONSOLE : Word := 0xD0580000#32
def ADDR_EXIT : Word := 0xD0580004#32
def ADDR_STATUS : Word := 0xD0580008#32

structure State where
  consoleValid : Bool
  consoleByte : BitVec 8
  exitValid : Bool
  exitCode : Word
  rspValid : Bool
  rspRdata : Word
  rspFault : Bool

def reset : State where
  consoleValid := false
  consoleByte := 0
  exitValid := false
  exitCode := 0
  rspValid := false
  rspRdata := 0
  rspFault := false

variable (s : State) (r : Axi4Master.Req) (consoleReady : Bool)

def isConsoleStore : Bool := r.valid && r.wen && r.addr == ADDR_CONSOLE

/-- Console stores stall while the transmitter is busy. -/
def reqReady : Bool := if isConsoleStore r then consoleReady else true

/-- A request that is taken. -/
def accept : State :=
  let g := { s with consoleValid := false, rspValid := true, rspRdata := 0, rspFault := false }
  if r.addr = ADDR_CONSOLE then
    if r.wen && r.wmask.getLsbD 0 then { g with consoleValid := true, consoleByte := r.wdata.extractLsb' 0 8 } else g
  else if r.addr = ADDR_EXIT then
    if r.wen then { g with exitValid := true, exitCode := r.wdata } else g
  else if r.addr = ADDR_STATUS then g
  else { g with rspFault := true }

/-- One clock edge out of reset. -/
def step : State :=
  if r.valid && reqReady r consoleReady then accept s r
  else { s with consoleValid := false, rspValid := false, rspFault := false }

end Mmio

namespace UartTx

/-- `$clog2(DIV_MAX+1)`, the width of the divider. -/
abbrev divWidth (divMax : Nat) : Nat := Nat.clog 2 (divMax + 1)

/-- The registers, for a bit of `divMax` clock cycles. -/
structure State (divMax : Nat) where
  sreg : BitVec 10
  divCnt : BitVec (divWidth divMax)
  bitCnt : BitVec 4
  busy : Bool

def reset (divMax : Nat) : State divMax where
  sreg := 0x3FF
  divCnt := 0
  bitCnt := 0
  busy := false

variable {divMax : Nat} (s : State divMax) (txValid : Bool) (txData : BitVec 8)

def txReady : Bool := !s.busy
def tx : Bool := if s.busy then s.sreg.getLsbD 0 else true

/-- One clock edge out of reset. -/
def step : State divMax :=
  if !s.busy then
    if txValid then { sreg := 1#1 ++ txData ++ 0#1, divCnt := 0, bitCnt := 0, busy := true } else s
  else if s.divCnt.toNat = divMax - 1 then
    { divCnt := 0
      sreg := 1#1 ++ s.sreg.extractLsb' 1 9
      busy := s.bitCnt != 9#4
      bitCnt := if s.bitCnt = 9#4 then 0 else s.bitCnt + 1 }
  else { s with divCnt := s.divCnt + 1 }

end UartTx

namespace HelloTop

/-- The console port of the SoC and the transmitter behind it. -/
structure State (divMax : Nat) where
  mmio : Mmio.State
  uart : UartTx.State divMax

def reset (divMax : Nat) : State divMax where
  mmio := Mmio.reset
  uart := UartTx.reset divMax

variable {divMax : Nat} (s : State divMax) (r : Axi4Master.Req)

def consoleReady : Bool := UartTx.txReady s.uart

/-- One clock edge out of reset. -/
def step : State divMax where
  mmio := Mmio.step s.mmio r (consoleReady s)
  uart := UartTx.step s.uart s.mmio.consoleValid s.mmio.consoleByte

/-- `DIV_MAX`, the clock cycles to a bit. -/
def DIV_MAX (clkHz baud : Nat) : Nat := clkHz / baud

/-- Console port and transmitter out of reset, for a stream of requests. -/
abbrev run (clkHz baud : Nat) (inp : Nat → Axi4Master.Req) : Nat → State (DIV_MAX clkHz baud) :=
  Sync.run step (reset _) inp

end HelloTop

end QinglongCore
