import QinglongCore.Rtl.Defs

/-!
# CSR file (`csr.sv`)
-/

namespace QinglongCore

/-- The external interrupt lines and the CLINT counter. -/
structure Ext where
  mti : Bool
  msi : Bool
  mei : Bool
  sei : Bool
  mtime : BitVec 64

namespace Csr

/-- The registers of `csr.sv`. -/
structure State where
  mstatus : Word
  mie : Word
  mtvec : Word
  mscratch : Word
  mepc : Word
  mcause : Word
  mtval : Word
  medeleg : Word
  mideleg : Word
  mipSw : Word
  stvec : Word
  sscratch : Word
  sepc : Word
  scause : Word
  stval : Word
  satp : Word
  mcycle : BitVec 64
  minstret : BitVec 64
  privMode : BitVec 2
  pmpcfg : Fin 4 → Word
  pmpaddr : Fin 16 → Word

def reset : State where
  mstatus := 0
  mie := 0
  mtvec := 0
  mscratch := 0
  mepc := 0
  mcause := 0
  mtval := 0
  medeleg := 0
  mideleg := 0
  mipSw := 0
  stvec := 0
  sscratch := 0
  sepc := 0
  scause := 0
  stval := 0
  satp := 0
  mcycle := 0
  minstret := 0
  privMode := PRV_M
  pmpcfg := fun _ => 0
  pmpaddr := fun _ => 0

/-- The command ports, from the core. -/
structure In where
  csrEn : Bool
  csrOp : BitVec 3
  csrAddr : BitVec 12
  csrRs1OrImm : BitVec 5
  csrWdata : Word
  trapTake : Bool
  trapPc : Word
  trapCause : Word
  trapTval : Word
  mret : Bool
  sret : Bool
  retire : Bool

/-! ## Read-only values and write masks -/

def MISA_CONST : Word := 0x40040100#32
def MHARTID_CONST : Word := 0#32
def MVENDOR_CONST : Word := 0#32
def MARCH_CONST : Word := 0#32
def MIMP_CONST : Word := 1#32
def MSTATUS_WRITABLE : Word := 0x005E19AA#32
def MIE_WRITABLE : Word := 0x00000AAA#32
def MIP_M_WRITABLE : Word := 0x00000222#32
def MIP_S_WRITABLE : Word := 0x00000002#32
def MEDELEG_WRITABLE : Word := 0x0000B3FF#32
def MIDELEG_WRITABLE : Word := 0x00000222#32

/-! ## Outputs to the core and the MMU -/

variable (s : State) (e : Ext) (i : In)

def mpp : BitVec 2 := s.mstatus.extractLsb' MSTATUS_MPP_LO 2
def sstatusSum : Bool := s.mstatus.getLsbD MSTATUS_SUM_BIT
def mstatusMxr : Bool := s.mstatus.getLsbD MSTATUS_MXR_BIT
def mstatusMprv : Bool := s.mstatus.getLsbD MSTATUS_MPRV_BIT
def mstatusTvm : Bool := s.mstatus.getLsbD MSTATUS_TVM_BIT
def mstatusTsr : Bool := s.mstatus.getLsbD MSTATUS_TSR_BIT

/-- Byte `b` of a `pmpcfg` word. -/
def cfgByte (w : Word) (b : Nat) : BitVec 8 := w.extractLsb' (8 * b) 8

/-- `pmp_cfg_out[n]`. -/
def pmpCfgOut (n : Fin 16) : BitVec 8 := cfgByte (s.pmpcfg (Fin.ofNat 4 (n / 4))) (n % 4)

def pmpL (n : Fin 16) : Bool := (pmpCfgOut s n).getLsbD 7
def pmpAIsTor (n : Fin 16) : Bool := (pmpCfgOut s n).extractLsb' 3 2 == 0b01#2

/-- The address register is locked by its own entry or by a locked TOR entry above it. -/
def pmpaddrLocked (n : Fin 16) : Bool :=
  if h : n.val + 1 < 16 then pmpL s n || (pmpL s ⟨n + 1, h⟩ && pmpAIsTor s ⟨n + 1, h⟩) else pmpL s n

/-- Per-byte merge of a `pmpcfg` write: a locked byte keeps its value. -/
def pmpcfgWriteMask (old new : Word) : Word :=
  let pick (b : Nat) : BitVec 8 := if (cfgByte old b).getLsbD 7 then cfgByte old b else cfgByte new b
  pick 3 ++ pick 2 ++ pick 1 ++ pick 0

/-! ## Interrupts -/

/-- `mip_live`: the software bits with the external lines over them. -/
def mipLive : Word :=
  setBit (setBit (setBit (setBit s.mipSw MIP_MSI_BIT e.msi) MIP_MTI_BIT e.mti) MIP_MEI_BIT e.mei)
    MIP_SEI_BIT (s.mipSw.getLsbD MIP_SEI_BIT || e.sei)

def mipMEnabled : Word := mipLive s e &&& s.mie &&& ~~~s.mideleg
def mipSEnabled : Word := mipLive s e &&& s.mie &&& s.mideleg

def mIrqEnabled : Bool :=
  s.privMode != PRV_M || (s.privMode == PRV_M && s.mstatus.getLsbD MSTATUS_MIE_BIT)

def sIrqEnabled : Bool :=
  s.privMode == PRV_U || (s.privMode == PRV_S && s.mstatus.getLsbD MSTATUS_SIE_BIT)

def mIrqLive : Bool := mIrqEnabled s && mipMEnabled s e != 0#32
def sIrqLive : Bool := sIrqEnabled s && mipSEnabled s e != 0#32

def irqPending : Bool := mIrqLive s e || sIrqLive s e

def irqCause : Word :=
  if mIrqLive s e then
    if (mipMEnabled s e).getLsbD MIP_MEI_BIT then CAUSE_IRQ_MEI
    else if (mipMEnabled s e).getLsbD MIP_MSI_BIT then CAUSE_IRQ_MSI
    else if (mipMEnabled s e).getLsbD MIP_MTI_BIT then CAUSE_IRQ_MTI
    else if (mipMEnabled s e).getLsbD MIP_SEI_BIT then CAUSE_IRQ_SEI
    else if (mipMEnabled s e).getLsbD MIP_SSI_BIT then CAUSE_IRQ_SSI
    else CAUSE_IRQ_STI
  else
    if (mipSEnabled s e).getLsbD MIP_SEI_BIT then CAUSE_IRQ_SEI
    else if (mipSEnabled s e).getLsbD MIP_SSI_BIT then CAUSE_IRQ_SSI
    else CAUSE_IRQ_STI

/-! ## Reads -/

/-- The index of a `pmpcfg` address. -/
def pmpcfgIdx (a : BitVec 12) : Option (Fin 4) :=
  if a.extractLsb' 2 10 = CSR_PMPCFG0.extractLsb' 2 10 then some (Fin.ofNat 4 (a.extractLsb' 0 2).toNat)
  else none

/-- The index of a `pmpaddr` address. -/
def pmpaddrIdx (a : BitVec 12) : Option (Fin 16) :=
  if a.extractLsb' 4 8 = CSR_PMPADDR0.extractLsb' 4 8 then some (Fin.ofNat 16 (a.extractLsb' 0 4).toNat)
  else none

/-- The read multiplexer; `none` is the default branch, where `addr_valid` is cleared. -/
def readMux (a : BitVec 12) : Option Word :=
  if a = CSR_MSTATUS then some s.mstatus
  else if a = CSR_MISA then some MISA_CONST
  else if a = CSR_MEDELEG then some s.medeleg
  else if a = CSR_MIDELEG then some s.mideleg
  else if a = CSR_MIE then some s.mie
  else if a = CSR_MIP then some (mipLive s e)
  else if a = CSR_MTVEC then some s.mtvec
  else if a = CSR_MSCRATCH then some s.mscratch
  else if a = CSR_MEPC then some s.mepc
  else if a = CSR_MCAUSE then some s.mcause
  else if a = CSR_MTVAL then some s.mtval
  else if a = CSR_MCYCLE then some (s.mcycle.extractLsb' 0 32)
  else if a = CSR_MCYCLEH then some (s.mcycle.extractLsb' 32 32)
  else if a = CSR_MINSTRET then some (s.minstret.extractLsb' 0 32)
  else if a = CSR_MINSTRETH then some (s.minstret.extractLsb' 32 32)
  else if a = CSR_CYCLE then some (s.mcycle.extractLsb' 0 32)
  else if a = CSR_CYCLEH then some (s.mcycle.extractLsb' 32 32)
  else if a = CSR_INSTRET then some (s.minstret.extractLsb' 0 32)
  else if a = CSR_INSTRETH then some (s.minstret.extractLsb' 32 32)
  else if a = CSR_TIME then some (e.mtime.extractLsb' 0 32)
  else if a = CSR_TIMEH then some (e.mtime.extractLsb' 32 32)
  else if a = CSR_MHARTID then some MHARTID_CONST
  else if a = CSR_MVENDORID then some MVENDOR_CONST
  else if a = CSR_MARCHID then some MARCH_CONST
  else if a = CSR_MIMPID then some MIMP_CONST
  else if a = CSR_SSTATUS then some (s.mstatus &&& SSTATUS_MASK)
  else if a = CSR_SIE then some (s.mie &&& s.mideleg)
  else if a = CSR_SIP then some (mipLive s e &&& s.mideleg)
  else if a = CSR_STVEC then some s.stvec
  else if a = CSR_SCOUNTEREN then some 0#32
  else if a = CSR_SSCRATCH then some s.sscratch
  else if a = CSR_SEPC then some s.sepc
  else if a = CSR_SCAUSE then some s.scause
  else if a = CSR_STVAL then some s.stval
  else if a = CSR_SATP then some s.satp
  else match pmpcfgIdx a, pmpaddrIdx a with
    | some n, _ => some (s.pmpcfg n)
    | none, some n => some (s.pmpaddr n)
    | none, none => none

def readValue : Word := (readMux s e i.csrAddr).getD 0#32
def addrValid : Bool := (readMux s e i.csrAddr).isSome

/-- CSRRS/CSRRC with a zero source do not write. -/
def doesWrite : Bool :=
  if i.csrOp = F3_CSRRW ∨ i.csrOp = F3_CSRRWI then true
  else if i.csrOp = F3_CSRRS ∨ i.csrOp = F3_CSRRC then i.csrRs1OrImm != 0#5
  else if i.csrOp = F3_CSRRSI ∨ i.csrOp = F3_CSRRCI then i.csrRs1OrImm != 0#5
  else false

def newVal : Word :=
  if i.csrOp = F3_CSRRW ∨ i.csrOp = F3_CSRRWI then i.csrWdata
  else if i.csrOp = F3_CSRRS ∨ i.csrOp = F3_CSRRSI then readValue s e i ||| i.csrWdata
  else if i.csrOp = F3_CSRRC ∨ i.csrOp = F3_CSRRCI then readValue s e i &&& ~~~i.csrWdata
  else readValue s e i

def isReadOnlySpace : Bool := i.csrAddr.extractLsb' 10 2 == 0b11#2
def csrMinPriv : BitVec 2 := i.csrAddr.extractLsb' 8 2
def privOk : Bool := (csrMinPriv i).ule s.privMode
def tvmBlocksSatp : Bool := i.csrAddr == CSR_SATP && s.privMode == PRV_S && mstatusTvm s

def csrIllegal : Bool :=
  !addrValid s e i || !privOk s i || (doesWrite i && isReadOnlySpace i) || tvmBlocksSatp s i

def doWrite : Bool := i.csrEn && doesWrite i && !csrIllegal s e i

/-! ## Trap entry, returns and writes -/

/-- The delegation bit of a cause. -/
def delegated (cause : Word) : Bool :=
  if cause.msb then s.mideleg.getLsbD (cause.extractLsb' 0 5).toNat
  else s.medeleg.getLsbD (cause.extractLsb' 0 5).toNat

def trapToS : Bool := i.trapTake && s.privMode != PRV_M && delegated s i.trapCause

/-- The free-running counters; a write to a half stops the tick. -/
def tick : State :=
  { s with
    mcycle := if doWrite s e i && (i.csrAddr == CSR_MCYCLE || i.csrAddr == CSR_MCYCLEH) then s.mcycle
      else s.mcycle + 1
    minstret :=
      if i.retire && !(doWrite s e i && (i.csrAddr == CSR_MINSTRET || i.csrAddr == CSR_MINSTRETH)) then
        s.minstret + 1
      else s.minstret }

/-- Trap entry into S-mode. -/
def trapS : State :=
  { s with
    sepc := i.trapPc
    scause := i.trapCause
    stval := i.trapTval
    mstatus := setBit (setBit (setBit s.mstatus MSTATUS_SPIE_BIT (s.mstatus.getLsbD MSTATUS_SIE_BIT))
      MSTATUS_SIE_BIT false) MSTATUS_SPP_BIT (s.privMode == PRV_S)
    privMode := PRV_S }

/-- `mstatus` with the field MPP replaced. -/
def setMpp (w : Word) (p : BitVec 2) : Word :=
  setBit (setBit w MSTATUS_MPP_LO (p.getLsbD 0)) MSTATUS_MPP_HI (p.getLsbD 1)

/-- Trap entry into M-mode. -/
def trapM : State :=
  { s with
    mepc := i.trapPc
    mcause := i.trapCause
    mtval := i.trapTval
    mstatus := setMpp (setBit (setBit s.mstatus MSTATUS_MPIE_BIT (s.mstatus.getLsbD MSTATUS_MIE_BIT))
      MSTATUS_MIE_BIT false) s.privMode
    privMode := PRV_M }

def mretStep : State :=
  let w := setMpp (setBit (setBit s.mstatus MSTATUS_MIE_BIT (s.mstatus.getLsbD MSTATUS_MPIE_BIT))
    MSTATUS_MPIE_BIT true) PRV_U
  { s with
    mstatus := if mpp s != PRV_M then setBit w MSTATUS_MPRV_BIT false else w
    privMode := mpp s }

def sretStep : State :=
  let w := setBit (setBit (setBit s.mstatus MSTATUS_SIE_BIT (s.mstatus.getLsbD MSTATUS_SPIE_BIT))
    MSTATUS_SPIE_BIT true) MSTATUS_SPP_BIT false
  { s with
    mstatus := if s.mstatus.getLsbD MSTATUS_SPP_BIT then w else setBit w MSTATUS_MPRV_BIT false
    privMode := 0#1 ++ BitVec.ofBool (s.mstatus.getLsbD MSTATUS_SPP_BIT) }

/-- `old` with the bits of `mask` taken from `new`. -/
def masked (old new mask : Word) : Word := (old &&& ~~~mask) ||| (new &&& mask)

/-- `{v[31:2], 1'b0, v[0]}`, the legal values of a vector base. -/
def tvecWarl (v : Word) : Word := v &&& 0xFFFFFFFD#32

/-- The write multiplexer. -/
def writeMux (a : BitVec 12) (v : Word) : State :=
  if a = CSR_MSTATUS then { s with mstatus := masked s.mstatus v MSTATUS_WRITABLE }
  else if a = CSR_MEDELEG then { s with medeleg := v &&& MEDELEG_WRITABLE }
  else if a = CSR_MIDELEG then { s with mideleg := v &&& MIDELEG_WRITABLE }
  else if a = CSR_MIE then { s with mie := masked s.mie v MIE_WRITABLE }
  else if a = CSR_MIP then { s with mipSw := masked s.mipSw v MIP_M_WRITABLE }
  else if a = CSR_MTVEC then { s with mtvec := tvecWarl v }
  else if a = CSR_MSCRATCH then { s with mscratch := v }
  else if a = CSR_MEPC then { s with mepc := alignWord v }
  else if a = CSR_MCAUSE then { s with mcause := v }
  else if a = CSR_MTVAL then { s with mtval := v }
  else if a = CSR_MCYCLE then { s with mcycle := s.mcycle.extractLsb' 32 32 ++ v }
  else if a = CSR_MCYCLEH then { s with mcycle := v ++ s.mcycle.extractLsb' 0 32 }
  else if a = CSR_MINSTRET then { s with minstret := s.minstret.extractLsb' 32 32 ++ v }
  else if a = CSR_MINSTRETH then { s with minstret := v ++ s.minstret.extractLsb' 0 32 }
  else if a = CSR_SSTATUS then { s with mstatus := masked s.mstatus v SSTATUS_MASK }
  else if a = CSR_SIE then
    { s with mie := (s.mie &&& ~~~s.mideleg) ||| (v &&& s.mideleg &&& MIE_WRITABLE) }
  else if a = CSR_SIP then
    { s with mipSw := (s.mipSw &&& ~~~MIP_S_WRITABLE) ||| (v &&& MIP_S_WRITABLE &&& s.mideleg) }
  else if a = CSR_STVEC then { s with stvec := tvecWarl v }
  else if a = CSR_SSCRATCH then { s with sscratch := v }
  else if a = CSR_SEPC then { s with sepc := alignWord v }
  else if a = CSR_SCAUSE then { s with scause := v }
  else if a = CSR_STVAL then { s with stval := v }
  else if a = CSR_SATP then { s with satp := v }
  else match pmpcfgIdx a, pmpaddrIdx a with
    | some n, _ => { s with pmpcfg := fun m => if m = n then pmpcfgWriteMask (s.pmpcfg n) v else s.pmpcfg m }
    | none, some n => { s with pmpaddr := fun m => if m = n && !pmpaddrLocked s n then v else s.pmpaddr m }
    | none, none => s

/-- One clock edge out of reset. A trap entry beats an MRET, which beats an SRET and a CSR write. -/
def step : State :=
  if i.trapTake then
    if trapToS s i then trapS (tick s e i) i else trapM (tick s e i) i
  else if i.mret then mretStep (tick s e i)
  else if i.sret then sretStep (tick s e i)
  else if doWrite s e i then writeMux (tick s e i) i.csrAddr (newVal s e i)
  else tick s e i

end Csr

end QinglongCore
