import QinglongCore.Cache.DcacheTransparent
import QinglongCore.Cache.IcacheIntegrity
import QinglongCore.Csr.Seip
import QinglongCore.Mmu.Confidentiality
import QinglongCore.Mmu.TlbExact
import QinglongCore.Pipeline.SatpDrain
import QinglongCore.Pipeline.PreciseIrq
import QinglongCore.Soc.BusRouting
import QinglongCore.Soc.SwallowedFetch
import QinglongCore.Soc.FetchMatching
import QinglongCore.Soc.DataMatching
import QinglongCore.Soc.SfenceComplete
import QinglongCore.Pipeline.Lemmas.DataBus
import QinglongCore.Pipeline.BusEffects
import QinglongCore.Cache.FenceI
import QinglongCore.Mmu.Lemmas.Roots
import QinglongCore.Mmu.AddressSpaces
import QinglongCore.Csr.PmpLock
import QinglongCore.Csr.Modes
import QinglongCore.Csr.Mprv
import QinglongCore.Csr.SupervisorFrame
import QinglongCore.Pipeline.Privilege
import QinglongCore.Rtl.CoreMulticycle
import QinglongCore.Multicycle.Exceptions
import QinglongCore.Base.Events
import QinglongCore.Axi.MasterHandshake
import QinglongCore.Rtl.AxilBramBig
import QinglongCore.Rtl.Axi4RouterLinux
import QinglongCore.Axi.LinuxMemory
import QinglongCore.Rtl.SocMulticycle
import QinglongCore.Multicycle.Lemmas.Commit
import QinglongCore.Multicycle.Lemmas.Fetch
import QinglongCore.Multicycle.FetchSquash
import QinglongCore.Isa.Reservation
import QinglongCore.Pipeline.Reservation
import QinglongCore.Multicycle.Reservation
import QinglongCore.Multicycle.Lemmas.Values
import QinglongCore.Multicycle.Refinement
import QinglongCore.Pipeline.Lemmas.Values
import QinglongCore.Pipeline.Lemmas.Quotients
import QinglongCore.Pipeline.Operands
import QinglongCore.Pipeline.Lemmas.Passage
import QinglongCore.Pipeline.Refinement
import QinglongCore.Pipeline.Progress
import QinglongCore.Plic.Arbitration
import QinglongCore.Plic.Exclusivity
import QinglongCore.Soc.CounterHalves
import QinglongCore.Csr.InterruptRouting
import QinglongCore.Pmp.Specification
import QinglongCore.Soc.ConsoleBytes
import QinglongCore.Sim.Lemmas.Segments
import QinglongCore.Sim.Lemmas.Images
import QinglongCore.Sim.Lemmas.Probe
import QinglongCore.Sim.LoadersAgree
import QinglongCore.Pipeline.AmoFault
import QinglongCore.Isa.Encodings
import QinglongCore.Isa.Acceptance
import QinglongCore.Pipeline.IllegalWords
import QinglongCore.Rtl.Rvfi
import QinglongCore.Pipeline.Lemmas.Beats
import QinglongCore.Pipeline.Lemmas.Shadow
import QinglongCore.Pipeline.RvfiRecords
import QinglongCore.Pipeline.DropIn
import QinglongCore.Isa.LaggedMemory
import QinglongCore.Isa.Alignment
import QinglongCore.Csr.Epc
import QinglongCore.Pipeline.FetchGate
import QinglongCore.Pipeline.PcAligned
import QinglongCore.Multicycle.PcAligned
import QinglongCore.Sim.TraceDiffStores
import QinglongCore.Isa.Division
import QinglongCore.Divider.Correctness
import QinglongCore.Base.ByteMemory
import QinglongCore.Isa.ByteLanes
import QinglongCore.Rtl.SramDp
import QinglongCore.Pipeline.LoadsAndStores
import QinglongCore.Rv32.Semantics
import QinglongCore.Pipeline.Executes
import QinglongCore.Pipeline.Lemmas.Unseen
import QinglongCore.Isa.QueuedMemory
import QinglongCore.Rtl.SocTop
import QinglongCore.Soc.Lemmas.Bare
import QinglongCore.Soc.Lemmas.Quiet
import QinglongCore.Soc.Lemmas.Mirror
import QinglongCore.Rv32.Effects
import QinglongCore.Isa.Effects
import QinglongCore.Soc.Lemmas.Hosted
import QinglongCore.Pipeline.Lemmas.Requests
import QinglongCore.Soc.Executes
import QinglongCore.Rv32.Programs
import QinglongCore.Rv32.Assembly
import QinglongCore.Soc.Lemmas.Startup
import QinglongCore.Sw.Pass
import QinglongCore.Sw.Crt0
import QinglongCore.Isa.Privileged
import QinglongCore.Pipeline.Lemmas.Exceptions
import QinglongCore.Pipeline.Lemmas.Commands
import QinglongCore.Pipeline.Lemmas.Orderly
import QinglongCore.Pipeline.Lemmas.Abreast
import QinglongCore.Pipeline.Lemmas.Advance
import QinglongCore.Pipeline.Privileged
import QinglongCore.Pipeline.InterruptsTaken
import QinglongCore.Pipeline.Liveness
import QinglongCore.Multicycle.Liveness
