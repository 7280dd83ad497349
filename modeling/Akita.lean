import Akita.WriteBack.Blocks
import Akita.WriteBack.Discard
import Akita.WriteBack.Lanes
import Akita.L1.Flush
import Akita.L1.Places
import Akita.L1.Coalescing
import Akita.L1.Acknowledged
import Akita.Mem.Units
import Akita.Sim.Parallel.Rounds
import Akita.Vm.ProcessTable
import Akita.Vm.Tlb.Shootdown
import Akita.Vm.Tlb.Conservation
import Akita.Vm.TlbGmmu.Filter
import Akita.Vm.TlbCf.Messages
import Akita.Vm.Mmu.Credit
import Akita.Vm.Mmu.Exclusive
import Akita.Vm.Mmu.Answers
import Akita.Vm.AddressTranslator.Invalidation
import Akita.Vm.Gmmu.Conservation
import Akita.Mem.IdealMemController
import Akita.Sim.DirectConnection
import Akita.Dram.BankSafety
import Akita.Dram.Timing
import Akita.Dram.Conservation
import Akita.Dram.Order
import Akita.Dram.Refinement
import Akita.Noc.Routers
import Akita.Noc.MeshRouting
import Akita.Noc.DirectConnector.FullyConnected
import Akita.Pipelining.Law
import Akita.Noc.Channel.Faithful
import Akita.Noc.EndPoint.Delivery
import Akita.Sim.DirectConnection.Faithful
import Akita.Noc.Switch.Law
import Akita.Vm.TlbGmmu.Coverage
import Akita.Vm.Tlb.Recency
import Akita.Vm.TlbGmmu.Undo
import Akita.Vm.Control.Atomic
import Akita.Vm.Gmmu.Answers
import Akita.Tracing.DBTracer.Range
import Akita.Analysis.PerfAnalyzer.EndToEnd
import Akita.Noc.NocTracing.Shutdown
import Akita.Mem.OutOfRange
import Akita.Mem.LowModuleFinder
import Akita.Sim.EventQueue
import Akita.Sim.ExactTicks
import Akita.Noc.Switch.Arbiter
import Akita.Dram.OwnStorage
import Akita.Noc.NewNetwork
import Akita.WriteBack.Evictions
import Akita.Daisen.Concurrency
import Akita.Daisen.Rates
import Akita.Analysis.PortAnalyzer.Periods
import Akita.Analysis.BufferAnalyzer.Levels
import Akita.Tracing.BusyTimeTracer.Union
import Akita.DataRecording.DataRecorder.Lossless
import Akita.Tracing.CSV.RoundTrip
import Akita.Tracing.Readers
import Akita.Tracing.StepCountTracer
import Akita.Analysis.PerfAnalyzer.Traffic
import Akita.Noc.NocTracing.Slices
import Akita.Mem.Cache.Directory.Lru
import Akita.Noc.NocTracing.Links
