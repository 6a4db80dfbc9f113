import VirtualPlc.Compiler.InitialValues
import VirtualPlc.Compiler.Meaning
import VirtualPlc.Compiler.ForLoop
import VirtualPlc.Compiler.Jumps
import VirtualPlc.Compiler.Isolation
import VirtualPlc.Runtime.Outputs
import VirtualPlc.Runtime.Recovery
import VirtualPlc.Runtime.ImageReads
import VirtualPlc.Runtime.FaultRecords
import VirtualPlc.Fieldbus.Boundaries
import VirtualPlc.Fieldbus.InputImage
import VirtualPlc.Fieldbus.DcConvergence
import VirtualPlc.Fieldbus.WorkingCounter
import VirtualPlc.Fieldbus.SlaveStates
import VirtualPlc.Fieldbus.NetworkLayout
import VirtualPlc.Fieldbus.CoilEncoding
import VirtualPlc.Host.IoPaths
import VirtualPlc.Host.Faulting
import VirtualPlc.Host.HostCalls
import VirtualPlc.Host.Deadlines
import VirtualPlc.Host.Reload
import VirtualPlc.Host.FirstCycle
import VirtualPlc.Daemon.SafeOutputs
import VirtualPlc.Daemon.Reports
import VirtualPlc.Daemon.GracePeriod
import VirtualPlc.Runtime.ImageWrites
import VirtualPlc.Stdlib.Pulses
import VirtualPlc.Stdlib.Counters
import VirtualPlc.Compiler.Branching
import VirtualPlc.Compiler.Arrays
import VirtualPlc.Compiler.Constants
import VirtualPlc.Compiler.Resolution
import VirtualPlc.Runtime.Watchdog
import VirtualPlc.Parsing.Precedence
import VirtualPlc.Compiler.TypeNames
import VirtualPlc.Compiler.TimeLiterals
import VirtualPlc.Runtime.CycleMetrics
import VirtualPlc.Fieldbus.ImageCodec
import VirtualPlc.Fieldbus.FrameStats
import VirtualPlc.Daemon.CounterOverflow
import VirtualPlc.Compiler.WellFormed
import VirtualPlc.Host.Programs
import VirtualPlc.Host.Plant
import VirtualPlc.Compiler.Printing
import VirtualPlc.Daemon.DriverProtocol
import VirtualPlc.Fieldbus.BusProtocol
import VirtualPlc.Fieldbus.SimulatedRuns
import VirtualPlc.Fieldbus.SharedServer
