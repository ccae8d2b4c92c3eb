import VeriCross.Common
import VeriCross.Library.BitFields
import VeriCross.Library.WhileLoop
import VeriCross.Library.KnownFile
import VeriCross.Library.LabelledRuns
import VeriCross.Library.Overlay
import VeriCross.Library.TreeMaps
import VeriCross.Library.RingBuffer
import VeriCross.Library.Followers
import VeriCross.Library.Numerals
import VeriCross.Library.DigitText
import VeriCross.Library.PrefixCode
import VeriCross.RiscV.Instruction
import VeriCross.RiscV.Log
import VeriCross.RiscV.LogText
import VeriCross.RiscV.Fields
import VeriCross.RiscV.Encoding
import VeriCross.RiscV.Assigned
import VeriCross.RiscV.Control
import VeriCross.RiscV.Hart
import VeriCross.RiscV.Shifts
import VeriCross.Memory.Model
import VeriCross.Memory.Views
import VeriCross.Memory.Access
import VeriCross.Memory.PrivateMemory
import VeriCross.Memory.Bytes
import VeriCross.Memory.Locality
import VeriCross.Memory.Words
import VeriCross.Memory.Refinement
import VeriCross.Memory.Ports
import VeriCross.Memory.Drain
import VeriCross.RiscV.DataAccess
import VeriCross.RiscV.Program
import VeriCross.FunctionalCore
import VeriCross.CoreWrapper
import VeriCross.KronosCoreFaulty
import VeriCross.Validator
import VeriCross.SysCall.Model
import VeriCross.SysCall.Primitives
import VeriCross.SysCall.Agreement
import VeriCross.SysCall.HostFiles
import VeriCross.SysCall.DescriptorTable
import VeriCross.SysCall.Descriptors
import VeriCross.SysCall.Failures
import VeriCross.SysCall.Clock
import VeriCross.SysCall.FileContents
import VeriCross.SysCall.FilePosition
import VeriCross.SysCall.Transfer
import VeriCross.Sim.Machine
import VeriCross.Sim.CoreCycle
import VeriCross.Sim.Concurrent
import VeriCross.Sim.Single
import VeriCross.Sim.OwnTrace
import VeriCross.Sim.Steps
import VeriCross.Sim.Rounds
import VeriCross.Sim.Lockstep
import VeriCross.Sim.Termination
import VeriCross.Sim.Verdict
import VeriCross.Sim.Ecalls
import VeriCross.Sim.SameRun
import VeriCross.Sim.Undisturbed
import VeriCross.Sim.Alone
import VeriCross.Sim.SeparateRuns
import VeriCross.KronosTop
import VeriCross.RVCorePMain
import VeriCross.Sim.Replica
import VeriCross.Sim.KronosBus
import VeriCross.Sim.RVCorePRecord
import VeriCross.Sim.DerivedCore
import VeriCross.Sim.FaultFree
import VeriCross.Sim.ZeroRegister
import VeriCross.Sim.DataAccess
import VeriCross.Sim.ReadBack
import VeriCross.Sim.ClassFlags
import VeriCross.Sim.History
import VeriCross.Sim.Trace
import VeriCross.Sim.TraceText
import VeriCross.Sim.HostTimes
import VeriCross.Loader.Model
import VeriCross.Loader.Image
import VeriCross.Benchmark.MakeArgs
import VeriCross.Benchmark.Arguments
import VeriCross.Sim.Manual
import VeriCross.Sim.Interpreter
import VeriCross.Sim.Clock
import VeriCross.Loader.Boot
import VeriCross.Loader.JumpCodec
import VeriCross.CommandLine.Model
import VeriCross.CommandLine.ScaledNumber
import VeriCross.CommandLine.Options
import VeriCross.Main.Model
import VeriCross.Main.Returns
import VeriCross.Main.Execution
