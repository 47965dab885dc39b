import Aser.Library.Run
import Aser.Library.OrderedMap
import Aser.Core.Benchmark
import Aser.Util.LibcWrapper
import Aser.ExecMonitor.CpuHopper
import Aser.ExecMonitor.CpuHopperCarousel
import Aser.ExecMonitor.CpuHopperOverflow
import Aser.Library.Ownership
import Aser.Util.Process
import Aser.Util.ProcessOwnership
import Aser.Util.ProcessMoves
import Aser.Util.ChildFate
import Aser.Util.PathCheck
import Aser.Util.ConcurrentQueue
import Aser.Util.SyncRelease
import Aser.Util.SyncDescriptors
import Aser.Util.KillTree
import Aser.Util.PipeObjects
import Aser.Core.ExecMonitor
import Aser.Core.ExecMonitorEvents
import Aser.Core.ProcessMonitor
import Aser.Core.ProcessMonitorBlocking
import Aser.Core.ProcessMonitorEnd
import Aser.Core.MonitoredProcesses
import Aser.ExecManager.Simple
import Aser.ExecManager.SimpleBlocking
import Aser.ExecManager.SimpleCleanUp
import Aser.ExecManager.SimpleKill
import Aser.ExecManager.SimpleUnwinding
import Aser.Perf.Event
import Aser.Perf.EventAttr
import Aser.Perf.EventDescriptors
import Aser.Perf.EventManager
import Aser.Perf.EventScale
import Aser.Perf.EventTelescope
import Aser.Util.TimerCancelation
import Aser.Core.DerivedMonitor
import Aser.ExecMonitor.CpuHopperThread
import Aser.ExecMonitor.PmcSampler
import Aser.ExecMonitor.PmcSamplerSamples
import Aser.Util.QueueProgress
import Aser.Core.ExecMonitorQueue
import Aser.Util.Condition
import Aser.Util.TimerExpiry
import Aser.Util.Factory
import Aser.ExecManager.Configuration
import Aser.ExecManager.SimpleWork
import Aser.Main
import Aser.ExecManager.SimpleEvents
import Aser.Util.Os
