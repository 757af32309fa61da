import CpuSubsystem.Lib.BpfMap
import CpuSubsystem.Lib.Calls
import CpuSubsystem.Lib.CInt
import CpuSubsystem.Lib.Clock
import CpuSubsystem.Lib.InFlight
import CpuSubsystem.Lib.Latest
import CpuSubsystem.Lib.Locks
import CpuSubsystem.Lib.Machine
import CpuSubsystem.Lib.Outcome
import CpuSubsystem.Lib.Tally
import CpuSubsystem.ProcImage.SyscallImage.Model
import CpuSubsystem.ProcImage.SyscallImage.Probes
import CpuSubsystem.ProcImage.SyscallImage.Batches
import CpuSubsystem.ProcImage.SyscallImage.IdRange
import CpuSubsystem.ProcImage.SyscallImage.Retarget
import CpuSubsystem.ProcImage.SyscallImage.Delay
import CpuSubsystem.ProcImage.SyscallImage.Table
import CpuSubsystem.ProcImage.ScheduleImage.Model
import CpuSubsystem.ProcImage.ScheduleImage.Statistics
import CpuSubsystem.ProcImage.ScheduleImage.Intervals
import CpuSubsystem.ProcImage.LockImage.Model
import CpuSubsystem.ProcImage.LockImage.Probes
import CpuSubsystem.ProcImage.LockImage.Attribution
import CpuSubsystem.ProcImage.LockImage.Threads
import CpuSubsystem.ProcImage.LockImage.RwLocks
import CpuSubsystem.ProcImage.LockImage.Exclusion
import CpuSubsystem.ProcImage.KeytimeImage.Model
import CpuSubsystem.ProcImage.KeytimeImage.Probes
import CpuSubsystem.ProcImage.KeytimeImage.ChildRecords
import CpuSubsystem.ProcImage.KeytimeImage.Invisible
import CpuSubsystem.ProcImage.KeytimeImage.ThreadCreation
import CpuSubsystem.Lib.Lifetimes
import CpuSubsystem.ProcImage.KeytimeImage.Completeness
import CpuSubsystem.Lib.Schedule
import CpuSubsystem.ProcImage.ResourceImage.Model
import CpuSubsystem.ProcImage.ResourceImage.Accounting
import CpuSubsystem.ProcImage.ResourceImage.Toggling
import CpuSubsystem.Lib.Walk
import CpuSubsystem.ProcImage.ResourceImage.Reader
import CpuSubsystem.ProcImage.ResourceImage.Conservation
import CpuSubsystem.ProcImage.ResourceImage.Charges
import CpuSubsystem.ProcImage.ScheduleImage.Residue
import CpuSubsystem.ProcImage.ScheduleImage.Printer
import CpuSubsystem.ProcImage.ScheduleImage.Retargeting
import CpuSubsystem.CpuWatcher.Sar.Model
import CpuSubsystem.CpuWatcher.Sar.TaskTime
import CpuSubsystem.Lib.Brackets
import CpuSubsystem.CpuWatcher.Sar.InterruptTime
import CpuSubsystem.CpuWatcher.CsDelay.Model
import CpuSubsystem.CpuWatcher.CsDelay.Pairing
import CpuSubsystem.CpuWatcher.Sar.IdleTime
import CpuSubsystem.CpuWatcher.Comm
import CpuSubsystem.CpuWatcher.ScDelay.Model
import CpuSubsystem.CpuWatcher.MqDelay.Model
import CpuSubsystem.CpuWatcher.Mutrace.Model
import CpuSubsystem.CpuWatcher.Preempt.Model
import CpuSubsystem.CpuWatcher.ScDelay.Records
import CpuSubsystem.CpuWatcher.ScheduleDelay.Model
import CpuSubsystem.Lib.Extremes
import CpuSubsystem.CpuWatcher.ScheduleDelay.Charges
import CpuSubsystem.CpuWatcher.ScheduleDelay.Extrema
import CpuSubsystem.CpuWatcher.ScheduleDelay.Printer
import CpuSubsystem.CpuWatcher.ScheduleDelay.Threshold
import CpuSubsystem.CpuWatcher.ScheduleDelay.History
import CpuSubsystem.CpuWatcher.Deactivated
import CpuSubsystem.CpuWatcher.Mutrace.HoldTimes
import CpuSubsystem.CpuWatcher.MqDelay.Joins
import CpuSubsystem.CpuWatcher.MqDelay.Soundness
import CpuSubsystem.CpuWatcher.MqDelay.Completeness
import CpuSubsystem.Lib.ReadyQueue
import CpuSubsystem.ProcImage.ScheduleImage.Queue
import CpuSubsystem.CpuWatcher.ScheduleDelay.Agreement
import CpuSubsystem.ProcImage.KeytimeImage.CpuRecords
import CpuSubsystem.CpuWatcher.ScDelay.Soundness
import CpuSubsystem.ProcImage.LifecycleImage.Intervals
import CpuSubsystem.ProcImage.MigrateImage.Model
import CpuSubsystem.ProcImage.MigrateImage.Consistency
import CpuSubsystem.ProcImage.MigrateImage.Printing
import CpuSubsystem.ProcImage.MigrateImage.Races
import CpuSubsystem.ProcImage.SyscallImage.Bounds
import CpuSubsystem.ProcImage.SyscallImage.Ledger
import CpuSubsystem.ProcImage.SyscallImage.DelayTotals
import CpuSubsystem.ProcImage.SyscallImage.Reservations
import CpuSubsystem.ProcImage.SyscallImage.Totals
import CpuSubsystem.ProcImage.KeytimeImage.ExecArgs
import CpuSubsystem.ProcImage.KeytimeImage.Failures
import CpuSubsystem.ProcImage.KeytimeImage.Creations
import CpuSubsystem.ProcImage.ResourceImage.Independence
import CpuSubsystem.ProcImage.ResourceImage.Emptying
import CpuSubsystem.ProcImage.ScheduleImage.Averages
import CpuSubsystem.ProcImage.ScheduleImage.GroupView
import CpuSubsystem.Lib.Podium
import CpuSubsystem.ProcImage.SyscallImage.Leaders
import CpuSubsystem.ProcImage.SyscallImage.Noninterference
import CpuSubsystem.Lib.Probing
import CpuSubsystem.CpuWatcher.Mutrace.LockCounts
import CpuSubsystem.CpuWatcher.Sar.Report
import CpuSubsystem.CpuWatcher.CsDelay.Histogram
import CpuSubsystem.CpuWatcher.Preempt.Printer
import CpuSubsystem.CpuWatcher.Averages
import CpuSubsystem.CpuWatcher.Preempt.Durations
import CpuSubsystem.Lib.Options
import CpuSubsystem.ProcImage.Controller
import CpuSubsystem.CpuWatcher.Controller
import CpuSubsystem.Controllers
import CpuSubsystem.ProcImage.Selection
import CpuSubsystem.ProcImage.TimerThread
import CpuSubsystem.Lib.Headings
import CpuSubsystem.ProcImage.Headers
import CpuSubsystem.Lib.Ewma
import CpuSubsystem.CpuWatcher.ScDelay.Filter
import CpuSubsystem.Lib.Repeats
import CpuSubsystem.CpuWatcher.ScheduleDelay.Repeats
import CpuSubsystem.CpuWatcher.Cleanup
import CpuSubsystem.Lib.Quoting
import CpuSubsystem.ProcImage.KeytimeTool.Quoting
import CpuSubsystem.Lib.Memory
import CpuSubsystem.ProcImage.LockTool.Model
import CpuSubsystem.ProcImage.NewlifeImage.Model
import CpuSubsystem.ProcImage.ReservedMemory
import CpuSubsystem.Lib.Nesting
import CpuSubsystem.ProcImage.LockTool.Ownership
import CpuSubsystem.Lib.Displacement
import CpuSubsystem.Lib.Keyed
import CpuSubsystem.ProcImage.Hashmap.Model
import CpuSubsystem.ProcImage.Hashmap.Table
import CpuSubsystem.ProcImage.Hashmap.Keys
import CpuSubsystem.ProcImage.Hashmap.Resize
import CpuSubsystem.ProcImage.Hashmap.Operations
import CpuSubsystem.ProcImage.Hashmap.Refinement
import CpuSubsystem.ProcImage.Hashmap.Visits
import CpuSubsystem.ProcImage.Hashmap.Cost
import CpuSubsystem.ProcImage.SyscallImage.HashTable
import CpuSubsystem.Lib.Rotation
import CpuSubsystem.ProcImage.Ksyms
import CpuSubsystem.ProcImage.KeytimeImage.Printer
import CpuSubsystem.Lib.Holdings
import CpuSubsystem.ProcImage.Main
import CpuSubsystem.Lib.Simulation
import CpuSubsystem.ProcImage.KeytimeTool.Model
import CpuSubsystem.ProcImage.KeytimeTool.Refinement
import CpuSubsystem.ProcImage.KeytimeTool.Execs
import CpuSubsystem.CpuWatcher.FindKsym
