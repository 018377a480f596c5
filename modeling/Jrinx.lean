import Jrinx.Util.Outcome
import Jrinx.Util.StableQueue
import Jrinx.Util.SerialId
import Jrinx.Util.FastPq
import Jrinx.Error
import Jrinx.Multitask.Executor
import Jrinx.Multitask.TaskLoss
import Jrinx.Time
import Jrinx.Multitask.Inspector
import Jrinx.Multitask.SchedTable
import Jrinx.Multitask.Runtime
import Jrinx.Multitask.Cpu
import Jrinx.Multitask.LoopStep
import Jrinx.Multitask.RoundRobin
import Jrinx.Multitask.InspectorStep
import Jrinx.Multitask.TableLoss
import Jrinx.Multitask.Dispatch
import Jrinx.Multitask.DeadIds
import Jrinx.Multitask.Machine
import Jrinx.Multitask.WakeUp
import Jrinx.Multitask.Halt
import Jrinx.TimedEvent.Queue
import Jrinx.TimedEvent.Tracker
import Jrinx.TimedEvent.ExactlyOnce
import Jrinx.Hal.Timer
import Jrinx.Trap.TimerInt
import Jrinx.TimedEvent.Step
import Jrinx.Trap.Armed
import Jrinx.Util.RadixTree
import Jrinx.Paging.Addr
import Jrinx.Paging.Entry
import Jrinx.Paging.PageTable
import Jrinx.Paging.Tree
import Jrinx.Paging.Refinement
import Jrinx.TimedEvent.OwnTimer
import Jrinx.Util.SortUnstable
import Jrinx.Util.Progression
import Jrinx.Multitask.TableValid
import Jrinx.Util.Sweep
import Jrinx.Util.Interval
import Jrinx.StackAlloc.Allocator
import Jrinx.StackAlloc.Disjoint
import Jrinx.StackAlloc.Layout
import Jrinx.StackAlloc.Trace
import Jrinx.Paging.Ownership
import Jrinx.Multitask.TimedCpu
import Jrinx.Multitask.SlotStart
import Jrinx.Multitask.SlotEnd
import Jrinx.Util.RadixGrow
import Jrinx.Paging.Boot
import Jrinx.StackAlloc.Uniform
import Jrinx.Multitask.ExecutorStack
import Jrinx.Driver.Probe
import Jrinx.Driver.StackWindow
import Jrinx.Multitask.TableWalk
import Jrinx.Util.Ensures
import Jrinx.Smoltcp.SocketSet
import Jrinx.Smoltcp.ListenTable
import Jrinx.Smoltcp.Tcp
import Jrinx.Util.Exclusive
import Jrinx.Smoltcp.NetStep
import Jrinx.Smoltcp.Calls
import Jrinx.Smoltcp.Handles
import Jrinx.Smoltcp.Endpoints
import Jrinx.Util.BuildMode
import Jrinx.Driver.NetBuf
import Jrinx.Driver.VirtioNet
import Jrinx.Driver.NetBuffers
import Jrinx.Driver.Plic
import Jrinx.Trap.ExternalInt
import Jrinx.Trap.IrqSafety
import Jrinx.Util.Memory
import Jrinx.Trap.Riscv
import Jrinx.Trap.Entry
import Jrinx.Trap.SaveRestore
import Jrinx.Trap.RoundTrip
import Jrinx.Smoltcp.SharedSocket
import Jrinx.Smoltcp.SocketExclusion
import Jrinx.Util.Locks
import Jrinx.Smoltcp.NetLocks
import Jrinx.Smoltcp.Deadlock
import Jrinx.Trap.DueTime
import Jrinx.Multitask.Reenact
import Jrinx.Multitask.Retire
import Jrinx.Multitask.Polling
import Jrinx.Paging.MapFailure
import Jrinx.Paging.Lookup
import Jrinx.Paging.BootMapping
import Jrinx.StackAlloc.Region
import Jrinx.StackAlloc.Rollback
import Jrinx.TimedEvent.Consistent
import Jrinx.Trap.Drain
import Jrinx.Trap.Drained
import Jrinx.Trap.Clock
import Jrinx.Util.CyclicSearch
import Jrinx.Smoltcp.Ports
import Jrinx.Driver.BufPool
import Jrinx.Driver.TxBuffers
import Jrinx.Smoltcp.ConnectLeak
import Jrinx.Smoltcp.Handshake
import Jrinx.Smoltcp.QueueSound
import Jrinx.Smoltcp.AcceptSafety
import Jrinx.Util.StepBy
import Jrinx.Util.Patch
import Jrinx.Loader.ElfLoader
import Jrinx.Loader.Segment
import Jrinx.Loader.LoadElf
import Jrinx.Loader.LoadedImage
import Jrinx.Loader.FileImage
import Jrinx.Multitask.SwitchContext
import Jrinx.Driver.PlicInner
import Jrinx.Util.LastValue
import Jrinx.Driver.EnableBits
import Jrinx.Driver.IrqDispatch
import Jrinx.Driver.MaskAll
import Jrinx.Driver.Routing
import Jrinx.Driver.Rebalance
import Jrinx.Driver.MinCount
import Jrinx.Trap.UserContext
import Jrinx.Trap.EnterState
import Jrinx.Trap.Tolerance
import Jrinx.Boot.Cpus
import Jrinx.Boot.Machine
import Jrinx.Boot.Panics
import Jrinx.Boot.Progress
import Jrinx.Boot.Rendezvous
import Jrinx.Driver.BootSpace
import Jrinx.Driver.VirtioHal
import Jrinx.Driver.DevProbe
import Jrinx.Driver.Enlarge
import Jrinx.Driver.Registered
import Jrinx.Driver.Windows
import Jrinx.Driver.TreeSpace
import Jrinx.Trap.Probed
