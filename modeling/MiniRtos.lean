import MiniRtos.TransitionSystem
import MiniRtos.Unwinding
import MiniRtos.WhileLoop
import MiniRtos.LinkedStack
import MiniRtos.BoundedFifo
import MiniRtos.SlotTable
import MiniRtos.TokenCover
import MiniRtos.QueueOrder
import MiniRtos.TurnTaking
import MiniRtos.Leases
import MiniRtos.Symmetry
import MiniRtos.CheckedArray
import MiniRtos.Script
import MiniRtos.Config
import MiniRtos.CpuContext
import MiniRtos.TaskControl
import MiniRtos.Scheduler
import MiniRtos.Timer
import MiniRtos.MemoryPool
import MiniRtos.Rtos
import MiniRtos.Event
import MiniRtos.System
import MiniRtos.ReadyQueue
import MiniRtos.Effect
import MiniRtos.SyncOutcome
import MiniRtos.CallEffect
import MiniRtos.Dispatch
import MiniRtos.KernelInvariant
import MiniRtos.SchedulingDecision
import MiniRtos.StatusChange
import MiniRtos.EffectTargets
import MiniRtos.Ticks
import MiniRtos.ContextIsolation
import MiniRtos.PoolRefinement
import MiniRtos.ForeignPointers
import MiniRtos.QueueRefinement
import MiniRtos.EventTable
import MiniRtos.EventDelivery
import MiniRtos.WaiterTables
import MiniRtos.Suspension
import MiniRtos.BestWaiter
import MiniRtos.WakeTargets
import MiniRtos.PendingCover
import MiniRtos.PeerOrder
import MiniRtos.BoundedBypass
import MiniRtos.TimerSlot
import MiniRtos.TimerSchedule
import MiniRtos.TimerFiring
import MiniRtos.CurrentTask
import MiniRtos.OwnBlocking
import MiniRtos.SleepDuration
import MiniRtos.EventRepresentation
import MiniRtos.TimerHandles
import MiniRtos.MutualExclusion
import MiniRtos.ReadyArray
import MiniRtos.EventAccounting
import MiniRtos.RoundRobin
import MiniRtos.SignedArithmetic
import MiniRtos.CounterRange
import MiniRtos.CounterOverflow
import MiniRtos.SchedAlike
import MiniRtos.ObjectsAlike
import MiniRtos.HistoryErased
import MiniRtos.RunLength
import MiniRtos.IdleStretch
import MiniRtos.TaskIdentity
import MiniRtos.PeriodicTask
import MiniRtos.ResponseTime
import MiniRtos.Conservation
import MiniRtos.BlockOwnership
import MiniRtos.Relabelling
import MiniRtos.Application
import MiniRtos.DueTime
import MiniRtos.MainProgram
import MiniRtos.MainExecution
import MiniRtos.SampleDelivery
import MiniRtos.MainSchedule
import MiniRtos.ArrayKernel
import MiniRtos.ArrayRefinement
import MiniRtos.ArrayProgram
import MiniRtos.ArrayProgramRefinement
