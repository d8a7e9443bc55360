import MiniRtos.ForeignPointers
import MiniRtos.EventTable
import MiniRtos.Ticks

/-!
# The signed arithmetic on kernel state

The values of all `int` expressions that a step computes from a counter of the kernel
or of an application object: `ready_count`, `sleep_ticks`, the count of a semaphore, the
indices and the count of a message queue, `waiter_count` and `g_available_blocks`. Each
function of the source that computes such a value has a list here, in the order in which
the function computes them; a function that calls others appends theirs.
-/
namespace MiniRtos
variable {cfg : Config}

namespace Sched

/-- `ready_count - 1`, the bound of the shifting loop and the new count. -/
def removeArithmetic (s : Sched cfg) (taskIndex : ℕ) : List ℤ :=
  if taskIndex ∈ s.readyQueue then [s.readyQueue.length - 1] else []

/-- `ready_count++` behind the guards of `ready_queue_enqueue`. -/
def enqueueArithmetic (s : Sched cfg) (taskIndex : ℤ) : List ℤ :=
  if taskIndex < 0 ∨ (s.taskCount : ℤ) ≤ taskIndex then []
  else if (s.taskList taskIndex.toNat).state ≠ .ready then []
  else if cfg.rtosMaxTasks ≤ s.readyQueue.length ∨ s.readyQueueContains taskIndex.toNat then []
  else [s.readyQueue.length + 1]

def setTaskStateArithmetic (s : Sched cfg) (taskIndex : ℤ) (state : TaskState) : List ℤ :=
  if taskIndex < 0 ∨ (s.taskCount : ℤ) ≤ taskIndex then []
  else
    let i := taskIndex.toNat
    s.removeArithmetic i ++
      if state = .ready then
        ((s.readyQueueRemove i).modifyTask i fun t =>
          { t with state := state, sleepTicks := 0, blockReason := .none }).enqueueArithmetic i
      else []

/-- Each eviction of `ready_queue_peek_highest_priority` takes one off. -/
def peekArithmetic (s : Sched cfg) : List ℤ :=
  (List.range (s.readyQueue.countP fun i => !s.isReady i)).map fun k : ℕ =>
    (s.readyQueue.length : ℤ) - (k + 1)

def unblockOneArithmetic (s : Sched cfg) (reason : BlockReason) : List ℤ :=
  match s.unblockScan reason with
  | none => []
  | some best => s.setTaskStateArithmetic best .ready

/-- One pass of the sleep loop: `sleep_ticks--`, and what waking the task computes. -/
def updateSleepArithmetic (s : Sched cfg) (i : ℕ) : List ℤ :=
  if (s.taskList i).state ≠ .blocked ∨ (s.taskList i).blockReason ≠ .sleep then []
  else
    let s' := s.modifyTask i fun t => { t with sleepTicks := t.sleepTicks - 1 }
    ((s.taskList i).sleepTicks - 1) ::
      if (s'.taskList i).sleepTicks ≤ 0 then s'.setTaskStateArithmetic i .ready else []

def sleepLoopArithmetic : List ℕ → Sched cfg → List ℤ
  | [], _ => []
  | i :: l, s => s.updateSleepArithmetic i ++ sleepLoopArithmetic l (s.updateSleepTask i)

def wakeLoopArithmetic : List ℤ → Sched cfg → List ℤ
  | [], _ => []
  | i :: l, s =>
      s.setTaskStateArithmetic i .ready ++
        wakeLoopArithmetic l (s.schedulerSetTaskState i .ready .none)

/-- A switch pops the chosen task and sets its state; a preempted task that still runs is
put back first. -/
def switchArithmetic (s : Sched cfg) (outgoing : Option ℕ) (best : ℕ) : List ℤ :=
  let requeued : List ℤ × Sched cfg :=
    match outgoing with
    | some c =>
        if (s.taskList c).state = .running then
          (s.setTaskStateArithmetic c .ready, s.requeueOutgoing c)
        else ([], s)
    | none => ([], s)
  requeued.1 ++ requeued.2.removeArithmetic best ++
    (requeued.2.readyQueuePop best).setTaskStateArithmetic best .running

def decideArithmetic (s : Sched cfg) : List ℤ :=
  s.peekArithmetic ++
    match s.readyQueuePeekHighestPriority with
    | (none, _) => []
    | (some best, s) =>
        match s.rtosCurrentTask with
        | none => s.switchArithmetic none best
        | some c =>
            if (s.taskList c).state ≠ .running ∧ (s.taskList c).state ≠ .ready then
              s.switchArithmetic none best
            else if (s.taskList c).priority < (s.taskList best).priority then
              s.switchArithmetic (some c) best
            else if (s.taskList best).priority = (s.taskList c).priority ∧
                cfg.rtosTimeSliceTicks ≤ (s.taskList c).sliceTicksUsed.toNat ∧ best ≠ c then
              s.switchArithmetic (some c) best
            else s.setTaskStateArithmetic c .running

def taskReturnedArithmetic (s : Sched cfg) (taskIndex : ℕ) : List ℤ :=
  if (s.taskList taskIndex).state = .running then s.setTaskStateArithmetic taskIndex .ready
  else []

end Sched

/-- What an effect on the scheduler computes on the way. -/
def Effect.arithmetic (s : Sched cfg) : Effect → List ℤ
  | .none => []
  | .create priority taskFunction =>
      if cfg.rtosMaxTasks ≤ s.taskCount then []
      else
        -- `task_count + 1`, which is also the identifier, and `task_count - 1` afterwards
        ((s.taskCount : ℤ) + 1) :: (s.taskCount : ℤ) ::
          (s.addTask priority taskFunction).setTaskStateArithmetic s.taskCount .ready
  | .sleep _ =>
      if s.rtosCurrentTask.isSome then s.setTaskStateArithmetic s.currentTaskIndex .blocked
      else []
  | .park _ _ => s.setTaskStateArithmetic s.currentTaskIndex .blocked
  | .suspend i => s.setTaskStateArithmetic i .suspended
  | .resume i => s.setTaskStateArithmetic i .ready
  | .unblock reason => s.unblockOneArithmetic reason
  | .wake tasks => Sched.wakeLoopArithmetic tasks s

/-- On the object itself. -/
def SyncCall.arithmetic (cfg : Config) (o : Objects) : SyncCall → List ℤ
  | .semWait i => if 0 < (o.semaphores i).count then [(o.semaphores i).count - 1] else []
  | .semSignal i => [(o.semaphores i).count + 1]
  | .queueSend i _ =>
      if (o.queues i).count = cfg.rtosQueueSize then []
      else
        [(o.queues i).rear + 1, ((o.queues i).rear + 1).tmod cfg.rtosQueueSize,
          (o.queues i).count + 1]
  | .queueReceive i =>
      if (o.queues i).count = 0 then []
      else
        [(o.queues i).front + 1, ((o.queues i).front + 1).tmod cfg.rtosQueueSize,
          (o.queues i).count - 1]
  | _ => []

/-- `event_flags_set` starts at `waiter_count - 1` and takes one off for each entry. -/
def EventCall.arithmetic (cfg : Config) (o : Objects) : EventCall → List ℤ
  | .set (some i) mask =>
      if mask = 0#32 then []
      else
        (((o.eventFlags i).waiterCount : ℤ) - 1) ::
          (List.range (EventFlags.selected (o.eventFlags i).waiterCount
            ((o.eventFlags i).flags ||| mask) (o.eventFlags i).waiters).length).map fun k : ℕ =>
              ((o.eventFlags i).waiterCount : ℤ) - (k + 1)
  | .wait (some i) mask =>
      if mask = 0#32 then []
      else if EventFlags.satisfied (o.eventFlags i).flags mask then []
      else if cfg.rtosEventMaxWaiters ≤ (o.eventFlags i).waiterCount then []
      else [(o.eventFlags i).waiterCount + 1]
  | _ => []

def MemoryCall.arithmetic (p : Pool cfg) : MemoryCall → List ℤ
  | .alloc => if p.gFreeListHead = Pool.poolEndOfList then [] else [p.gAvailableBlocks - 1]
  | .free ptr =>
      if ptr = 0#64 then []
      else if Pool.blockIndex cfg ptr < 0 then []
      else if p.gPoolAllocated (Pool.blockIndex cfg ptr) = 0#8 then []
      else [p.gAvailableBlocks + 1]
  | _ => []

def Machine.arithmetic (m : Machine cfg) (c : Call cfg) : List ℤ :=
  (match c with
    | .sync c => c.arithmetic cfg m.objects
    | .event c => c.arithmetic cfg m.objects
    | .memory c => c.arithmetic m.pool
    | _ => []) ++ (m.effect c).arithmetic m.sched

/-- All of it, for one step of the system. -/
def arithmetic (e : Edge cfg) : List ℤ :=
  match e.act, e.src.phase with
  | .call c, _ => e.src.machine.arithmetic c
  | .ret, .task _ t => e.src.machine.sched.taskReturnedArithmetic t
  | .advance, .cycleTop (_ + 1) =>
      Sched.sleepLoopArithmetic (List.range e.src.machine.sched.taskCount) e.src.machine.sched
  | .advance, .decide _ => e.src.machine.sched.decideArithmetic
  | _, _ => []

end MiniRtos
