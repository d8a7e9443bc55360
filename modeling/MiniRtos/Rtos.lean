import MiniRtos.Timer

/-!
# The kernel core: tasks, semaphores, mutexes and message queues

`rtos.c`. A call that the source makes through a pointer to an application object
takes the object and returns it. Every path of the five calls that block reads the
name or the id of the current task; when there is none, that read dereferences
`NULL` and the call has no defined behaviour, which is `none` here.
-/
namespace MiniRtos
variable {cfg : Config}

namespace Sched

def taskIndexFromId (s : Sched cfg) (taskId : ℤ) : Option ℕ :=
  (List.range s.taskCount).find? fun i => (s.taskList i).taskId = taskId

def rtosStackWords (cfg : Config) : ℕ := cfg.rtosStackSize / 8

def initTaskStack (cfg : Config) (t : TCB) : TCB :=
  { t with
    stackMemory := fun i => if i < rtosStackWords cfg then 0#64 else t.stackMemory i
    stackSize := rtosStackWords cfg * 8
    stackPointer := rtosStackWords cfg }

def rtosCreateTask (s : Sched cfg) (priority : ℤ) (taskFunction : BitVec 64) :
    ℤ × Sched cfg :=
  if cfg.rtosMaxTasks ≤ s.taskCount then (-1, s)
  else
    let i := s.taskCount
    let s := s.modifyTask i fun t =>
      { initTaskStack cfg t with
        taskId := i + 1
        priority := priority
        state := .suspended
        blockReason := .none
        sleepTicks := 0
        sliceTicksUsed := 0#32
        context := contextInit taskFunction
        taskFunction := taskFunction }
    let s := { s with taskCount := i + 1 }
    let s := s.schedulerSetTaskState i .ready .none
    ((s.taskList i).taskId, s)

def rtosTaskSleep (s : Sched cfg) (ticks : ℤ) : Sched cfg :=
  match s.rtosCurrentTask with
  | none => s
  | some task =>
      (s.modifyTask task fun t => { t with sleepTicks := ticks }).schedulerSetCurrentTaskState
        .blocked .sleep

def rtosSuspendTask (s : Sched cfg) (taskId : ℤ) : Bool × Sched cfg :=
  match s.taskIndexFromId taskId with
  | none => (false, s)
  | some i => (true, s.schedulerSetTaskState i .suspended .none)

def rtosResumeTask (s : Sched cfg) (taskId : ℤ) : Bool × Sched cfg :=
  match s.taskIndexFromId taskId with
  | none => (false, s)
  | some i =>
      if (s.taskList i).state ≠ .suspended then (false, s)
      else (true, s.schedulerSetTaskState i .ready .none)

def rtosGetTaskState (s : Sched cfg) (taskId : ℤ) : TaskState :=
  match s.taskIndexFromId taskId with
  | none => .suspended
  | some i => (s.taskList i).state

def rtosReadyCount (s : Sched cfg) : ℕ := s.schedulerReadyCount

/-- The task whose stack the returned pointer is the base of. -/
def rtosGetTaskStackBase (s : Sched cfg) (taskId : ℤ) : Option ℕ := s.taskIndexFromId taskId

/-- The task whose stack the returned pointer points into, and the word offset. -/
def rtosGetTaskStackPointer (s : Sched cfg) (taskId : ℤ) : Option (ℕ × ℕ) :=
  (s.taskIndexFromId taskId).map fun i => (i, (s.taskList i).stackPointer)

def rtosGetTaskStackSize (s : Sched cfg) (taskId : ℤ) : ℕ :=
  match s.taskIndexFromId taskId with
  | none => 0
  | some i => (s.taskList i).stackSize

end Sched

structure Semaphore where
  count : ℤ
deriving DecidableEq, Repr

structure Mutex where
  locked : Bool
  owner : ℤ
deriving DecidableEq, Repr

structure MessageQueue where
  buffer : ℤ → ℤ
  front : ℤ
  rear : ℤ
  count : ℤ

def semaphoreInit (initialCount : ℤ) : Semaphore := ⟨initialCount⟩

def mutexInit : Mutex := ⟨false, -1⟩

def queueInit (queue : MessageQueue) : MessageQueue :=
  { queue with front := 0, rear := 0, count := 0 }

namespace Sched

def rtosSemWait (s : Sched cfg) (sem : Semaphore) : Option (Bool × Semaphore × Sched cfg) :=
  let task := s.rtosCurrentTask
  if 0 < sem.count then
    task.map fun _ => (true, { sem with count := sem.count - 1 }, s)
  else
    task.map fun _ => (false, sem, s.schedulerSetCurrentTaskState .blocked .semaphore)

def rtosSemSignal (s : Sched cfg) (sem : Semaphore) : Semaphore × Sched cfg :=
  ({ sem with count := sem.count + 1 }, s.schedulerUnblockOne .semaphore)

def rtosMutexLock (s : Sched cfg) (mutex : Mutex) : Option (Bool × Mutex × Sched cfg) :=
  let task := s.rtosCurrentTask
  if !mutex.locked then
    task.map fun t => (true, { locked := true, owner := (s.taskList t).taskId }, s)
  else
    task.map fun t =>
      if mutex.owner = (s.taskList t).taskId then (true, mutex, s)
      else (false, mutex, s.schedulerSetCurrentTaskState .blocked .mutex)

def rtosMutexUnlock (s : Sched cfg) (mutex : Mutex) : Option (Mutex × Sched cfg) :=
  let task := s.rtosCurrentTask
  if !mutex.locked then task.map fun _ => (mutex, s)
  else
    task.map fun t =>
      if mutex.owner ≠ (s.taskList t).taskId then (mutex, s)
      else ({ locked := false, owner := -1 }, s.schedulerUnblockOne .mutex)

def rtosQueueSend (s : Sched cfg) (queue : MessageQueue) (value : ℤ) :
    Option (Bool × MessageQueue × Sched cfg) :=
  let task := s.rtosCurrentTask
  if queue.count = cfg.rtosQueueSize then
    task.map fun _ => (false, queue, s.schedulerSetCurrentTaskState .blocked .queueFull)
  else
    task.map fun _ =>
      (true,
        { queue with
          buffer := Function.update queue.buffer queue.rear value
          rear := (queue.rear + 1).tmod cfg.rtosQueueSize
          count := queue.count + 1 },
        s.schedulerUnblockOne .queueEmpty)

/-- `some v` is the result `true` with `v` stored through the pointer. -/
def rtosQueueReceive (s : Sched cfg) (queue : MessageQueue) :
    Option (Option ℤ × MessageQueue × Sched cfg) :=
  let task := s.rtosCurrentTask
  if queue.count = 0 then
    task.map fun _ => (none, queue, s.schedulerSetCurrentTaskState .blocked .queueEmpty)
  else
    task.map fun _ =>
      (some (queue.buffer queue.front),
        { queue with
          front := (queue.front + 1).tmod cfg.rtosQueueSize
          count := queue.count - 1 },
        s.schedulerUnblockOne .queueFull)

end Sched

end MiniRtos
