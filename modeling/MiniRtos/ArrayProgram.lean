import MiniRtos.ArrayKernel

/-!
# The program on its arrays

The rest of the kernel with its arrays: `buffer[RTOS_QUEUE_SIZE]` of a message queue,
`waiters[RTOS_EVENT_MAX_WAITERS]` of event flags, and the pool with its allocation bytes
and the bytes of its blocks. Together with the scheduler on its arrays this is the whole
program once more, with a step function of its own, in which an access outside an array
has no result. A slot of `g_soft_timers` is reached through a handle or by the loop over
all of them, so that table stays as it is.
-/
namespace MiniRtos
open CheckedArray
variable {cfg : Config}

structure ArrayQueue where
  buffer : ℕ → ℤ
  front : ℤ
  rear : ℤ
  count : ℤ

structure ArrayPool (cfg : Config) where
  gPoolStorage : ℕ → ℕ → BitVec 8
  gPoolAllocated : ℕ → BitVec 8
  gFreeListHead : ℤ
  gAvailableBlocks : ℤ

structure ArrayObjects where
  semaphores : ℕ → Semaphore
  mutexes : ℕ → Mutex
  queues : ℕ → ArrayQueue
  eventFlags : ℕ → EventFlags

namespace ArrayObjects
variable (o : ArrayObjects) (i : ℕ)

def setSemaphore (x : Semaphore) : ArrayObjects :=
  { o with semaphores := Function.update o.semaphores i x }

def setMutex (x : Mutex) : ArrayObjects := { o with mutexes := Function.update o.mutexes i x }

def setQueue (x : ArrayQueue) : ArrayObjects := { o with queues := Function.update o.queues i x }

def setEventFlags (x : EventFlags) : ArrayObjects :=
  { o with eventFlags := Function.update o.eventFlags i x }

end ArrayObjects

namespace ArrayKernel
variable (k : ArrayKernel cfg)

section Sync

def rtosSemWait (sem : Semaphore) : Option (Bool × Semaphore × ArrayKernel cfg) :=
  k.rtosCurrentTask.bind fun _ =>
    if 0 < sem.count then some (true, { sem with count := sem.count - 1 }, k)
    else (k.schedulerSetCurrentTaskState .blocked .semaphore).map fun k => (false, sem, k)

def rtosSemSignal (sem : Semaphore) : Option (Semaphore × ArrayKernel cfg) :=
  (k.schedulerUnblockOne .semaphore).map fun k => ({ sem with count := sem.count + 1 }, k)

def rtosMutexLock (mutex : Mutex) : Option (Bool × Mutex × ArrayKernel cfg) :=
  k.rtosCurrentTask.bind fun i => (k.task i).bind fun task =>
    if !mutex.locked then some (true, { locked := true, owner := task.taskId }, k)
    else if mutex.owner = task.taskId then some (true, mutex, k)
    else (k.schedulerSetCurrentTaskState .blocked .mutex).map fun k => (false, mutex, k)

def rtosMutexUnlock (mutex : Mutex) : Option (Mutex × ArrayKernel cfg) :=
  k.rtosCurrentTask.bind fun i => (k.task i).bind fun task =>
    if !mutex.locked then some (mutex, k)
    else if mutex.owner ≠ task.taskId then some (mutex, k)
    else (k.schedulerUnblockOne .mutex).map fun k => ({ locked := false, owner := -1 }, k)

def rtosQueueSend (queue : ArrayQueue) (value : ℤ) :
    Option (Bool × ArrayQueue × ArrayKernel cfg) :=
  k.rtosCurrentTask.bind fun _ =>
    if queue.count = cfg.rtosQueueSize then
      (k.schedulerSetCurrentTaskState .blocked .queueFull).map fun k => (false, queue, k)
    else
      (store cfg.rtosQueueSize queue.buffer queue.rear value).bind fun buffer =>
        (k.schedulerUnblockOne .queueEmpty).map fun k =>
          (true,
            { queue with
              buffer := buffer
              rear := (queue.rear + 1).tmod cfg.rtosQueueSize
              count := queue.count + 1 }, k)

def rtosQueueReceive (queue : ArrayQueue) : Option (Option ℤ × ArrayQueue × ArrayKernel cfg) :=
  k.rtosCurrentTask.bind fun _ =>
    if queue.count = 0 then
      (k.schedulerSetCurrentTaskState .blocked .queueEmpty).map fun k => (none, queue, k)
    else
      (load cfg.rtosQueueSize queue.buffer queue.front).bind fun value =>
        (k.schedulerUnblockOne .queueFull).map fun k =>
          (some value,
            { queue with
              front := (queue.front + 1).tmod cfg.rtosQueueSize
              count := queue.count - 1 }, k)

def queueInit (queue : ArrayQueue) : ArrayQueue := { queue with front := 0, rear := 0, count := 0 }

def execSync (o : ArrayObjects) : SyncCall → Option (Value × ArrayKernel cfg × ArrayObjects)
  | .semaphoreInit i initialCount =>
      some (.void, k, o.setSemaphore i (semaphoreInit initialCount))
  | .semWait i =>
      (k.rtosSemWait (o.semaphores i)).map fun r => (.bool r.1, r.2.2, o.setSemaphore i r.2.1)
  | .semSignal i =>
      (k.rtosSemSignal (o.semaphores i)).map fun r => (.void, r.2, o.setSemaphore i r.1)
  | .mutexInit i => some (.void, k, o.setMutex i mutexInit)
  | .mutexLock i =>
      (k.rtosMutexLock (o.mutexes i)).map fun r => (.bool r.1, r.2.2, o.setMutex i r.2.1)
  | .mutexUnlock i =>
      (k.rtosMutexUnlock (o.mutexes i)).map fun r => (.void, r.2, o.setMutex i r.1)
  | .queueInit i => some (.void, k, o.setQueue i (queueInit (o.queues i)))
  | .queueSend i value =>
      (k.rtosQueueSend (o.queues i) value).map fun r => (.bool r.1, r.2.2, o.setQueue i r.2.1)
  | .queueReceive i =>
      (k.rtosQueueReceive (o.queues i)).map fun r => (.received r.1, r.2.2, o.setQueue i r.2.1)

end Sync

section Events

/-- One pass of the loop of `event_flags_init`. -/
def clearWaiter (cfg : Config) (i : ℕ) (waiters : ℕ → EventWaiter) : Option (ℕ → EventWaiter) :=
  store cfg.rtosEventMaxWaiters waiters i EventFlags.noWaiter

def eventFlagsInit (cfg : Config) (ef : EventFlags) : Option EventFlags :=
  (forLoop (clearWaiter cfg) cfg.rtosEventMaxWaiters 0 ef.waiters).map fun waiters =>
    ⟨0#32, waiters, 0⟩

/-- The last entry moves to slot `i`, and its own slot becomes free. -/
def removeWaiter (cfg : Config) (ef : EventFlags) (i : ℕ) : Option EventFlags :=
  let last : ℤ := ef.waiterCount - 1
  (load cfg.rtosEventMaxWaiters ef.waiters last).bind fun w =>
    (store cfg.rtosEventMaxWaiters ef.waiters i w).bind fun waiters =>
      (store cfg.rtosEventMaxWaiters waiters last EventFlags.noWaiter).map fun waiters =>
        { ef with waiters := waiters, waiterCount := ef.waiterCount - 1 }

/-- The loop of `event_flags_set`; the argument is one more than its index `i`. -/
def eventFlagsSetLoop : ℕ → EventFlags → ArrayKernel cfg → Option (EventFlags × ArrayKernel cfg)
  | 0, ef, k => some (ef, k)
  | i + 1, ef, k =>
      (load cfg.rtosEventMaxWaiters ef.waiters i).bind fun w =>
        if !EventFlags.satisfied ef.flags w.requiredMask then eventFlagsSetLoop i ef k
        else
          (removeWaiter cfg { ef with flags := ef.flags &&& ~~~w.requiredMask } i).bind fun ef =>
            (k.schedulerSetTaskState w.taskIndex .ready .none).bind fun k =>
              eventFlagsSetLoop i ef k

def eventFlagsSet (ef : EventFlags) (mask : BitVec 32) : Option (EventFlags × ArrayKernel cfg) :=
  if mask = 0#32 then some (ef, k)
  else eventFlagsSetLoop ef.waiterCount { ef with flags := ef.flags ||| mask } k

def eventFlagsWait (ef : EventFlags) (mask : BitVec 32) :
    Option (Bool × EventFlags × ArrayKernel cfg) :=
  if mask = 0#32 then some (false, ef, k)
  else if EventFlags.satisfied ef.flags mask then
    some (true, { ef with flags := ef.flags &&& ~~~mask }, k)
  else if cfg.rtosEventMaxWaiters ≤ ef.waiterCount then some (false, ef, k)
  else
    (store cfg.rtosEventMaxWaiters ef.waiters ef.waiterCount ⟨k.currentTaskIndex, mask⟩).bind
      fun waiters => (k.schedulerSetCurrentTaskState .blocked .event).map fun k =>
        (false, { ef with waiters := waiters, waiterCount := ef.waiterCount + 1 }, k)

def execEvent (o : ArrayObjects) : EventCall → Option (Value × ArrayKernel cfg × ArrayObjects)
  | .init none => some (.void, k, o)
  | .init (some i) =>
      (eventFlagsInit cfg (o.eventFlags i)).map fun ef => (.void, k, o.setEventFlags i ef)
  | .set none _ => some (.void, k, o)
  | .set (some i) mask =>
      (k.eventFlagsSet (o.eventFlags i) mask).map fun r => (.void, r.2, o.setEventFlags i r.1)
  | .clear none _ => some (.void, k, o)
  | .clear (some i) mask =>
      some (.void, k, o.setEventFlags i ((o.eventFlags i).eventFlagsClear mask))
  | .wait none _ => some (.bool false, k, o)
  | .wait (some i) mask =>
      (k.eventFlagsWait (o.eventFlags i) mask).map fun r =>
        (.bool r.1, r.2.2, o.setEventFlags i r.2.1)
  | .get none => some (.word 0#32, k, o)
  | .get (some i) => some (.word (o.eventFlags i).eventFlagsGet, k, o)

end Events
end ArrayKernel

namespace ArrayPool
variable (p : ArrayPool cfg)

/-- `memcpy` of an `int` out of the first bytes of a block. -/
def readNextLink (idx : ℤ) : Option ℤ :=
  (load cfg.rtosPoolBlockCount p.gPoolStorage idx).bind fun block =>
    (load cfg.rtosPoolBlockSize block 0).bind fun b₀ =>
      (load cfg.rtosPoolBlockSize block 1).bind fun b₁ =>
        (load cfg.rtosPoolBlockSize block 2).bind fun b₂ =>
          (load cfg.rtosPoolBlockSize block 3).map fun b₃ =>
            (b₃ ++ b₂ ++ b₁ ++ b₀ : BitVec 32).toInt

/-- `memcpy` of an `int` into the first bytes of a block. -/
def writeNextLink (idx next : ℤ) : Option (ArrayPool cfg) :=
  (load cfg.rtosPoolBlockCount p.gPoolStorage idx).bind fun block =>
    (forLoop (fun j block => store cfg.rtosPoolBlockSize block j (Pool.intByte next j)) 4 0
        block).bind fun block =>
      (store cfg.rtosPoolBlockCount p.gPoolStorage idx block).map fun storage =>
        { p with gPoolStorage := storage }

def setAllocated (idx : ℤ) (b : BitVec 8) : Option (ArrayPool cfg) :=
  (store cfg.rtosPoolBlockCount p.gPoolAllocated idx b).map fun a => { p with gPoolAllocated := a }

/-- One pass of the loop of `memory_init`. -/
def initBlock (i : ℕ) (p : ArrayPool cfg) : Option (ArrayPool cfg) :=
  let next : ℤ := if i + 1 < cfg.rtosPoolBlockCount then i + 1 else Pool.poolEndOfList
  (p.writeNextLink i next).bind fun p => p.setAllocated i 0#8

def memoryInit : Option (ArrayPool cfg) :=
  (forLoop initBlock cfg.rtosPoolBlockCount 0 p).map fun p =>
    { p with gFreeListHead := 0, gAvailableBlocks := cfg.rtosPoolBlockCount }

def memoryAlloc : Option (BitVec 64 × ArrayPool cfg) :=
  if p.gFreeListHead = Pool.poolEndOfList then some (0#64, p)
  else
    let idx := p.gFreeListHead
    (p.readNextLink idx).bind fun next => (p.setAllocated idx 1#8).map fun p =>
      (Pool.blockAddress cfg idx,
        { p with gFreeListHead := next, gAvailableBlocks := p.gAvailableBlocks - 1 })

def memoryFree (ptr : BitVec 64) : Option (ArrayPool cfg) :=
  if ptr = 0#64 then some p
  else
    let idx := Pool.blockIndex cfg ptr
    if idx < 0 then some p
    else (load cfg.rtosPoolBlockCount p.gPoolAllocated idx).bind fun allocated =>
      if allocated = 0#8 then some p
      else (p.writeNextLink idx p.gFreeListHead).bind fun p => (p.setAllocated idx 0#8).map fun p =>
        { p with gFreeListHead := idx, gAvailableBlocks := p.gAvailableBlocks + 1 }

/-- A client stores one byte in a block it holds. -/
def clientWrite (idx : ℤ) (offset : ℕ) (byte : BitVec 8) : Option (ArrayPool cfg) :=
  (load cfg.rtosPoolBlockCount p.gPoolStorage idx).bind fun block =>
    (store cfg.rtosPoolBlockSize block offset byte).bind fun block =>
      (store cfg.rtosPoolBlockCount p.gPoolStorage idx block).map fun storage =>
        { p with gPoolStorage := storage }

def exec : MemoryCall → Option (Value × ArrayPool cfg)
  | .alloc => p.memoryAlloc.map fun r => (.address r.1, r.2)
  | .free ptr => (p.memoryFree ptr).map fun p => (.void, p)
  | .availableBlocks => some (.int p.gAvailableBlocks, p)
  | .write idx offset byte =>
      (load cfg.rtosPoolBlockCount p.gPoolAllocated idx).bind fun allocated =>
        if allocated = 0#8 then none
        else (p.clientWrite idx offset byte).map fun p => (.void, p)

end ArrayPool

structure ArrayMachine (cfg : Config) where
  kernel : ArrayKernel cfg
  timer : TimerState cfg
  pool : ArrayPool cfg
  activeContext : CPUContext
  objects : ArrayObjects

structure ArraySystem (cfg : Config) where
  machine : ArrayMachine cfg
  phase : Phase cfg

namespace ArrayMachine
variable (m : ArrayMachine cfg)

def exec : Call cfg → Option (Value × ArrayMachine cfg)
  | .task c => (m.kernel.exec c).map fun r => (r.1, { m with kernel := r.2 })
  | .sync c =>
      (m.kernel.execSync m.objects c).map fun r =>
        (r.1, { m with kernel := r.2.1, objects := r.2.2 })
  | .event c =>
      (m.kernel.execEvent m.objects c).map fun r =>
        (r.1, { m with kernel := r.2.1, objects := r.2.2 })
  | .timer c =>
      let r := c.exec m.timer
      some (r.1, { m with timer := r.2 })
  | .memory c => (m.pool.exec c).map fun r => (r.1, { m with pool := r.2 })
  | .context c =>
      let r := c.exec m.activeContext
      some (r.1, { m with activeContext := r.2 })

def rtosInit : Option (ArrayMachine cfg) :=
  m.pool.memoryInit.map fun pool =>
    { m with kernel := m.kernel.schedulerInit, timer := TimerState.timerInit, pool := pool }

end ArrayMachine

namespace ArraySystem
variable (s : ArraySystem cfg)

/-- The kernel's own next stretch of `scheduler_run`. -/
def advance : Option (Observation cfg × ArraySystem cfg) :=
  let m := s.machine
  match s.phase with
  | .cycleTop 0 => some (.silent, ⟨m, .outside⟩)
  | .cycleTop (left + 1) =>
      m.kernel.timerUpdateSleep.map fun kernel =>
        (.silent, ⟨{ m with timer := m.timer.timerTick, kernel := kernel }, .softTimer left 0⟩)
  | .softTimer left i =>
      if h : i < cfg.rtosSoftTimerCount then
        let slot : Fin cfg.rtosSoftTimerCount := ⟨i, h⟩
        let r := m.timer.timerUpdateSoftSlot slot
        let m := { m with timer := r.2 }
        if r.1 then
          some (.callbackCalled slot (r.2.softTimers slot).callback (r.2.softTimers slot).arg,
            ⟨m, .callback left slot⟩)
        else some (.silent, ⟨m, .softTimer left (i + 1)⟩)
      else some (.silent, ⟨m, .decide left⟩)
  | .decide left =>
      (m.kernel.schedulerRunDecide m.activeContext).map fun r =>
        let m := { m with kernel := r.2.1, activeContext := r.2.2 }
        match r.1 with
        | none => (.idle, ⟨m, .cycleTop left⟩)
        | some (branch, t) => (.taskCalled branch t, ⟨m, .task left t⟩)
  | _ => none

/-- A callback or a task function returns to the kernel. -/
def ret : Option (Observation cfg × ArraySystem cfg) :=
  let m := s.machine
  match s.phase with
  | .callback left i =>
      some (.silent,
        ⟨{ m with timer := m.timer.timerCallbackReturned i }, .softTimer left (i.val + 1)⟩)
  | .task left t =>
      (m.kernel.taskReturned t).map fun kernel =>
        (.silent, ⟨{ m with kernel := kernel }, .cycleTop left⟩)
  | _ => none

def step (s : ArraySystem cfg) : Action cfg → Option (Observation cfg × ArraySystem cfg)
  | .init =>
      if s.phase = .outside then
        s.machine.rtosInit.map fun m => (.silent, { s with machine := m })
      else none
  | .run maxTicks =>
      if s.phase = .outside then some (.silent, { s with phase := .cycleTop maxTicks.toNat })
      else none
  | .call c =>
      if s.phase.application then
        (s.machine.exec c).map fun r => (.returned r.1, { s with machine := r.2 })
      else none
  | .ret => s.ret
  | .advance => s.advance

end ArraySystem

end MiniRtos
