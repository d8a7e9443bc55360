import MiniRtos.Event
import MiniRtos.MemoryPool
import MiniRtos.TransitionSystem

/-!
# The whole program as a transition system

A machine holds the static data of the kernel's six files and the application's
objects. The kernel is single-threaded and cooperative: at any moment the main
program, one timer callback or one task function is executing, or the kernel is at a
definite point of `scheduler_run`. The phase says which. What application code does
is the environment's choice; what the kernel does between two pieces of application
code is the action `advance`, one action for each stretch of a loop body, so every
call boundary is a state of the system.

`rtos_init` and `rtos_run` are called by the main program only.
-/
namespace MiniRtos
open TransitionSystem

/-- The objects application code declares; each kind may have any number. -/
structure Objects where
  semaphores : ℕ → Semaphore
  mutexes : ℕ → Mutex
  queues : ℕ → MessageQueue
  eventFlags : ℕ → EventFlags

structure Machine (cfg : Config) where
  sched : Sched cfg
  timer : TimerState cfg
  pool : Pool cfg
  activeContext : CPUContext
  objects : Objects

/-- `rtos.c` on tasks. -/
inductive TaskCall where
  | create (priority : ℤ) (taskFunction : BitVec 64)
  | sleep (ticks : ℤ)
  | suspend (taskId : ℤ)
  | resume (taskId : ℤ)
  | getTaskState (taskId : ℤ)
  | readyCount
  | getTaskStackBase (taskId : ℤ)
  | getTaskStackPointer (taskId : ℤ)
  | getTaskStackSize (taskId : ℤ)
  | currentTask
deriving DecidableEq

/-- `rtos.c` on semaphores, mutexes and message queues. -/
inductive SyncCall where
  | semaphoreInit (sem : ℕ) (initialCount : ℤ)
  | semWait (sem : ℕ)
  | semSignal (sem : ℕ)
  | mutexInit (mutex : ℕ)
  | mutexLock (mutex : ℕ)
  | mutexUnlock (mutex : ℕ)
  | queueInit (queue : ℕ)
  | queueSend (queue : ℕ) (value : ℤ)
  | queueReceive (queue : ℕ)
deriving DecidableEq

/-- `event.c`; the pointer may be `NULL`. -/
inductive EventCall where
  | init (ef : Option ℕ)
  | set (ef : Option ℕ) (mask : BitVec 32)
  | clear (ef : Option ℕ) (mask : BitVec 32)
  | wait (ef : Option ℕ) (mask : BitVec 32)
  | get (ef : Option ℕ)
deriving DecidableEq

/-- The public part of `timer.c`. -/
inductive TimerCall (cfg : Config) where
  | softCreate (mode : TimerMode) (periodTicks : BitVec 32) (callback arg : BitVec 64)
  | softStart (timer : Option (Fin cfg.rtosSoftTimerCount))
  | softStop (timer : Option (Fin cfg.rtosSoftTimerCount))
  | softDelete (timer : Option (Fin cfg.rtosSoftTimerCount))
  | now
deriving DecidableEq

/-- `memory.c`, and the stores of a client to blocks it holds. -/
inductive MemoryCall where
  | alloc
  | free (ptr : BitVec 64)
  | availableBlocks
  | write (idx : ℤ) (offset : ℕ) (byte : BitVec 8)
deriving DecidableEq

/-- The public part of `context.c` that touches the live registers. -/
inductive ContextCall where
  | restore (source : CPUContext)
  | active
deriving DecidableEq

inductive Call (cfg : Config) where
  | task (c : TaskCall)
  | sync (c : SyncCall)
  | event (c : EventCall)
  | timer (c : TimerCall cfg)
  | memory (c : MemoryCall)
  | context (c : ContextCall)
deriving DecidableEq

/-- What a call gives back to application code. -/
inductive Value where
  | void
  | bool (b : Bool)
  | int (n : ℤ)
  | count (n : ℕ)
  | index (i : Option ℕ)
  | stackPointer (p : Option (ℕ × ℕ))
  | state (s : TaskState)
  | received (v : Option ℤ)
  | word (w : BitVec 32)
  | address (a : BitVec 64)
  | context (c : CPUContext)
deriving DecidableEq

variable {cfg : Config}

namespace Objects

def setSemaphore (o : Objects) (i : ℕ) (x : Semaphore) : Objects :=
  { o with semaphores := Function.update o.semaphores i x }

def setMutex (o : Objects) (i : ℕ) (x : Mutex) : Objects :=
  { o with mutexes := Function.update o.mutexes i x }

def setQueue (o : Objects) (i : ℕ) (x : MessageQueue) : Objects :=
  { o with queues := Function.update o.queues i x }

def setEventFlags (o : Objects) (i : ℕ) (x : EventFlags) : Objects :=
  { o with eventFlags := Function.update o.eventFlags i x }

end Objects

def TaskCall.exec (s : Sched cfg) : TaskCall → Value × Sched cfg
  | .create priority taskFunction =>
      let r := s.rtosCreateTask priority taskFunction
      (.int r.1, r.2)
  | .sleep ticks => (.void, s.rtosTaskSleep ticks)
  | .suspend taskId =>
      let r := s.rtosSuspendTask taskId
      (.bool r.1, r.2)
  | .resume taskId =>
      let r := s.rtosResumeTask taskId
      (.bool r.1, r.2)
  | .getTaskState taskId => (.state (s.rtosGetTaskState taskId), s)
  | .readyCount => (.count s.rtosReadyCount, s)
  | .getTaskStackBase taskId => (.index (s.rtosGetTaskStackBase taskId), s)
  | .getTaskStackPointer taskId => (.stackPointer (s.rtosGetTaskStackPointer taskId), s)
  | .getTaskStackSize taskId => (.count (s.rtosGetTaskStackSize taskId), s)
  | .currentTask => (.index s.rtosCurrentTask, s)

def SyncCall.exec (s : Sched cfg) (o : Objects) : SyncCall → Option (Value × Sched cfg × Objects)
  | .semaphoreInit i initialCount =>
      some (.void, s, o.setSemaphore i (MiniRtos.semaphoreInit initialCount))
  | .semWait i =>
      (s.rtosSemWait (o.semaphores i)).map fun r => (.bool r.1, r.2.2, o.setSemaphore i r.2.1)
  | .semSignal i =>
      let r := s.rtosSemSignal (o.semaphores i)
      some (.void, r.2, o.setSemaphore i r.1)
  | .mutexInit i => some (.void, s, o.setMutex i MiniRtos.mutexInit)
  | .mutexLock i =>
      (s.rtosMutexLock (o.mutexes i)).map fun r => (.bool r.1, r.2.2, o.setMutex i r.2.1)
  | .mutexUnlock i =>
      (s.rtosMutexUnlock (o.mutexes i)).map fun r => (.void, r.2, o.setMutex i r.1)
  | .queueInit i => some (.void, s, o.setQueue i (MiniRtos.queueInit (o.queues i)))
  | .queueSend i value =>
      (s.rtosQueueSend (o.queues i) value).map fun r => (.bool r.1, r.2.2, o.setQueue i r.2.1)
  | .queueReceive i =>
      (s.rtosQueueReceive (o.queues i)).map fun r => (.received r.1, r.2.2, o.setQueue i r.2.1)

/-- Each function of `event.c` returns at once when its pointer is `NULL`. -/
def EventCall.exec (s : Sched cfg) (o : Objects) : EventCall → Value × Sched cfg × Objects
  | .init none => (.void, s, o)
  | .init (some i) => (.void, s, o.setEventFlags i ((o.eventFlags i).eventFlagsInit cfg))
  | .set none _ => (.void, s, o)
  | .set (some i) mask =>
      let r := (o.eventFlags i).eventFlagsSet s mask
      (.void, r.2, o.setEventFlags i r.1)
  | .clear none _ => (.void, s, o)
  | .clear (some i) mask => (.void, s, o.setEventFlags i ((o.eventFlags i).eventFlagsClear mask))
  | .wait none _ => (.bool false, s, o)
  | .wait (some i) mask =>
      let r := (o.eventFlags i).eventFlagsWait s mask
      (.bool r.1, r.2.2, o.setEventFlags i r.2.1)
  | .get none => (.word 0#32, s, o)
  | .get (some i) => (.word (o.eventFlags i).eventFlagsGet, s, o)

def TimerCall.exec (t : TimerState cfg) : TimerCall cfg → Value × TimerState cfg
  | .softCreate mode periodTicks callback arg =>
      let r := t.timerSoftCreate mode periodTicks callback arg
      (.index (r.1.map Fin.val), r.2)
  | .softStart timer => (.void, t.timerSoftStart timer)
  | .softStop timer => (.void, t.timerSoftStop timer)
  | .softDelete timer => (.void, t.timerSoftDelete timer)
  | .now => (.word t.timerNow, t)

/-- A store outside the blocks that are allocated is not the client's to make. -/
def MemoryCall.exec (p : Pool cfg) : MemoryCall → Option (Value × Pool cfg)
  | .alloc =>
      let r := p.memoryAlloc
      some (.address r.1, r.2)
  | .free ptr => some (.void, p.memoryFree ptr)
  | .availableBlocks => some (.int p.memoryAvailableBlocks, p)
  | .write idx offset byte =>
      if 0 ≤ idx ∧ idx < cfg.rtosPoolBlockCount ∧ offset < cfg.rtosPoolBlockSize ∧
          p.gPoolAllocated idx ≠ 0#8 then
        some (.void, p.clientWrite idx offset byte)
      else none

def ContextCall.exec (active : CPUContext) : ContextCall → Value × CPUContext
  | .restore source => (.void, source)
  | .active => (.context active, active)

/-- One call of the kernel; `none` where C gives it no meaning. -/
def Machine.exec (m : Machine cfg) : Call cfg → Option (Value × Machine cfg)
  | .task c =>
      let r := c.exec m.sched
      some (r.1, { m with sched := r.2 })
  | .sync c =>
      (c.exec m.sched m.objects).map fun r => (r.1, { m with sched := r.2.1, objects := r.2.2 })
  | .event c =>
      let r := c.exec m.sched m.objects
      some (r.1, { m with sched := r.2.1, objects := r.2.2 })
  | .timer c =>
      let r := c.exec m.timer
      some (r.1, { m with timer := r.2 })
  | .memory c => (c.exec m.pool).map fun r => (r.1, { m with pool := r.2 })
  | .context c =>
      let r := c.exec m.activeContext
      some (r.1, { m with activeContext := r.2 })

/-- Each group of calls acts on its own part of the machine. -/
inductive Machine.ExecCases (m : Machine cfg) : Call cfg → Value → Machine cfg → Prop
  | task {c : TaskCall} :
      ExecCases m (.task c) (c.exec m.sched).1 { m with sched := (c.exec m.sched).2 }
  | sync {c : SyncCall} {v : Value} {sched : Sched cfg} {objects : Objects} :
      c.exec m.sched m.objects = some (v, sched, objects) →
      ExecCases m (.sync c) v { m with sched := sched, objects := objects }
  | event {c : EventCall} :
      ExecCases m (.event c) (c.exec m.sched m.objects).1
        { m with
          sched := (c.exec m.sched m.objects).2.1
          objects := (c.exec m.sched m.objects).2.2 }
  | timer {c : TimerCall cfg} :
      ExecCases m (.timer c) (c.exec m.timer).1 { m with timer := (c.exec m.timer).2 }
  | memory {c : MemoryCall} {v : Value} {pool : Pool cfg} : c.exec m.pool = some (v, pool) →
      ExecCases m (.memory c) v { m with pool := pool }
  | context {c : ContextCall} :
      ExecCases m (.context c) (c.exec m.activeContext).1
        { m with activeContext := (c.exec m.activeContext).2 }

theorem Machine.exec_cases {m m' : Machine cfg} {c : Call cfg} {v : Value}
    (h : m.exec c = some (v, m')) : m.ExecCases c v m' := by
  cases c with
  | sync c | memory c =>
      obtain ⟨r, hr, he⟩ := Option.map_eq_some_iff.mp h
      obtain ⟨rfl, rfl⟩ := Prod.mk.inj he
      constructor
      exact hr
  | task c | event c | timer c | context c =>
      obtain ⟨rfl, rfl⟩ := Prod.mk.inj (Option.some.inj h)
      constructor

/-- The task table and the register file keep their old contents. -/
def Machine.rtosInit (m : Machine cfg) : Machine cfg :=
  { m with
    sched := { m.sched with taskCount := 0, currentTaskIndex := -1, readyQueue := [] }
    timer := TimerState.timerInit
    pool := m.pool.memoryInit }

/-- Where the program is. `left` counts the cycles of `scheduler_run` still to come. -/
inductive Phase (cfg : Config) where
  | outside
  | cycleTop (left : ℕ)
  | softTimer (left i : ℕ)
  | callback (left : ℕ) (i : Fin cfg.rtosSoftTimerCount)
  | decide (left : ℕ)
  | task (left t : ℕ)
deriving DecidableEq

/-- Application code is executing. -/
def Phase.application : Phase cfg → Bool
  | .outside | .callback _ _ | .task _ _ => true
  | _ => false

/-- A task function is executing. -/
def Phase.isTask : Phase cfg → Bool
  | .task _ _ => true
  | _ => false

theorem Phase.isTask_iff {p : Phase cfg} : p.isTask ↔ ∃ left t, p = .task left t := by
  cases p <;> simp [isTask]

structure System (cfg : Config) where
  machine : Machine cfg
  phase : Phase cfg

inductive Action (cfg : Config) where
  | init
  | run (maxTicks : ℤ)
  | call (c : Call cfg)
  | ret
  | advance
deriving DecidableEq

inductive Observation (cfg : Config) where
  | silent
  | returned (v : Value)
  | callbackCalled (i : Fin cfg.rtosSoftTimerCount) (callback arg : BitVec 64)
  | idle
  | taskCalled (branch : Sched.Branch) (t : ℕ)
deriving DecidableEq

/-- The kernel's own next stretch of `scheduler_run`. -/
def System.advance (s : System cfg) : Option (Observation cfg × System cfg) :=
  let m := s.machine
  match s.phase with
  | .cycleTop 0 => some (.silent, ⟨m, .outside⟩)
  | .cycleTop (left + 1) =>
      some (.silent,
        ⟨{ m with timer := m.timer.timerTick, sched := m.sched.timerUpdateSleep },
          .softTimer left 0⟩)
  | .softTimer left i =>
      if h : i < cfg.rtosSoftTimerCount then
        let slot : Fin cfg.rtosSoftTimerCount := ⟨i, h⟩
        let r := m.timer.timerUpdateSoftSlot slot
        let m := { m with timer := r.2 }
        if r.1 then
          some (.callbackCalled slot (r.2.softTimers slot).callback (r.2.softTimers slot).arg,
            ⟨m, .callback left slot⟩)
        else some (.silent, ⟨m, .softTimer left (i + 1)⟩)
      else some (.silent, ⟨m, .decide left⟩)
  | .decide left =>
      let r := m.sched.schedulerRunDecide m.activeContext
      let m := { m with sched := r.2.1, activeContext := r.2.2 }
      match r.1 with
      | none => some (.idle, ⟨m, .cycleTop left⟩)
      | some (branch, t) => some (.taskCalled branch t, ⟨m, .task left t⟩)
  | _ => none

/-- A callback or a task function returns to the kernel. -/
def System.ret (s : System cfg) : Option (Observation cfg × System cfg) :=
  let m := s.machine
  match s.phase with
  | .callback left i =>
      some (.silent,
        ⟨{ m with timer := m.timer.timerCallbackReturned i }, .softTimer left (i.val + 1)⟩)
  | .task left t =>
      some (.silent, ⟨{ m with sched := m.sched.taskReturned t }, .cycleTop left⟩)
  | _ => none

def step (s : System cfg) : Action cfg → Option (Observation cfg × System cfg)
  | .init =>
      if s.phase = .outside then some (.silent, { s with machine := s.machine.rtosInit })
      else none
  | .run maxTicks =>
      if s.phase = .outside then some (.silent, { s with phase := .cycleTop maxTicks.toNat })
      else none
  | .call c =>
      if s.phase.application then
        (s.machine.exec c).map fun r => (.returned r.1, { s with machine := r.2 })
      else none
  | .ret => s.ret
  | .advance => s.advance

/-- The main program has just called `rtos_init`, whatever happened before. -/
def Initial (s : System cfg) : Prop :=
  s.phase = .outside ∧ ∃ m : Machine cfg, s.machine = m.rtosInit

/-- Static storage as the loader leaves it; the initialiser of the current index is `-1`. -/
def Machine.powerOn (cfg : Config) : Machine cfg where
  sched :=
    { taskList := fun _ => ⟨0, 0, .ready, .none, 0, fun _ => 0#64, 0, 0, contextClear, 0#64, 0#32⟩
      taskCount := 0
      currentTaskIndex := -1
      readyQueue := [] }
  timer := ⟨0#32, fun _ => .zero⟩
  pool := ⟨fun _ _ => 0#8, fun _ => 0#8, 0, 0⟩
  activeContext := contextClear
  objects :=
    { semaphores := fun _ => ⟨0⟩
      mutexes := fun _ => ⟨false, 0⟩
      queues := fun _ => ⟨fun _ => 0, 0, 0, 0⟩
      eventFlags := fun _ => ⟨0#32, fun _ => ⟨0, 0#32⟩, 0⟩ }

/-- The main program has called `rtos_init` first of all. -/
def System.boot (cfg : Config) : System cfg := ⟨(Machine.powerOn cfg).rtosInit, .outside⟩

abbrev Edge (cfg : Config) :=
  TransitionSystem.Edge (System cfg) (Action cfg) (Observation cfg)

abbrev History (cfg : Config) :=
  TransitionSystem.History (System cfg) (Action cfg) (Observation cfg)

/-- Reachable after `rtos_init`. -/
def Reachable (s : System cfg) : Prop := TransitionSystem.Reachable step Initial s

theorem System.boot_initial (cfg : Config) : Initial (System.boot cfg) := ⟨rfl, _, rfl⟩

/-- What the actions of a program lead to from `rtos_init`. -/
abbrev System.after (cfg : Config) (as : List (Action cfg)) : History cfg × System cfg :=
  played step (.boot cfg) as

theorem System.after_reachable (as : List (Action cfg)) : Reachable (System.after cfg as).2 :=
  ⟨_, _, System.boot_initial cfg, run_played _ _⟩

/-- The kernel's steps of a cycle up to the call of the task function, when no callback
is called on the way. -/
def cycleActions (cfg : Config) : List (Action cfg) :=
  List.replicate (cfg.rtosSoftTimerCount + 3) .advance

end MiniRtos
