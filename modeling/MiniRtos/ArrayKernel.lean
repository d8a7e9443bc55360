import MiniRtos.CheckedArray
import MiniRtos.ReadyArray
import MiniRtos.System

/-!
# The scheduler on its arrays

`scheduler.c`, the sleep loop of `timer.c` and the task functions of `rtos.c` once more,
now with `task_list[RTOS_MAX_TASKS]` and `ready_queue[RTOS_MAX_TASKS]` as arrays. Every
access is checked: an index outside an array leaves a function without a result, as it
leaves C without a meaning. Apart from that each function is the source's own, loop by
loop; a `return` out of a loop ends its scan.
-/
namespace MiniRtos
open CheckedArray

structure ArrayKernel (cfg : Config) where
  taskList : ℕ → TCB
  taskCount : ℕ
  currentTaskIndex : ℤ
  ready : ReadyArray

namespace ArrayKernel
variable {cfg : Config} (k : ArrayKernel cfg)

section Accesses

def task (i : ℤ) : Option TCB := load cfg.rtosMaxTasks k.taskList i

def setTask (i : ℤ) (t : TCB) : Option (ArrayKernel cfg) :=
  (store cfg.rtosMaxTasks k.taskList i t).map fun l => { k with taskList := l }

/-- `task_list[i]` is read and written back. -/
def modifyTask (i : ℤ) (f : TCB → TCB) : Option (ArrayKernel cfg) :=
  (k.task i).bind fun t => k.setTask i (f t)

def slot (i : ℤ) : Option ℕ := load cfg.rtosMaxTasks k.ready.readyQueue i

def setSlot (i : ℤ) (taskIndex : ℕ) : Option (ArrayKernel cfg) :=
  (store cfg.rtosMaxTasks k.ready.readyQueue i taskIndex).map fun q =>
    { k with ready := { k.ready with readyQueue := q } }

def setReadyCount (n : ℕ) : ArrayKernel cfg := { k with ready := { k.ready with readyCount := n } }

end Accesses

section ReadyQueue

/-- The first position of a task in the queue. -/
def readyQueueFind (taskIndex : ℕ) : Option (Option ℕ) :=
  scan (fun i => (k.slot i).map fun x => decide (x = taskIndex)) k.ready.readyCount 0

def readyQueueContains (taskIndex : ℕ) : Option Bool :=
  (k.readyQueueFind taskIndex).map Option.isSome

/-- One pass of the loop that moves the entries behind a removed one up. -/
def shiftPass (j : ℕ) (k : ArrayKernel cfg) : Option (ArrayKernel cfg) :=
  (k.slot (j + 1 : ℕ)).bind fun x => k.setSlot j x

def readyQueueRemove (taskIndex : ℕ) : Option (ArrayKernel cfg) :=
  (k.readyQueueFind taskIndex).bind fun
    | none => some k
    | some i =>
        (forLoop shiftPass (k.ready.readyCount - 1 - i) i k).map fun k =>
          k.setReadyCount (k.ready.readyCount - 1)

def readyQueueEnqueue (taskIndex : ℤ) : Option (ArrayKernel cfg) :=
  if taskIndex < 0 ∨ (k.taskCount : ℤ) ≤ taskIndex then some k
  else (k.task taskIndex).bind fun t =>
    if t.state ≠ .ready then some k
    else if cfg.rtosMaxTasks ≤ k.ready.readyCount then some k
    else (k.readyQueueContains taskIndex.toNat).bind fun contained =>
      if contained then some k
      else (k.setSlot k.ready.readyCount taskIndex.toNat).map fun k =>
        k.setReadyCount (k.ready.readyCount + 1)

/-- The entry at `i` is compared with the one at `best_queue_pos`. -/
def isBetter (t : TCB) (bestQueuePos : ℤ) : Option Bool :=
  if bestQueuePos < 0 then some true
  else (k.slot bestQueuePos).bind fun best =>
    (k.task best).map fun b => decide (b.priority < t.priority)

/-- The loop of `ready_queue_peek_highest_priority`; every pass removes an entry or steps on. -/
def peekLoop : ℕ → ArrayKernel cfg → ℕ → ℤ → Option (ArrayKernel cfg × ℤ)
  | 0, k, _, bestQueuePos => some (k, bestQueuePos)
  | passes + 1, k, i, bestQueuePos =>
      if k.ready.readyCount ≤ i then some (k, bestQueuePos)
      else (k.slot i).bind fun taskIndex => (k.task taskIndex).bind fun t =>
        if t.state ≠ .ready then
          (k.readyQueueRemove taskIndex).bind fun k => peekLoop passes k i bestQueuePos
        else (k.isBetter t bestQueuePos).bind fun better =>
          peekLoop passes k (i + 1) (if better then i else bestQueuePos)

/-- The returned index and what is left of the queue. -/
def readyQueuePeekHighestPriority : Option (ℤ × ArrayKernel cfg) :=
  (peekLoop k.ready.readyCount k 0 (-1)).bind fun r =>
    if r.2 < 0 then some (-1, r.1)
    else (r.1.slot r.2).map fun best => ((best : ℤ), r.1)

end ReadyQueue

section States

def schedulerInit : ArrayKernel cfg :=
  { k with taskCount := 0, currentTaskIndex := -1, ready := { k.ready with readyCount := 0 } }

def schedulerSetTaskState (taskIndex : ℤ) (state : TaskState) (reason : BlockReason) :
    Option (ArrayKernel cfg) :=
  if taskIndex < 0 ∨ (k.taskCount : ℤ) ≤ taskIndex then some k
  else (k.readyQueueRemove taskIndex.toNat).bind fun k =>
    (k.modifyTask taskIndex fun t => { t with state := state, blockReason := reason }).bind fun k =>
      if state = .ready then
        (k.modifyTask taskIndex fun t => { t with sleepTicks := 0, blockReason := .none }).bind
          fun k => k.readyQueueEnqueue taskIndex
      else some k

def schedulerSetCurrentTaskState (state : TaskState) (reason : BlockReason) :
    Option (ArrayKernel cfg) :=
  k.schedulerSetTaskState k.currentTaskIndex state reason

/-- One pass of the scan of `scheduler_unblock_one`. -/
def unblockPass (reason : BlockReason) (i : ℕ) (best : Option ℕ) : Option (Option ℕ) :=
  (k.task i).bind fun t =>
    if t.state ≠ .blocked ∨ t.blockReason ≠ reason then some best
    else
      match best with
      | none => some (some i)
      | some b => (k.task b).map fun tb => if tb.priority < t.priority then some i else some b

def schedulerUnblockOne (reason : BlockReason) : Option (ArrayKernel cfg) :=
  (forLoop (k.unblockPass reason) k.taskCount 0 none).bind fun
    | none => some k
    | some best => k.schedulerSetTaskState best .ready .none

def rtosCurrentTask : Option ℕ :=
  if k.currentTaskIndex < 0 ∨ (k.taskCount : ℤ) ≤ k.currentTaskIndex then none
  else some k.currentTaskIndex.toNat

/-- One pass of the sleep loop of `timer_update_sleep`. -/
def updateSleepTask (i : ℕ) (k : ArrayKernel cfg) : Option (ArrayKernel cfg) :=
  (k.task i).bind fun t =>
    if t.state ≠ .blocked ∨ t.blockReason ≠ .sleep then some k
    else (k.setTask i { t with sleepTicks := t.sleepTicks - 1 }).bind fun k =>
      if t.sleepTicks - 1 ≤ 0 then k.schedulerSetTaskState i .ready .none else some k

def timerUpdateSleep : Option (ArrayKernel cfg) := forLoop updateSleepTask k.taskCount 0 k

end States

section Tasks

def taskIndexFromId (taskId : ℤ) : Option (Option ℕ) :=
  scan (fun i => (k.task i).map fun t => decide (t.taskId = taskId)) k.taskCount 0

/-- One pass of the loop of `init_task_stack`. -/
def clearStackWord (cfg : Config) (i : ℕ) (stack : ℕ → BitVec 64) : Option (ℕ → BitVec 64) :=
  store (Sched.rtosStackWords cfg) stack i 0#64

def initTaskStack (cfg : Config) (t : TCB) : Option TCB :=
  (forLoop (clearStackWord cfg) (Sched.rtosStackWords cfg) 0 t.stackMemory).map fun stack =>
    { t with
      stackMemory := stack
      stackSize := Sched.rtosStackWords cfg * 8
      stackPointer := Sched.rtosStackWords cfg }

def rtosCreateTask (priority : ℤ) (taskFunction : BitVec 64) : Option (ℤ × ArrayKernel cfg) :=
  if cfg.rtosMaxTasks ≤ k.taskCount then some (-1, k)
  else
    let i := k.taskCount
    (k.task i).bind fun t => (initTaskStack cfg t).bind fun t =>
      (k.setTask i
        { t with
          taskId := i + 1
          priority := priority
          state := .suspended
          blockReason := .none
          sleepTicks := 0
          sliceTicksUsed := 0#32
          context := contextInit taskFunction
          taskFunction := taskFunction }).bind fun k =>
        let k := { k with taskCount := i + 1 }
        (k.schedulerSetTaskState i .ready .none).bind fun k =>
          (k.task i).map fun t => (t.taskId, k)

def rtosTaskSleep (ticks : ℤ) : Option (ArrayKernel cfg) :=
  match k.rtosCurrentTask with
  | none => some k
  | some task =>
      (k.modifyTask task fun t => { t with sleepTicks := ticks }).bind fun k =>
        k.schedulerSetCurrentTaskState .blocked .sleep

def rtosSuspendTask (taskId : ℤ) : Option (Bool × ArrayKernel cfg) :=
  (k.taskIndexFromId taskId).bind fun
    | none => some (false, k)
    | some i => (k.schedulerSetTaskState i .suspended .none).map fun k => (true, k)

def rtosResumeTask (taskId : ℤ) : Option (Bool × ArrayKernel cfg) :=
  (k.taskIndexFromId taskId).bind fun
    | none => some (false, k)
    | some i => (k.task i).bind fun t =>
        if t.state ≠ .suspended then some (false, k)
        else (k.schedulerSetTaskState i .ready .none).map fun k => (true, k)

/-- What `f` reads of the task with an identifier; `d` if there is none. -/
def lookup {α : Type*} (taskId : ℤ) (d : α) (f : ℕ → TCB → α) : Option α :=
  (k.taskIndexFromId taskId).bind fun
    | none => some d
    | some i => (k.task i).map (f i)

def exec : TaskCall → Option (Value × ArrayKernel cfg)
  | .create priority taskFunction =>
      (k.rtosCreateTask priority taskFunction).map fun r => (.int r.1, r.2)
  | .sleep ticks => (k.rtosTaskSleep ticks).map fun k => (.void, k)
  | .suspend taskId => (k.rtosSuspendTask taskId).map fun r => (.bool r.1, r.2)
  | .resume taskId => (k.rtosResumeTask taskId).map fun r => (.bool r.1, r.2)
  | .getTaskState taskId =>
      (k.lookup taskId .suspended fun _ t => t.state).map fun x => (.state x, k)
  | .readyCount => some (.count k.ready.readyCount, k)
  | .getTaskStackBase taskId => (k.lookup taskId none fun i _ => some i).map fun x => (.index x, k)
  | .getTaskStackPointer taskId =>
      (k.lookup taskId none fun i t => some (i, t.stackPointer)).map fun x => (.stackPointer x, k)
  | .getTaskStackSize taskId =>
      (k.lookup taskId 0 fun _ t => t.stackSize).map fun x => (.count x, k)
  | .currentTask => some (.index k.rtosCurrentTask, k)

end Tasks

section Decision

/-- `context_switch` on the two control blocks. -/
def contextSwitch (active : CPUContext) (outgoing incoming : ℕ) :
    Option (ArrayKernel cfg × CPUContext) :=
  (k.modifyTask outgoing fun t => { t with context := active }).bind fun k =>
    (k.task incoming).map fun t => (k, t.context)

/-- Phases 1 and 2 of a switch; on the first one there is no context to save. -/
def switchContexts (active : CPUContext) (outgoing : Option ℕ) (incoming : ℕ) :
    Option (ArrayKernel cfg × CPUContext) :=
  match outgoing with
  | some out => k.contextSwitch active out incoming
  | none => (k.task incoming).map fun t => (k, t.context)

def doContextSwitch (active : CPUContext) (outgoing : Option ℕ) (incoming : ℕ) :
    Option (ArrayKernel cfg × CPUContext) :=
  (k.switchContexts active outgoing incoming).bind fun r =>
    let k := { r.1 with currentTaskIndex := incoming }
    (k.modifyTask incoming fun t => { t with sliceTicksUsed := 1#32 }).bind fun k =>
      (k.schedulerSetTaskState incoming .running .none).map fun k => (k, r.2)

def requeueOutgoing (outgoing : ℕ) : Option (ArrayKernel cfg) :=
  (k.task outgoing).bind fun t =>
    if t.state = .running then k.schedulerSetTaskState outgoing .ready .none else some k

/-- `ready_queue_pop` and `do_context_switch`. -/
def switchTo (active : CPUContext) (b : Sched.Branch) (outgoing : Option ℕ) (best : ℕ) :
    Option (Option (Sched.Branch × ℕ) × ArrayKernel cfg × CPUContext) :=
  (k.readyQueueRemove best).bind fun k =>
    (k.doContextSwitch active outgoing best).map fun r => (some (b, best), r)

/-- The rest of the cycle when there is a current task and a READY task. -/
def decideBetween (active : CPUContext) (c best : ℕ) :
    Option (Option (Sched.Branch × ℕ) × ArrayKernel cfg × CPUContext) :=
  (k.task best).bind fun tb => (k.task c).bind fun tc =>
    if tc.state ≠ .running ∧ tc.state ≠ .ready then k.switchTo active .forced (some c) best
    else if tc.priority < tb.priority then
      (k.requeueOutgoing c).bind fun k => k.switchTo active .preempted (some c) best
    else if tb.priority = tc.priority ∧ cfg.rtosTimeSliceTicks ≤ tc.sliceTicksUsed.toNat ∧
        best ≠ c then
      (k.requeueOutgoing c).bind fun k => k.switchTo active .sliceExpired (some c) best
    else
      (k.setTask c { tc with sliceTicksUsed := tc.sliceTicksUsed + 1#32 }).bind fun k =>
        (k.schedulerSetTaskState c .running .none).map fun k => (some (.continued, c), k, active)

def schedulerRunDecide (active : CPUContext) :
    Option (Option (Sched.Branch × ℕ) × ArrayKernel cfg × CPUContext) :=
  let cur := k.rtosCurrentTask
  k.readyQueuePeekHighestPriority.bind fun r =>
    if r.1 < 0 then
      match cur with
      | none => some (none, r.2, active)
      | some c => (r.2.modifyTask c fun t => { t with sliceTicksUsed := 0#32 }).map fun k =>
          (none, k, active)
    else
      match cur with
      | none => r.2.switchTo active .firstTick none r.1.toNat
      | some c => r.2.decideBetween active c r.1.toNat

def taskReturned (taskIndex : ℕ) : Option (ArrayKernel cfg) :=
  (k.task taskIndex).bind fun t =>
    if t.state = .running then k.schedulerSetTaskState taskIndex .ready .none else some k

end Decision

end ArrayKernel

end MiniRtos
