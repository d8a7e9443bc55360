import MiniRtos.TaskControl
import Mathlib.Data.List.MinMax

/-!
# The ready queue and the scheduling decision

`scheduler.c`, one definition for each of its functions. The loop of
`scheduler_run` calls task functions, which call the kernel back; it is cut at
those calls. `schedulerRunDecide` is the body of one cycle from the moment
`timer_update_sleep` has returned up to the call of a task function, and
`taskReturned` is what the kernel does when that function returns.

An index parameter is an `int` wherever the source tests its range. A `-1` result
that only says "no such task" is `none`.
-/
namespace MiniRtos.Sched
variable {cfg : Config}

def readyQueueContains (s : Sched cfg) (taskIndex : ℕ) : Bool :=
  s.readyQueue.contains taskIndex

/-- The shifting loops delete the first occurrence and keep the order of the rest. -/
def readyQueueRemove (s : Sched cfg) (taskIndex : ℕ) : Sched cfg :=
  { s with readyQueue := s.readyQueue.erase taskIndex }

def readyQueueEnqueue (s : Sched cfg) (taskIndex : ℤ) : Sched cfg :=
  if taskIndex < 0 ∨ (s.taskCount : ℤ) ≤ taskIndex then s
  else if (s.taskList taskIndex.toNat).state ≠ .ready then s
  else if cfg.rtosMaxTasks ≤ s.readyQueue.length ∨ s.readyQueueContains taskIndex.toNat then s
  else { s with readyQueue := s.readyQueue ++ [taskIndex.toNat] }

/-- The loop of `ready_queue_peek_highest_priority` on the queue, the index `i` and
`best_queue_pos`. Deleting an entry steps the index back, so every pass brings `i`
one closer to the end and `ready_count` passes are enough. -/
def peekLoop (s : Sched cfg) : ℕ → List ℕ → ℕ → Option ℕ → List ℕ × Option ℕ
  | 0, queue, _, best => (queue, best)
  | passes + 1, queue, i, best =>
      match queue[i]? with
      | none => (queue, best)
      | some taskIndex =>
          if (s.taskList taskIndex).state ≠ .ready then
            s.peekLoop passes (queue.erase taskIndex) i best
          else if best.all fun pos =>
              (s.taskList (queue.getD pos 0)).priority < (s.taskList taskIndex).priority then
            s.peekLoop passes queue (i + 1) (some i)
          else s.peekLoop passes queue (i + 1) best

def readyQueuePeekHighestPriority (s : Sched cfg) : Option ℕ × Sched cfg :=
  let r := s.peekLoop s.readyQueue.length s.readyQueue 0 none
  (r.2.map fun pos => r.1.getD pos 0, { s with readyQueue := r.1 })

def readyQueuePop (s : Sched cfg) (taskIndex : ℕ) : Sched cfg :=
  s.readyQueueRemove taskIndex

def schedulerSetTaskState (s : Sched cfg) (taskIndex : ℤ) (state : TaskState)
    (reason : BlockReason) : Sched cfg :=
  if taskIndex < 0 ∨ (s.taskCount : ℤ) ≤ taskIndex then s
  else
    let i := taskIndex.toNat
    let s := s.readyQueueRemove i
    let s := s.modifyTask i fun t => { t with state := state, blockReason := reason }
    if state = .ready then
      (s.modifyTask i fun t => { t with sleepTicks := 0, blockReason := .none }).readyQueueEnqueue i
    else s

def schedulerSetCurrentTaskState (s : Sched cfg) (state : TaskState)
    (reason : BlockReason) : Sched cfg :=
  s.schedulerSetTaskState s.currentTaskIndex state reason

/-- The scan of `scheduler_unblock_one` for its `best_index`. -/
def unblockScan (s : Sched cfg) (reason : BlockReason) : Option ℕ :=
  (List.range s.taskCount).foldl (fun best i =>
    if (s.taskList i).state ≠ .blocked ∨ (s.taskList i).blockReason ≠ reason then best
    else if best.all fun b => (s.taskList b).priority < (s.taskList i).priority then some i
    else best) none

def schedulerUnblockOne (s : Sched cfg) (reason : BlockReason) : Sched cfg :=
  match s.unblockScan reason with
  | none => s
  | some best => s.schedulerSetTaskState best .ready .none

def schedulerReadyCount (s : Sched cfg) : ℕ := s.readyQueue.length

def schedulerCurrentTaskIndex (s : Sched cfg) : ℤ := s.currentTaskIndex

/-- `rtos_current_task`, with the pointer as the index of the block it points to.
`scheduler_run` finds its `cur_idx` by the same test. -/
def rtosCurrentTask (s : Sched cfg) : Option ℕ :=
  if s.currentTaskIndex < 0 ∨ (s.taskCount : ℤ) ≤ s.currentTaskIndex then none
  else some s.currentTaskIndex.toNat

/-- Phase 1 stores the live registers with the outgoing task, phase 2 loads those of
the incoming one, in that order also when the two are the same task. -/
def contextSwitch (s : Sched cfg) (active : CPUContext) (outgoing incoming : ℕ) :
    Sched cfg × CPUContext :=
  let s := s.modifyTask outgoing fun t => { t with context := active }
  (s, (s.taskList incoming).context)

/-- `do_context_switch` up to its call of the incoming task's function. -/
def doContextSwitch (s : Sched cfg) (active : CPUContext) (outgoing : Option ℕ)
    (incoming : ℕ) : Sched cfg × CPUContext :=
  let (s, active) := match outgoing with
    | some out => s.contextSwitch active out incoming
    | none => (s, (s.taskList incoming).context)
  let s := { s with currentTaskIndex := incoming }
  let s := s.modifyTask incoming fun t => { t with sliceTicksUsed := 1#32 }
  (s.schedulerSetTaskState incoming .running .none, active)

/-- Which case of the decision runs a task. -/
inductive Branch where
  | firstTick | forced | preempted | sliceExpired | continued
deriving DecidableEq, Repr

/-- A preempted task that is still marked running goes back to the queue first. -/
def requeueOutgoing (s : Sched cfg) (outgoing : ℕ) : Sched cfg :=
  if (s.taskList outgoing).state = .running then
    s.schedulerSetTaskState outgoing .ready .none
  else s

/-- The decision of one cycle: the branch and the task whose function is called now,
or `none` when the cycle is idle, with the scheduler data and the register file at
that moment. -/
def schedulerRunDecide (s : Sched cfg) (active : CPUContext) :
    Option (Branch × ℕ) × Sched cfg × CPUContext :=
  let cur := s.rtosCurrentTask
  match s.readyQueuePeekHighestPriority with
  | (none, s) =>
      match cur with
      | none => (none, s, active)
      | some c => (none, s.modifyTask c fun t => { t with sliceTicksUsed := 0#32 }, active)
  | (some best, s) =>
      match cur with
      | none =>
          (some (.firstTick, best), (s.readyQueuePop best).doContextSwitch active none best)
      | some c =>
          let bestPrio := (s.taskList best).priority
          let curPrio := (s.taskList c).priority
          if (s.taskList c).state ≠ .running ∧ (s.taskList c).state ≠ .ready then
            (some (.forced, best), (s.readyQueuePop best).doContextSwitch active (some c) best)
          else if curPrio < bestPrio then
            (some (.preempted, best),
              ((s.requeueOutgoing c).readyQueuePop best).doContextSwitch active (some c) best)
          else if bestPrio = curPrio ∧
              cfg.rtosTimeSliceTicks ≤ (s.taskList c).sliceTicksUsed.toNat ∧ best ≠ c then
            (some (.sliceExpired, best),
              ((s.requeueOutgoing c).readyQueuePop best).doContextSwitch active (some c) best)
          else
            let s := s.modifyTask c fun t => { t with sliceTicksUsed := t.sliceTicksUsed + 1#32 }
            (some (.continued, c), s.schedulerSetTaskState c .running .none, active)

/-- The last lines of `do_context_switch` and of case E, after the task function. -/
def taskReturned (s : Sched cfg) (taskIndex : ℕ) : Sched cfg :=
  if (s.taskList taskIndex).state = .running then
    s.schedulerSetTaskState taskIndex .ready .none
  else s

end MiniRtos.Sched
