import MiniRtos.CpuContext
import Mathlib.Logic.Function.Basic

/-!
# Task control blocks and the scheduler's static data

The task table of `rtos.c` and the ready queue of `scheduler.c`, which reads and
writes that table through the pointers it was given. `ready_queue[0..ready_count)`
is a list; nothing reads the slots past `ready_count`. The pointers are bound by
`rtos_init` before any call that a run contains, so their `NULL` guards are not
represented. A task's name is read by log messages only and is left out.
-/
namespace MiniRtos

inductive TaskState where
  | ready | running | blocked | suspended
deriving DecidableEq, Repr

inductive BlockReason where
  | none | sleep | semaphore | mutex | queueEmpty | queueFull | event
deriving DecidableEq, Repr

structure TCB where
  taskId : ℤ
  priority : ℤ
  state : TaskState
  blockReason : BlockReason
  sleepTicks : ℤ
  stackMemory : ℕ → BitVec 64
  stackSize : ℕ
  /-- Offset in words from the base of `stack_memory`. -/
  stackPointer : ℕ
  context : CPUContext
  taskFunction : BitVec 64
  sliceTicksUsed : BitVec 32

structure Sched (cfg : Config) where
  taskList : ℕ → TCB
  taskCount : ℕ
  currentTaskIndex : ℤ
  readyQueue : List ℕ

variable {cfg : Config}

namespace Sched

def modifyTask (s : Sched cfg) (i : ℕ) (f : TCB → TCB) : Sched cfg :=
  { s with taskList := Function.update s.taskList i (f (s.taskList i)) }

@[simp] theorem modifyTask_taskCount (s : Sched cfg) (i : ℕ) (f : TCB → TCB) :
    (s.modifyTask i f).taskCount = s.taskCount := rfl

@[simp] theorem modifyTask_currentTaskIndex (s : Sched cfg) (i : ℕ) (f : TCB → TCB) :
    (s.modifyTask i f).currentTaskIndex = s.currentTaskIndex := rfl

@[simp] theorem modifyTask_readyQueue (s : Sched cfg) (i : ℕ) (f : TCB → TCB) :
    (s.modifyTask i f).readyQueue = s.readyQueue := rfl

@[simp] theorem modifyTask_self (s : Sched cfg) (i : ℕ) (f : TCB → TCB) :
    (s.modifyTask i f).taskList i = f (s.taskList i) := by
  simp [modifyTask]

theorem modifyTask_of_ne (s : Sched cfg) {i j : ℕ} (f : TCB → TCB) (h : j ≠ i) :
    (s.modifyTask i f).taskList j = s.taskList j := by
  simp [modifyTask, h]

/-- A task together with why it waits, the two fields every wake path tests. -/
def status (s : Sched cfg) (i : ℕ) : TaskState × BlockReason :=
  ((s.taskList i).state, (s.taskList i).blockReason)

end Sched

end MiniRtos
