import MiniRtos.Rtos

/-!
# Event flags

`event.c`. The waiter table is an array whose slots below `waiter_count` are live and
whose other slots hold `(-1, 0)`. `event_flags_set` walks the live slots downwards and
fills the slot it frees with the last one.
-/
namespace MiniRtos

structure EventWaiter where
  taskIndex : ℤ
  requiredMask : BitVec 32
deriving DecidableEq, Repr

structure EventFlags where
  flags : BitVec 32
  waiters : ℕ → EventWaiter
  waiterCount : ℕ

namespace EventFlags
variable {cfg : Config}

def noWaiter : EventWaiter := ⟨-1, 0#32⟩

def eventFlagsInit (cfg : Config) (ef : EventFlags) : EventFlags :=
  { flags := 0#32
    waiters := fun i => if i < cfg.rtosEventMaxWaiters then noWaiter else ef.waiters i
    waiterCount := 0 }

/-- Whether all bits of `mask` are set in `flags`. -/
def satisfied (flags mask : BitVec 32) : Bool := flags &&& mask = mask

/-- Replaces slot `i` by the last live slot and frees that one. -/
def removeWaiter (ef : EventFlags) (i : ℕ) : EventFlags :=
  let last := ef.waiterCount - 1
  { ef with
    waiters := Function.update (Function.update ef.waiters i (ef.waiters last)) last noWaiter
    waiterCount := last }

/-- The loop of `event_flags_set`; the argument is one more than its index `i`. -/
def eventFlagsSetLoop : ℕ → EventFlags → Sched cfg → EventFlags × Sched cfg
  | 0, ef, s => (ef, s)
  | i + 1, ef, s =>
      let w := ef.waiters i
      if !satisfied ef.flags w.requiredMask then eventFlagsSetLoop i ef s
      else
        let ef := { ef with flags := ef.flags &&& ~~~w.requiredMask }
        eventFlagsSetLoop i (ef.removeWaiter i)
          (s.schedulerSetTaskState w.taskIndex .ready .none)

def eventFlagsSet (ef : EventFlags) (s : Sched cfg) (mask : BitVec 32) :
    EventFlags × Sched cfg :=
  if mask = 0#32 then (ef, s)
  else
    let ef := { ef with flags := ef.flags ||| mask }
    eventFlagsSetLoop ef.waiterCount ef s

def eventFlagsClear (ef : EventFlags) (mask : BitVec 32) : EventFlags :=
  { ef with flags := ef.flags &&& ~~~mask }

def eventFlagsWait (ef : EventFlags) (s : Sched cfg) (mask : BitVec 32) :
    Bool × EventFlags × Sched cfg :=
  if mask = 0#32 then (false, ef, s)
  else if satisfied ef.flags mask then
    (true, { ef with flags := ef.flags &&& ~~~mask }, s)
  else if cfg.rtosEventMaxWaiters ≤ ef.waiterCount then (false, ef, s)
  else
    let slot : EventWaiter := ⟨s.schedulerCurrentTaskIndex, mask⟩
    (false,
      { ef with
        waiters := Function.update ef.waiters ef.waiterCount slot
        waiterCount := ef.waiterCount + 1 },
      s.schedulerSetCurrentTaskState .blocked .event)

def eventFlagsGet (ef : EventFlags) : BitVec 32 := ef.flags

end EventFlags

end MiniRtos
