import MiniRtos.Scheduler
import Mathlib.Data.Fintype.Basic

/-!
# Kernel tick, sleep countdown and software timers

`timer.c`. A handle is a pointer into the static pool or `NULL`, so an index of the
pool or `none`. The loop of `timer_update_soft` calls callbacks, which may create,
start, stop and delete any slot; its body is cut at that call into
`timerUpdateSoftSlot` and `timerCallbackReturned`. A timer's name is read by log
messages only and is left out.
-/
namespace MiniRtos

inductive TimerMode where
  | oneShot | periodic
deriving DecidableEq, Repr

structure SoftTimer where
  mode : TimerMode
  periodTicks : BitVec 32
  remaining : BitVec 32
  callback : BitVec 64
  arg : BitVec 64
  active : Bool
  inUse : Bool
deriving DecidableEq, Repr

/-- A slot as `memset` leaves it. -/
def SoftTimer.zero : SoftTimer := ⟨.oneShot, 0#32, 0#32, 0#64, 0#64, false, false⟩

structure TimerState (cfg : Config) where
  kernelTick : BitVec 32
  softTimers : Fin cfg.rtosSoftTimerCount → SoftTimer

variable {cfg : Config}

namespace TimerState

def modifySlot (t : TimerState cfg) (i : Fin cfg.rtosSoftTimerCount)
    (f : SoftTimer → SoftTimer) : TimerState cfg :=
  { t with softTimers := Function.update t.softTimers i (f (t.softTimers i)) }

def timerInit : TimerState cfg := ⟨0#32, fun _ => .zero⟩

def timerTick (t : TimerState cfg) : TimerState cfg :=
  { t with kernelTick := t.kernelTick + 1#32 }

def timerNow (t : TimerState cfg) : BitVec 32 := t.kernelTick

/-- One pass of the loop of `timer_update_soft` up to the call of the callback; the
flag says whether the callback is called. -/
def timerUpdateSoftSlot (t : TimerState cfg) (i : Fin cfg.rtosSoftTimerCount) :
    Bool × TimerState cfg :=
  if !(t.softTimers i).inUse || !(t.softTimers i).active then (false, t)
  else
    let t := if 0#32 < (t.softTimers i).remaining then
        t.modifySlot i fun x => { x with remaining := x.remaining - 1#32 }
      else t
    (decide ((t.softTimers i).remaining = 0#32), t)

/-- The rest of the pass, which tests the mode the slot has by now. -/
def timerCallbackReturned (t : TimerState cfg) (i : Fin cfg.rtosSoftTimerCount) :
    TimerState cfg :=
  if (t.softTimers i).mode = .periodic then
    t.modifySlot i fun x => { x with remaining := x.periodTicks }
  else t.modifySlot i fun x => { x with active := false }

def timerSoftCreate (t : TimerState cfg) (mode : TimerMode) (periodTicks : BitVec 32)
    (callback arg : BitVec 64) : Option (Fin cfg.rtosSoftTimerCount) × TimerState cfg :=
  if callback = 0#64 then (none, t)
  else if periodTicks = 0#32 then (none, t)
  else
    match (List.finRange cfg.rtosSoftTimerCount).find? fun i => !(t.softTimers i).inUse with
    | none => (none, t)
    | some i =>
        (some i, t.modifySlot i fun _ =>
          { mode := mode
            periodTicks := periodTicks
            remaining := periodTicks
            callback := callback
            arg := arg
            active := false
            inUse := true })

/-- The shape `start`, `stop` and `delete` share: a handle that is `NULL` or whose slot
is not in use is ignored. -/
def onSlotInUse (t : TimerState cfg) (timer : Option (Fin cfg.rtosSoftTimerCount))
    (f : SoftTimer → SoftTimer) : TimerState cfg :=
  match timer with
  | none => t
  | some i => if (t.softTimers i).inUse then t.modifySlot i f else t

def timerSoftStart (t : TimerState cfg) (timer : Option (Fin cfg.rtosSoftTimerCount)) :
    TimerState cfg :=
  t.onSlotInUse timer fun x => { x with remaining := x.periodTicks, active := true }

def timerSoftStop (t : TimerState cfg) (timer : Option (Fin cfg.rtosSoftTimerCount)) :
    TimerState cfg :=
  t.onSlotInUse timer fun x => { x with active := false }

def timerSoftDelete (t : TimerState cfg) (timer : Option (Fin cfg.rtosSoftTimerCount)) :
    TimerState cfg :=
  t.onSlotInUse timer fun x => { x with active := false, inUse := false }

end TimerState

namespace Sched

/-- One pass of the sleep loop of `timer_update_sleep`. -/
def updateSleepTask (s : Sched cfg) (i : ℕ) : Sched cfg :=
  if (s.taskList i).state ≠ .blocked ∨ (s.taskList i).blockReason ≠ .sleep then s
  else
    let s := s.modifyTask i fun t => { t with sleepTicks := t.sleepTicks - 1 }
    if (s.taskList i).sleepTicks ≤ 0 then s.schedulerSetTaskState i .ready .none else s

/-- `timer_update_sleep` up to its call of `timer_update_soft`. -/
def timerUpdateSleep (s : Sched cfg) : Sched cfg :=
  (List.range s.taskCount).foldl updateSleepTask s

end Sched

end MiniRtos
