import MiniRtos.ReadyQueue
import MiniRtos.System

/-!
# Effects on the scheduler

Every call of the kernel, whoever makes it, acts on the task table and the ready queue
in one of eight ways. `Machine.effect` reads the way off the state before the call.
-/
namespace MiniRtos
variable {cfg : Config}

inductive Effect where
  | none
  | create (priority : ℤ) (taskFunction : BitVec 64)
  | sleep (ticks : ℤ)
  | park (reason : BlockReason) (h : reason ≠ .none)
  | suspend (i : ℕ)
  | resume (i : ℕ)
  | unblock (reason : BlockReason)
  | wake (tasks : List ℤ)

namespace Effect

def apply (s : Sched cfg) : Effect → Sched cfg
  | .none => s
  | .create priority taskFunction => (s.rtosCreateTask priority taskFunction).2
  | .sleep ticks => s.rtosTaskSleep ticks
  | .park reason _ => s.schedulerSetCurrentTaskState .blocked reason
  | .suspend i => s.schedulerSetTaskState i .suspended .none
  | .resume i => s.schedulerSetTaskState i .ready .none
  | .unblock reason => s.schedulerUnblockOne reason
  | .wake tasks => tasks.foldl (fun s i => s.schedulerSetTaskState i .ready .none) s

/-- The tasks an effect can change, with the status it gives them. -/
inductive Changes (s : Sched cfg) (i : ℕ) : Effect → TaskState × BlockReason → Prop
  | create {p : ℤ} {f : BitVec 64} : i = s.taskCount →
      Changes s i (.create p f) (.ready, .none)
  | sleep {n : ℤ} : s.rtosCurrentTask = some i → Changes s i (.sleep n) (.blocked, .sleep)
  | park {r : BlockReason} {h : r ≠ .none} : s.rtosCurrentTask = some i →
      Changes s i (.park r h) (.blocked, r)
  | suspend : Changes s i (.suspend i) (.suspended, .none)
  | resume : Changes s i (.resume i) (.ready, .none)
  | unblock {r : BlockReason} : (s.blockedOn r).argmax s.prio = some i →
      Changes s i (.unblock r) (.ready, .none)
  | wake {ts : List ℤ} : (i : ℤ) ∈ ts → Changes s i (.wake ts) (.ready, .none)

theorem Changes.not_running {s : Sched cfg} {i : ℕ} {e : Effect}
    {st : TaskState × BlockReason} (h : e.Changes s i st) : st.1 ≠ .running := by
  cases h <;> simp

end Effect

namespace EventFlags

/-- The entries `event_flags_set` selects, in the order of its scan: each is satisfied
by what the entries above it have left of the flags. -/
def selected : ℕ → BitVec 32 → (ℕ → EventWaiter) → List EventWaiter
  | 0, _, _ => []
  | i + 1, flags, waiters =>
      if satisfied flags (waiters i).requiredMask then
        waiters i :: selected i (flags &&& ~~~(waiters i).requiredMask) waiters
      else selected i flags waiters

theorem selected_congr {n : ℕ} {flags : BitVec 32} {v w : ℕ → EventWaiter}
    (h : ∀ i < n, v i = w i) : selected n flags v = selected n flags w := by
  induction n generalizing flags with
  | zero => rfl
  | succ n ih =>
      simp only [selected, h n (by omega)]
      rw [ih fun i hi => h i (by omega), ih fun i hi => h i (by omega)]

@[simp] theorem removeWaiter_flags (ef : EventFlags) (i : ℕ) :
    (ef.removeWaiter i).flags = ef.flags := rfl

theorem removeWaiter_below (ef : EventFlags) {i j : ℕ} (hi : i < ef.waiterCount) (hj : j < i) :
    (ef.removeWaiter i).waiters j = ef.waiters j := by
  simp only [removeWaiter]
  rw [Function.update_of_ne (by omega), Function.update_of_ne (by omega)]

/-- Compaction only moves entries above the index of the scan, so the scan sees the
table as it was when `event_flags_set` was called. -/
theorem eventFlagsSetLoop_sched (n : ℕ) (ef : EventFlags) (s : Sched cfg)
    (hn : n ≤ ef.waiterCount) :
    (eventFlagsSetLoop n ef s).2 =
      Effect.apply s (.wake ((selected n ef.flags ef.waiters).map (·.taskIndex))) := by
  induction n generalizing ef s with
  | zero => rfl
  | succ n ih =>
      simp only [eventFlagsSetLoop, selected]
      by_cases hs : satisfied ef.flags (ef.waiters n).requiredMask
      · simp only [hs, Bool.not_true, Bool.false_eq_true, if_false, if_true]
        rw [ih]
        · simp only [removeWaiter_flags, Effect.apply, List.map_cons, List.foldl_cons]
          congr 2
          exact selected_congr fun j hj =>
            removeWaiter_below { ef with flags := _ } (Nat.lt_of_succ_le hn) hj
        · simp only [removeWaiter]
          omega
      · simp only [hs, Bool.not_false, if_true]
        exact ih ef s (by omega)

end EventFlags

/-- The current task's identifier is the owner of the mutex. -/
def Sched.ownsMutex (s : Sched cfg) (mutex : Mutex) : Bool :=
  s.rtosCurrentTask.any fun t => mutex.owner = (s.taskList t).taskId

def TaskCall.effect (s : Sched cfg) : TaskCall → Effect
  | .create priority taskFunction => .create priority taskFunction
  | .sleep ticks => .sleep ticks
  | .suspend taskId =>
      match s.taskIndexFromId taskId with
      | none => .none
      | some i => .suspend i
  | .resume taskId =>
      match s.taskIndexFromId taskId with
      | none => .none
      | some i => if (s.taskList i).state = .suspended then .resume i else .none
  | _ => .none

def SyncCall.effect (s : Sched cfg) (o : Objects) : SyncCall → Effect
  | .semWait i => if 0 < (o.semaphores i).count then .none else .park .semaphore (by decide)
  | .semSignal _ => .unblock .semaphore
  | .mutexLock i =>
      if !(o.mutexes i).locked || s.ownsMutex (o.mutexes i) then .none
      else .park .mutex (by decide)
  | .mutexUnlock i =>
      if (o.mutexes i).locked && s.ownsMutex (o.mutexes i) then .unblock .mutex else .none
  | .queueSend i _ =>
      if (o.queues i).count = cfg.rtosQueueSize then .park .queueFull (by decide)
      else .unblock .queueEmpty
  | .queueReceive i =>
      if (o.queues i).count = 0 then .park .queueEmpty (by decide) else .unblock .queueFull
  | _ => .none

def EventCall.effect (cfg : Config) (o : Objects) : EventCall → Effect
  | .set (some i) mask =>
      if mask = 0#32 then .none
      else
        .wake ((EventFlags.selected (o.eventFlags i).waiterCount ((o.eventFlags i).flags ||| mask)
          (o.eventFlags i).waiters).map (·.taskIndex))
  | .wait (some i) mask =>
      if mask = 0#32 ∨ EventFlags.satisfied (o.eventFlags i).flags mask ∨
          cfg.rtosEventMaxWaiters ≤ (o.eventFlags i).waiterCount then .none
      else .park .event (by decide)
  | _ => .none

def Machine.effect (m : Machine cfg) : Call cfg → Effect
  | .task c => c.effect m.sched
  | .sync c => c.effect m.sched m.objects
  | .event c => c.effect cfg m.objects
  | _ => .none

end MiniRtos
