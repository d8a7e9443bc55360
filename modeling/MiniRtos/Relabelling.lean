import MiniRtos.ObjectsAlike
import MiniRtos.Symmetry

/-!
# What the kernel does not look at

Priorities are compared and never computed with, the values in a message queue are carried
and never read, and no decision depends on the kernel tick. A change of the priorities that
keeps their order, any change of the values and a shift of the clock therefore take every
run to a run with the same calls, the same dispatches and the same results.
-/
namespace MiniRtos
open TransitionSystem
variable {cfg : Config}

structure Relabelling where
  priority : ℤ → ℤ
  value : ℤ → ℤ
  clock : BitVec 32
  strictMono : StrictMono priority

variable (ρ : Relabelling)

section Relabelled

def TCB.relabel (t : TCB) : TCB := { t with priority := ρ.priority t.priority }

def Sched.relabel (s : Sched cfg) : Sched cfg :=
  { s with taskList := fun i => (s.taskList i).relabel ρ }

def TimerState.relabel (t : TimerState cfg) : TimerState cfg :=
  { t with kernelTick := t.kernelTick + ρ.clock }

def MessageQueue.relabel (queue : MessageQueue) : MessageQueue :=
  { queue with buffer := fun k => ρ.value (queue.buffer k) }

def Objects.relabel (o : Objects) : Objects :=
  { o with queues := fun i => (o.queues i).relabel ρ }

def Machine.relabel (m : Machine cfg) : Machine cfg :=
  { m with
    sched := m.sched.relabel ρ
    timer := m.timer.relabel ρ
    objects := m.objects.relabel ρ }

def System.relabel (s : System cfg) : System cfg := { s with machine := s.machine.relabel ρ }

def Call.relabel : Call cfg → Call cfg
  | .task (.create priority taskFunction) => .task (.create (ρ.priority priority) taskFunction)
  | .sync (.queueSend i value) => .sync (.queueSend i (ρ.value value))
  | c => c

/-- The result of call `c`. -/
def Value.relabel (c : Call cfg) : Value → Value
  | .received v => .received (v.map ρ.value)
  | .word w => if c = .timer .now then .word (w + ρ.clock) else .word w
  | v => v

def Action.relabel : Action cfg → Action cfg
  | .call c => .call (c.relabel ρ)
  | a => a

def Observation.relabel : Action cfg → Observation cfg → Observation cfg
  | .call c, .returned v => .returned (v.relabel ρ c)
  | _, o => o

end Relabelled

namespace TCB
variable (t : TCB)

@[simp] theorem relabel_state : (t.relabel ρ).state = t.state := rfl

@[simp] theorem relabel_taskId : (t.relabel ρ).taskId = t.taskId := rfl

@[simp] theorem relabel_sliceTicksUsed : (t.relabel ρ).sliceTicksUsed = t.sliceTicksUsed := rfl

@[simp] theorem relabel_priority : (t.relabel ρ).priority = ρ.priority t.priority := rfl

end TCB

namespace Sched
variable (s : Sched cfg)

@[simp] theorem relabel_taskCount : (s.relabel ρ).taskCount = s.taskCount := rfl

@[simp] theorem relabel_currentTaskIndex :
    (s.relabel ρ).currentTaskIndex = s.currentTaskIndex := rfl

@[simp] theorem relabel_readyQueue : (s.relabel ρ).readyQueue = s.readyQueue := rfl

@[simp] theorem relabel_taskList (i : ℕ) :
    (s.relabel ρ).taskList i = (s.taskList i).relabel ρ := rfl

@[simp] theorem relabel_status (i : ℕ) : (s.relabel ρ).status i = s.status i := rfl

@[simp] theorem relabel_rtosCurrentTask : (s.relabel ρ).rtosCurrentTask = s.rtosCurrentTask := rfl

@[simp] theorem relabel_taskIndexFromId (taskId : ℤ) :
    (s.relabel ρ).taskIndexFromId taskId = s.taskIndexFromId taskId := rfl

theorem relabel_modifyTask (i : ℕ) {f : TCB → TCB}
    (hf : ∀ t : TCB, f (t.relabel ρ) = (f t).relabel ρ) :
    (s.relabel ρ).modifyTask i f = (s.modifyTask i f).relabel ρ := by
  simp only [modifyTask, relabel, hf]
  congr 1
  funext j
  by_cases hj : j = i
  · subst hj
    simp
  · simp [hj]

theorem relabel_readyQueueEnqueue (i : ℤ) :
    (s.relabel ρ).readyQueueEnqueue i = (s.readyQueueEnqueue i).relabel ρ := by
  unfold readyQueueEnqueue
  simp only [apply_ite (relabel ρ)]
  rfl

theorem relabel_setTaskState (i : ℤ) (st : TaskState) (r : BlockReason) :
    (s.relabel ρ).schedulerSetTaskState i st r = (s.schedulerSetTaskState i st r).relabel ρ := by
  unfold schedulerSetTaskState
  simp only [apply_ite (relabel ρ)]
  rw [← relabel_readyQueueEnqueue, ← relabel_modifyTask, ← relabel_modifyTask]
  · rfl
  · exact fun _ => rfl
  · exact fun _ => rfl

theorem relabel_setCurrentTaskState (st : TaskState) (r : BlockReason) :
    (s.relabel ρ).schedulerSetCurrentTaskState st r =
      (s.schedulerSetCurrentTaskState st r).relabel ρ := s.relabel_setTaskState ρ _ st r

theorem relabel_argmax (l : List ℕ) : l.argmax (s.relabel ρ).prio = l.argmax s.prio :=
  QueueOrder.argmax_comp ρ.strictMono s.prio l

theorem relabel_peek :
    (s.relabel ρ).readyQueuePeekHighestPriority =
      (s.readyQueuePeekHighestPriority.1, s.readyQueuePeekHighestPriority.2.relabel ρ) := by
  rw [peek_eq, peek_eq, relabel_argmax]
  rfl

theorem relabel_unblockOne (r : BlockReason) :
    (s.relabel ρ).schedulerUnblockOne r = (s.schedulerUnblockOne r).relabel ρ := by
  have hblocked : (s.relabel ρ).blockedOn r = s.blockedOn r := rfl
  simp only [schedulerUnblockOne, unblockScan_eq, hblocked, relabel_argmax]
  cases (s.blockedOn r).argmax s.prio with
  | none => rfl
  | some best => exact s.relabel_setTaskState ρ _ _ _

theorem relabel_createTask (p : ℤ) (f : BitVec 64) :
    (s.relabel ρ).rtosCreateTask (ρ.priority p) f =
      ((s.rtosCreateTask p f).1, (s.rtosCreateTask p f).2.relabel ρ) := by
  have hadd : (s.relabel ρ).addTask (ρ.priority p) f = (s.addTask p f).relabel ρ := by
    simp only [addTask, modifyTask, relabel]
    congr 1
    funext j
    by_cases hj : j = s.taskCount
    · subst hj
      simp [initTaskStack, TCB.relabel]
    · simp [hj]
  have hsched : ((s.relabel ρ).rtosCreateTask (ρ.priority p) f).2 =
      (s.rtosCreateTask p f).2.relabel ρ := by
    rw [rtosCreateTask_sched, rtosCreateTask_sched, apply_ite (relabel ρ), hadd,
      ← relabel_setTaskState]
    rfl
  refine Prod.ext ?_ hsched
  simp only [rtosCreateTask_result, hsched, relabel_taskCount]
  rfl

theorem relabel_taskSleep (n : ℤ) :
    (s.relabel ρ).rtosTaskSleep n = (s.rtosTaskSleep n).relabel ρ := by
  unfold rtosTaskSleep
  rw [relabel_rtosCurrentTask]
  cases s.rtosCurrentTask with
  | none => rfl
  | some t =>
      simp only
      rw [relabel_modifyTask]
      · exact relabel_setCurrentTaskState ρ _ _ _
      · exact fun _ => rfl

/-- What a call does to the scheduler it does to the relabelled one. -/
theorem relabel_apply (e : Effect) (he : ∀ p f, e ≠ .create p f) :
    e.apply (s.relabel ρ) = (e.apply s).relabel ρ := by
  cases e with
  | none => rfl
  | create p f => exact absurd rfl (he p f)
  | sleep n => exact s.relabel_taskSleep ρ n
  | park r _ => exact s.relabel_setCurrentTaskState ρ _ _
  | suspend i => exact s.relabel_setTaskState ρ _ _ _
  | resume i => exact s.relabel_setTaskState ρ _ _ _
  | unblock r => exact s.relabel_unblockOne ρ r
  | wake ts =>
      simp only [Effect.apply]
      induction ts generalizing s with
      | nil => rfl
      | cons i ts ih =>
          rw [List.foldl_cons, List.foldl_cons, relabel_setTaskState]
          exact ih _ (by simp)

theorem relabel_updateSleepTask (i : ℕ) :
    (s.relabel ρ).updateSleepTask i = (s.updateSleepTask i).relabel ρ := by
  unfold updateSleepTask
  simp only [apply_ite (relabel ρ)]
  rw [← relabel_setTaskState, ← relabel_modifyTask]
  · simp only [modifyTask_self]
    rfl
  · exact fun _ => rfl

theorem relabel_timerUpdateSleep :
    (s.relabel ρ).timerUpdateSleep = s.timerUpdateSleep.relabel ρ := by
  have hloop : ∀ (l : List ℕ) (u : Sched cfg),
      l.foldl updateSleepTask (u.relabel ρ) = (l.foldl updateSleepTask u).relabel ρ := by
    intro l
    induction l with
    | nil => exact fun _ => rfl
    | cons i l ih =>
        intro u
        rw [List.foldl_cons, List.foldl_cons, relabel_updateSleepTask, ih]
  exact hloop _ s

theorem relabel_taskReturned (t : ℕ) :
    (s.relabel ρ).taskReturned t = (s.taskReturned t).relabel ρ := by
  unfold taskReturned
  simp only [apply_ite (relabel ρ)]
  rw [← relabel_setTaskState]
  rfl

theorem relabel_requeueOutgoing (c : ℕ) :
    (s.relabel ρ).requeueOutgoing c = (s.requeueOutgoing c).relabel ρ := by
  unfold requeueOutgoing
  simp only [apply_ite (relabel ρ)]
  rw [← relabel_setTaskState]
  rfl

theorem relabel_doContextSwitch (active : CPUContext) (outgoing : Option ℕ) (incoming : ℕ) :
    (s.relabel ρ).doContextSwitch active outgoing incoming =
      ((s.doContextSwitch active outgoing incoming).1.relabel ρ,
        (s.doContextSwitch active outgoing incoming).2) := by
  have hsave : (s.relabel ρ).saveOutgoing active outgoing =
      (s.saveOutgoing active outgoing).relabel ρ := by
    cases outgoing with
    | none => rfl
    | some out =>
        rw [saveOutgoing, saveOutgoing, relabel_modifyTask]
        exact fun _ => rfl
  rw [doContextSwitch_eq, doContextSwitch_eq, hsave]
  refine Prod.ext ?_ rfl
  simp only
  rw [← relabel_setTaskState, ← relabel_modifyTask]
  · rfl
  · exact fun _ => rfl

/-- A switch decided on comes out relabelled. -/
theorem relabel_switch (active : CPUContext) (b : Branch) (outgoing : Option ℕ) (best : ℕ) :
    (some (b, best), ((s.relabel ρ).readyQueuePop best).doContextSwitch active outgoing best) =
      ((some (b, best),
        ((s.readyQueuePop best).doContextSwitch active outgoing best).1.relabel ρ,
        ((s.readyQueuePop best).doContextSwitch active outgoing best).2) :
          Option (Branch × ℕ) × Sched cfg × CPUContext) :=
  congrArg (Prod.mk _) ((s.readyQueuePop best).relabel_doContextSwitch ρ active outgoing best)

theorem relabel_decide (active : CPUContext) :
    (s.relabel ρ).schedulerRunDecide active =
      ((s.schedulerRunDecide active).1, (s.schedulerRunDecide active).2.1.relabel ρ,
        (s.schedulerRunDecide active).2.2) := by
  unfold schedulerRunDecide
  rw [relabel_peek, relabel_rtosCurrentTask]
  obtain ⟨best, u⟩ := s.readyQueuePeekHighestPriority
  cases best with
  | none =>
      cases s.rtosCurrentTask with
      | none => rfl
      | some c =>
          simp only
          rw [relabel_modifyTask]
          exact fun _ => rfl
  | some best =>
      cases s.rtosCurrentTask with
      | none => exact u.relabel_switch ρ active _ _ _
      | some c =>
          simp only [relabel_requeueOutgoing, relabel_taskList, TCB.relabel_state,
            TCB.relabel_priority, TCB.relabel_sliceTicksUsed, ρ.strictMono.lt_iff_lt,
            ρ.strictMono.injective.eq_iff]
          by_cases hgone : (u.taskList c).state ≠ .running ∧ (u.taskList c).state ≠ .ready
          · rw [if_pos hgone, if_pos hgone]
            exact u.relabel_switch ρ active _ _ _
          rw [if_neg hgone, if_neg hgone]
          by_cases hpreempt : (u.taskList c).priority < (u.taskList best).priority
          · rw [if_pos hpreempt, if_pos hpreempt]
            exact (u.requeueOutgoing c).relabel_switch ρ active _ _ _
          rw [if_neg hpreempt, if_neg hpreempt]
          by_cases hexpired : (u.taskList best).priority = (u.taskList c).priority ∧
              cfg.rtosTimeSliceTicks ≤ (u.taskList c).sliceTicksUsed.toNat ∧ best ≠ c
          · rw [if_pos hexpired, if_pos hexpired]
            exact (u.requeueOutgoing c).relabel_switch ρ active _ _ _
          · rw [if_neg hexpired, if_neg hexpired, relabel_modifyTask, relabel_setTaskState]
            exact fun _ => rfl

end Sched

section Calls
variable (s : Sched cfg) (o : Objects)

namespace Objects

@[simp] theorem relabel_semaphores : (o.relabel ρ).semaphores = o.semaphores := rfl

@[simp] theorem relabel_mutexes : (o.relabel ρ).mutexes = o.mutexes := rfl

@[simp] theorem relabel_eventFlags : (o.relabel ρ).eventFlags = o.eventFlags := rfl

@[simp] theorem relabel_queues (i : ℕ) : (o.relabel ρ).queues i = (o.queues i).relabel ρ := rfl

theorem relabel_setQueue (i : ℕ) (queue : MessageQueue) :
    (o.relabel ρ).setQueue i (queue.relabel ρ) = (o.setQueue i queue).relabel ρ := by
  simp only [setQueue, relabel]
  congr 1
  funext j
  by_cases hj : j = i
  · subst hj
    simp
  · simp [hj]

end Objects

theorem TaskCall.relabel_exec {c : TaskCall} (hc : ∀ p f, c ≠ .create p f) :
    c.exec (s.relabel ρ) = ((c.exec s).1, (c.exec s).2.relabel ρ) := by
  have heffect : c.effect (s.relabel ρ) = c.effect s := rfl
  have hcreate : ∀ p f, c.effect s ≠ .create p f := by
    intro p f he
    cases c with
    | create p f => exact hc p f rfl
    | suspend taskId =>
        simp only [effect] at he
        split at he <;> cases he
    | resume taskId =>
        simp only [effect] at he
        split at he
        · cases he
        · split_ifs at he
    | _ => cases he
  refine Prod.ext ?_ ?_
  · cases c with
    | create p f => exact absurd rfl (hc p f)
    | suspend taskId =>
        simp only [exec, Sched.rtosSuspendTask, Sched.relabel_taskIndexFromId]
        cases s.taskIndexFromId taskId <;> rfl
    | resume taskId =>
        simp only [exec, Sched.rtosResumeTask, Sched.relabel_taskIndexFromId]
        cases s.taskIndexFromId taskId with
        | none => rfl
        | some i =>
            simp only [apply_ite Prod.fst]
            rfl
    | _ => rfl
  · rw [c.exec_sched, c.exec_sched, heffect]
    exact s.relabel_apply ρ _ hcreate

namespace Sched

theorem relabel_semWait (sem : Semaphore) :
    (s.relabel ρ).rtosSemWait sem =
      (s.rtosSemWait sem).map fun r => (r.1, r.2.1, r.2.2.relabel ρ) := by
  unfold rtosSemWait
  rw [relabel_rtosCurrentTask, relabel_setCurrentTaskState]
  cases s.rtosCurrentTask with
  | none => simp
  | some t =>
      simp only [apply_ite (Option.map _)]
      rfl

theorem relabel_mutexLock (mutex : Mutex) :
    (s.relabel ρ).rtosMutexLock mutex =
      (s.rtosMutexLock mutex).map fun r => (r.1, r.2.1, r.2.2.relabel ρ) := by
  unfold rtosMutexLock
  rw [relabel_rtosCurrentTask, relabel_setCurrentTaskState]
  cases s.rtosCurrentTask with
  | none => simp
  | some t =>
      simp only [relabel_taskList, TCB.relabel_taskId]
      by_cases ho : mutex.owner = (s.taskList t).taskId
      · cases mutex.locked <;> simp [ho]
      · cases mutex.locked <;> simp [ho]

theorem relabel_mutexUnlock (mutex : Mutex) :
    (s.relabel ρ).rtosMutexUnlock mutex =
      (s.rtosMutexUnlock mutex).map fun r => (r.1, r.2.relabel ρ) := by
  unfold rtosMutexUnlock
  rw [relabel_rtosCurrentTask, relabel_unblockOne]
  cases s.rtosCurrentTask with
  | none => simp
  | some t =>
      simp only [relabel_taskList, TCB.relabel_taskId]
      by_cases ho : mutex.owner = (s.taskList t).taskId
      · cases mutex.locked <;> simp [ho]
      · cases mutex.locked <;> simp [ho]

theorem relabel_queueSend (queue : MessageQueue) (value : ℤ) :
    (s.relabel ρ).rtosQueueSend (queue.relabel ρ) (ρ.value value) =
      (s.rtosQueueSend queue value).map fun r => (r.1, r.2.1.relabel ρ, r.2.2.relabel ρ) := by
  have hbuffer : Function.update (queue.relabel ρ).buffer queue.rear (ρ.value value) =
      fun k => ρ.value (Function.update queue.buffer queue.rear value k) := by
    funext k
    by_cases hk : k = queue.rear
    · subst hk
      simp
    · simp [hk, MessageQueue.relabel]
  have hrear : (queue.relabel ρ).rear = queue.rear := rfl
  unfold rtosQueueSend
  rw [relabel_rtosCurrentTask, relabel_setCurrentTaskState, relabel_unblockOne, hrear, hbuffer]
  cases s.rtosCurrentTask with
  | none => simp
  | some t =>
      simp only [apply_ite (Option.map _)]
      rfl

theorem relabel_queueReceive (queue : MessageQueue) :
    (s.relabel ρ).rtosQueueReceive (queue.relabel ρ) =
      (s.rtosQueueReceive queue).map fun r =>
        (r.1.map ρ.value, r.2.1.relabel ρ, r.2.2.relabel ρ) := by
  unfold rtosQueueReceive
  rw [relabel_rtosCurrentTask, relabel_setCurrentTaskState, relabel_unblockOne]
  cases s.rtosCurrentTask with
  | none => simp
  | some t =>
      simp only [apply_ite (Option.map _)]
      rfl

end Sched

theorem EventFlags.relabel_setLoop (n : ℕ) (ef : EventFlags) :
    eventFlagsSetLoop n ef (s.relabel ρ) =
      ((eventFlagsSetLoop n ef s).1, (eventFlagsSetLoop n ef s).2.relabel ρ) := by
  induction n generalizing ef s with
  | zero => rfl
  | succ n ih =>
      simp only [eventFlagsSetLoop, Sched.relabel_setTaskState, ih]
      split_ifs <;> rfl

theorem EventFlags.relabel_set (ef : EventFlags) (mask : BitVec 32) :
    ef.eventFlagsSet (s.relabel ρ) mask =
      ((ef.eventFlagsSet s mask).1, (ef.eventFlagsSet s mask).2.relabel ρ) := by
  unfold eventFlagsSet
  split_ifs
  · rfl
  · exact relabel_setLoop ρ s _ _

theorem EventFlags.relabel_wait (ef : EventFlags) (mask : BitVec 32) :
    ef.eventFlagsWait (s.relabel ρ) mask =
      ((ef.eventFlagsWait s mask).1, (ef.eventFlagsWait s mask).2.1,
        (ef.eventFlagsWait s mask).2.2.relabel ρ) := by
  unfold eventFlagsWait
  rw [Sched.relabel_setCurrentTaskState]
  split_ifs <;> rfl

end Calls

section Machines
variable (m : Machine cfg)

/-- The relabelled call on the relabelled machine gives the relabelled result. -/
def Machine.Commutes (c : Call cfg) : Prop :=
  (m.relabel ρ).exec (c.relabel ρ) =
    (m.exec c).map fun r => (r.1.relabel ρ c, r.2.relabel ρ)

theorem TaskCall.commutes (c : TaskCall) : m.Commutes ρ (.task c) := by
  by_cases hc : ∃ p f, c = .create p f
  · obtain ⟨p, f, rfl⟩ := hc
    simp only [Machine.Commutes, Call.relabel, Machine.exec, exec]
    rw [show (m.relabel ρ).sched = m.sched.relabel ρ from rfl, Sched.relabel_createTask]
    rfl
  · push Not at hc
    have hcall : (Call.task c : Call cfg).relabel ρ = .task c := by
      cases c with
      | create p f => exact absurd rfl (hc p f)
      | _ => rfl
    have hvalue : ((c.exec m.sched).1.relabel ρ (.task c : Call cfg)) = (c.exec m.sched).1 := by
      cases c <;> rfl
    rw [Machine.Commutes, hcall]
    simp only [Machine.exec, Option.map_some, hvalue]
    rw [show (m.relabel ρ).sched = m.sched.relabel ρ from rfl, c.relabel_exec ρ _ hc]
    rfl

theorem SyncCall.commutes (c : SyncCall) : m.Commutes ρ (.sync c) := by
  simp only [Machine.Commutes, Call.relabel, Machine.exec, exec]
  cases c with
  | semaphoreInit i n | mutexInit i => rfl
  | semSignal i =>
      have hcall := m.sched.relabel_unblockOne ρ .semaphore
      simp only [Sched.rtosSemSignal, Machine.relabel, hcall]
      rfl
  | semWait i =>
      have hcall := m.sched.relabel_semWait ρ (m.objects.semaphores i)
      simp only [Machine.relabel, Objects.relabel_semaphores, hcall]
      cases m.sched.rtosSemWait (m.objects.semaphores i) <;> rfl
  | mutexLock i =>
      have hcall := m.sched.relabel_mutexLock ρ (m.objects.mutexes i)
      simp only [Machine.relabel, Objects.relabel_mutexes, hcall]
      cases m.sched.rtosMutexLock (m.objects.mutexes i) <;> rfl
  | mutexUnlock i =>
      have hcall := m.sched.relabel_mutexUnlock ρ (m.objects.mutexes i)
      simp only [Machine.relabel, Objects.relabel_mutexes, hcall]
      cases m.sched.rtosMutexUnlock (m.objects.mutexes i) <;> rfl
  | queueInit i =>
      have hset := m.objects.relabel_setQueue ρ i (MiniRtos.queueInit (m.objects.queues i))
      simp only [Option.map_some, Machine.relabel, Value.relabel, ← hset]
      rfl
  | queueSend i value =>
      have hcall := m.sched.relabel_queueSend ρ (m.objects.queues i) value
      simp only [Machine.relabel, Objects.relabel_queues, hcall]
      cases m.sched.rtosQueueSend (m.objects.queues i) value with
      | none => rfl
      | some r =>
          simp only [Option.map_some, Objects.relabel_setQueue]
          rfl
  | queueReceive i =>
      have hcall := m.sched.relabel_queueReceive ρ (m.objects.queues i)
      simp only [Machine.relabel, Objects.relabel_queues, hcall]
      cases m.sched.rtosQueueReceive (m.objects.queues i) with
      | none => rfl
      | some r =>
          simp only [Option.map_some, Objects.relabel_setQueue]
          rfl

theorem EventCall.commutes (c : EventCall) : m.Commutes ρ (.event c) := by
  cases c with
  | init ef => cases ef <;> rfl
  | get ef => cases ef <;> rfl
  | clear ef mask => cases ef <;> rfl
  | set ef mask =>
      cases ef with
      | none => rfl
      | some i =>
          have hcall := (m.objects.eventFlags i).relabel_set ρ m.sched mask
          simp only [Machine.Commutes, Call.relabel, Machine.exec, exec, Machine.relabel,
            Objects.relabel_eventFlags, hcall]
          rfl
  | wait ef mask =>
      cases ef with
      | none => rfl
      | some i =>
          have hcall := (m.objects.eventFlags i).relabel_wait ρ m.sched mask
          simp only [Machine.Commutes, Call.relabel, Machine.exec, exec, Machine.relabel,
            Objects.relabel_eventFlags, hcall]
          rfl

namespace TimerState
variable (t : TimerState cfg)

theorem relabel_onSlotInUse (timer : Option (Fin cfg.rtosSoftTimerCount))
    (f : SoftTimer → SoftTimer) :
    (t.relabel ρ).onSlotInUse timer f = (t.onSlotInUse timer f).relabel ρ := by
  cases timer with
  | none => rfl
  | some i =>
      simp only [onSlotInUse, apply_ite (relabel ρ)]
      rfl

theorem relabel_softCreate (mode : TimerMode) (periodTicks : BitVec 32)
    (callback arg : BitVec 64) :
    (t.relabel ρ).timerSoftCreate mode periodTicks callback arg =
      ((t.timerSoftCreate mode periodTicks callback arg).1,
        (t.timerSoftCreate mode periodTicks callback arg).2.relabel ρ) := by
  have hfind : ((List.finRange cfg.rtosSoftTimerCount).find? fun i =>
      !((t.relabel ρ).softTimers i).inUse) =
        (List.finRange cfg.rtosSoftTimerCount).find? fun i => !(t.softTimers i).inUse := rfl
  unfold timerSoftCreate
  rw [hfind]
  split_ifs
  · rfl
  · rfl
  · split <;> rfl

theorem relabel_updateSoftSlot (i : Fin cfg.rtosSoftTimerCount) :
    (t.relabel ρ).timerUpdateSoftSlot i =
      ((t.timerUpdateSoftSlot i).1, (t.timerUpdateSoftSlot i).2.relabel ρ) := by
  have hslot : (t.relabel ρ).softTimers i = t.softTimers i := rfl
  unfold timerUpdateSoftSlot
  rw [hslot]
  split_ifs <;> rfl

theorem relabel_callbackReturned (i : Fin cfg.rtosSoftTimerCount) :
    (t.relabel ρ).timerCallbackReturned i = (t.timerCallbackReturned i).relabel ρ := by
  have hslot : (t.relabel ρ).softTimers i = t.softTimers i := rfl
  unfold timerCallbackReturned
  rw [hslot]
  split_ifs <;> rfl

theorem relabel_tick : (t.relabel ρ).timerTick = t.timerTick.relabel ρ := by
  simp only [timerTick, relabel, BitVec.add_assoc, BitVec.add_comm 1#32]

end TimerState

theorem TimerCall.commutes (c : TimerCall cfg) : m.Commutes ρ (.timer c) := by
  simp only [Machine.Commutes, Call.relabel, Machine.exec, exec]
  cases c with
  | now => simp [TimerState.timerNow, Value.relabel, Machine.relabel, TimerState.relabel]
  | softCreate mode periodTicks callback arg =>
      have hcall := m.timer.relabel_softCreate ρ mode periodTicks callback arg
      simp only [Machine.relabel, hcall]
      rfl
  | softStart timer | softStop timer | softDelete timer =>
      simp only [Machine.relabel, TimerState.timerSoftStart, TimerState.timerSoftStop,
        TimerState.timerSoftDelete, TimerState.relabel_onSlotInUse]
      rfl

theorem Machine.commutes (c : Call cfg) : m.Commutes ρ c := by
  cases c with
  | task c => exact c.commutes ρ m
  | sync c => exact c.commutes ρ m
  | event c => exact c.commutes ρ m
  | timer c => exact c.commutes ρ m
  | memory c =>
      have hcall : (m.relabel ρ).pool = m.pool := rfl
      simp only [Machine.Commutes, Call.relabel, exec, hcall]
      cases c with
      | write idx offset byte =>
          simp only [MemoryCall.exec]
          split_ifs <;> rfl
      | _ => rfl
  | context c => cases c <;> rfl

end Machines

/-- `rtos_init` sets the clock, whatever it was. -/
def Relabelling.Admits (a : Action cfg) : Prop := ρ.clock = 0#32 ∨ a ≠ .init

section Steps
variable (s : System cfg)

theorem System.relabel_ret :
    (s.relabel ρ).ret = s.ret.map fun r => (r.1, r.2.relabel ρ) := by
  have hphase : (s.relabel ρ).phase = s.phase := rfl
  unfold ret
  rw [hphase]
  cases s.phase with
  | callback left i =>
      have htimer := s.machine.timer.relabel_callbackReturned ρ i
      simp only [relabel, Machine.relabel, htimer]
      rfl
  | task left t =>
      have hsched := s.machine.sched.relabel_taskReturned ρ t
      simp only [relabel, Machine.relabel, hsched]
      rfl
  | _ => rfl

theorem System.relabel_advance :
    (s.relabel ρ).advance = s.advance.map fun r => (r.1, r.2.relabel ρ) := by
  have hphase : (s.relabel ρ).phase = s.phase := rfl
  unfold advance
  rw [hphase]
  cases s.phase with
  | cycleTop left =>
      cases left with
      | zero => rfl
      | succ left =>
          have hsched := s.machine.sched.relabel_timerUpdateSleep ρ
          have htimer := s.machine.timer.relabel_tick ρ
          simp only [relabel, Machine.relabel, hsched, htimer]
          rfl
  | softTimer left i =>
      by_cases hi : i < cfg.rtosSoftTimerCount
      · have hslot := s.machine.timer.relabel_updateSoftSlot ρ ⟨i, hi⟩
        simp only [dif_pos hi, relabel, Machine.relabel, hslot]
        split_ifs <;> rfl
      · simp only [dif_neg hi]
        rfl
  | decide left =>
      have hdecide := s.machine.sched.relabel_decide ρ s.machine.activeContext
      simp only [relabel, Machine.relabel, hdecide]
      cases (s.machine.sched.schedulerRunDecide s.machine.activeContext).1 <;> rfl
  | _ => rfl

theorem relabel_step (a : Action cfg) (ha : ρ.Admits a) :
    step (s.relabel ρ) (a.relabel ρ) =
      (step s a).map fun r => (r.1.relabel ρ a, r.2.relabel ρ) := by
  have hphase : (s.relabel ρ).phase = s.phase := rfl
  cases a with
  | init =>
      have hinit : (s.machine.relabel ρ).rtosInit = s.machine.rtosInit.relabel ρ := by
        have hclock := ha.resolve_right (not_not_intro rfl)
        simp [Machine.rtosInit, Machine.relabel, TimerState.timerInit, TimerState.relabel, hclock,
          Sched.relabel]
      simp only [step, Action.relabel, hphase]
      split_ifs
      · simp only [System.relabel, hinit]
        rfl
      · rfl
  | run n =>
      simp only [step, Action.relabel, hphase]
      split_ifs <;> rfl
  | call c =>
      have hcall : (s.relabel ρ).machine.exec (c.relabel ρ) = _ := s.machine.commutes ρ c
      simp only [step, Action.relabel, hphase, hcall]
      split_ifs
      · cases s.machine.exec c <;> rfl
      · rfl
  | ret => exact s.relabel_ret ρ
  | advance => exact s.relabel_advance ρ

end Steps

/-- Relabelling is a symmetry of the program. -/
def Relabelling.symmetry : Symmetry (@step cfg) ρ.Admits where
  state := System.relabel ρ
  act := Action.relabel ρ
  obs := Observation.relabel ρ
  step_eq := relabel_step ρ

/-- Two programs that differ in the priorities they give, but not in the order of these,
in the values they send, and in the time at which they start: one is accepted if and only
if the other is, and they do the same at every step. Only the values received and the
kernel tick read are those of the other program. With a clock shift no call of `rtos_init`
is among the actions. -/
theorem relabelled_execution (s : System cfg) (as : List (Action cfg))
    (h : ∀ a ∈ as, ρ.Admits a) :
    play step (s.relabel ρ) (as.map (Action.relabel ρ)) [] =
      (play step s as []).map fun r => (r.1.map (ρ.symmetry).edge, r.2.relabel ρ) :=
  (ρ.symmetry).play_eq s h []

/-- The clock starts one tick before it overflows. -/
def beforeOverflow : Relabelling where
  priority p := 2 * p + 1
  value n := -n
  clock := 0xFFFFFFFF#32
  strictMono _ _ h := by
    simp only
    omega

/-- The task of higher priority sends a value to itself and reads the clock. -/
def sendAndRead : List (Action Config.default) :=
  [.call (.task (.create 1 0x1000#64)), .call (.task (.create 5 0x2000#64)), .run 1] ++
    cycleActions _ ++ [.call (.sync (.queueSend 0 7)), .call (.sync (.queueReceive 0)),
      .call (.timer .now)]

theorem relabelled_execution_sendAndRead :
    let s := (System.boot .default).relabel beforeOverflow
    let as := sendAndRead.map (Action.relabel beforeOverflow)
    play step s as [] =
        (play step (System.boot .default) sendAndRead []).map (fun r =>
          (r.1.map beforeOverflow.symmetry.edge, r.2.relabel beforeOverflow)) ∧
      (play step s as []).map (fun r => r.1.map fun e => e.obs) =
        (play step (System.boot .default) sendAndRead []).map (fun r =>
          .returned (.word 0#32) :: .returned (.received (some (-7))) ::
            (r.1.drop 2).map fun e => e.obs) := by
  intro s as
  have hall : ∀ a ∈ sendAndRead, beforeOverflow.Admits a := by
    have hinit : Action.init ∉ sendAndRead := by decide
    exact fun a ha => .inr fun he => hinit (he ▸ ha)
  exact ⟨relabelled_execution beforeOverflow _ _ hall, by decide +kernel⟩

end MiniRtos
