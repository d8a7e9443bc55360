import MiniRtos.KernelInvariant
import MiniRtos.QueueOrder
import Mathlib.Data.List.Find

/-!
# Scheduler data that differ in dead memory only

`rtos_init` sets `task_count` to 0 and leaves the task table as it is. Two tables are alike
when they agree on the control blocks in use; a control block beyond `task_count` is written
in full before it is used. Every operation of the scheduler takes data that are alike to
data that are alike and reads the same off them.
-/
namespace MiniRtos
variable {cfg : Config}

/-- A control block without what the model has past the end of its stack array. -/
def TCB.visible (cfg : Config) (t : TCB) : TCB :=
  { t with stackMemory := fun k => if k < Sched.rtosStackWords cfg then t.stackMemory k else 0#64 }

namespace Sched

structure Alike (s s' : Sched cfg) : Prop where
  taskCount : s'.taskCount = s.taskCount
  currentTaskIndex : s'.currentTaskIndex = s.currentTaskIndex
  readyQueue : s'.readyQueue = s.readyQueue
  tasks : ∀ i < s.taskCount, (s'.taskList i).visible cfg = (s.taskList i).visible cfg

namespace Alike
variable {s s' : Sched cfg}

section Reads

/-- What is read of a control block in use. -/
theorem field {α : Type*} (h : s.Alike s') {i : ℕ} (hi : i < s.taskCount) (g : TCB → α)
    (hg : ∀ t : TCB, g (t.visible cfg) = g t) : g (s'.taskList i) = g (s.taskList i) := by
  rw [← hg (s'.taskList i), h.tasks i hi, hg]

theorem state (h : s.Alike s') {i : ℕ} (hi : i < s.taskCount) :
    (s'.taskList i).state = (s.taskList i).state := h.field hi TCB.state fun _ => rfl

theorem status (h : s.Alike s') {i : ℕ} (hi : i < s.taskCount) : s'.status i = s.status i :=
  h.field hi (fun t => (t.state, t.blockReason)) fun _ => rfl

theorem prio (h : s.Alike s') {i : ℕ} (hi : i < s.taskCount) : s'.prio i = s.prio i :=
  h.field hi TCB.priority fun _ => rfl

theorem taskId (h : s.Alike s') {i : ℕ} (hi : i < s.taskCount) :
    (s'.taskList i).taskId = (s.taskList i).taskId := h.field hi TCB.taskId fun _ => rfl

theorem rtosCurrentTask (h : s.Alike s') : s'.rtosCurrentTask = s.rtosCurrentTask := by
  rw [Sched.rtosCurrentTask, Sched.rtosCurrentTask, h.currentTaskIndex, h.taskCount]

theorem taskIndexFromId (h : s.Alike s') (taskId : ℤ) :
    s'.taskIndexFromId taskId = s.taskIndexFromId taskId := by
  rw [Sched.taskIndexFromId, Sched.taskIndexFromId, h.taskCount]
  refine List.find?_congr fun i hi => ?_
  rw [h.taskId (List.mem_range.mp hi)]

theorem blockedOn (h : s.Alike s') (r : BlockReason) : s'.blockedOn r = s.blockedOn r := by
  rw [Sched.blockedOn, Sched.blockedOn, h.taskCount]
  refine List.filter_congr fun i hi => ?_
  rw [h.status (List.mem_range.mp hi)]

theorem unblockScan (h : s.Alike s') (r : BlockReason) : s'.unblockScan r = s.unblockScan r := by
  rw [unblockScan_eq, unblockScan_eq, h.blockedOn]
  exact QueueOrder.argmax_congr fun i hi => h.prio (mem_blockedOn.mp hi).1

theorem argmax_queue (h : s.Alike s') (hs : s.WellFormed) :
    s'.readyQueue.argmax s'.prio = s.readyQueue.argmax s.prio := by
  rw [h.readyQueue]
  exact QueueOrder.argmax_congr fun i hi => h.prio (hs.bounded i hi)

end Reads

section Writes

theorem modifyTask (h : s.Alike s') (i : ℕ) {f : TCB → TCB}
    (hf : ∀ t : TCB, (f t).visible cfg = f (t.visible cfg)) :
    (s.modifyTask i f).Alike (s'.modifyTask i f) where
  taskCount := h.taskCount
  currentTaskIndex := h.currentTaskIndex
  readyQueue := h.readyQueue
  tasks j hj := by
    by_cases hji : j = i
    · subst hji
      rw [modifyTask_self, modifyTask_self, hf, hf, h.tasks j hj]
    · rw [modifyTask_of_ne _ _ hji, modifyTask_of_ne _ _ hji]
      exact h.tasks j hj

theorem readyQueueRemove (h : s.Alike s') (i : ℕ) :
    (s.readyQueueRemove i).Alike (s'.readyQueueRemove i) where
  taskCount := h.taskCount
  currentTaskIndex := h.currentTaskIndex
  readyQueue := by rw [Sched.readyQueueRemove, Sched.readyQueueRemove, h.readyQueue]
  tasks := h.tasks

theorem readyQueueEnqueue (h : s.Alike s') (i : ℤ) :
    (s.readyQueueEnqueue i).Alike (s'.readyQueueEnqueue i) := by
  unfold Sched.readyQueueEnqueue readyQueueContains
  rw [h.taskCount, h.readyQueue]
  by_cases hr : i < 0 ∨ (s.taskCount : ℤ) ≤ i
  · rw [if_pos hr, if_pos hr]
    exact h
  · rw [if_neg hr, if_neg hr, h.state (by omega)]
    split_ifs
    · exact h
    · exact h
    · exact ⟨rfl, h.currentTaskIndex, rfl, h.tasks⟩

theorem setTaskState (h : s.Alike s') (i : ℤ) (st : TaskState) (r : BlockReason) :
    (s.schedulerSetTaskState i st r).Alike (s'.schedulerSetTaskState i st r) := by
  unfold schedulerSetTaskState
  rw [h.taskCount]
  split_ifs with hr hready
  · exact h
  · refine Alike.readyQueueEnqueue ?_ _
    refine Alike.modifyTask ?_ _ ?_
    · refine Alike.modifyTask (h.readyQueueRemove _) _ ?_
      exact fun _ => rfl
    · exact fun _ => rfl
  · refine Alike.modifyTask (h.readyQueueRemove _) _ ?_
    exact fun _ => rfl

theorem addTask (h : s.Alike s') (p : ℤ) (f : BitVec 64) :
    (s.addTask p f).Alike (s'.addTask p f) where
  taskCount := by rw [Sched.addTask, Sched.addTask, h.taskCount]
  currentTaskIndex := h.currentTaskIndex
  readyQueue := h.readyQueue
  tasks i hi := by
    by_cases hnew : i = s.taskCount
    · subst hnew
      simp [Sched.addTask, h.taskCount, Sched.modifyTask, TCB.visible, initTaskStack]
      funext k
      split_ifs <;> rfl
    · rw [s.addTask_of_ne p f hnew, s'.addTask_of_ne p f (h.taskCount ▸ hnew)]
      exact h.tasks i (by simp only [Sched.addTask] at hi; omega)

/-- What a call does to the scheduler it does to both. -/
theorem apply (h : s.Alike s') (e : Effect) : (e.apply s).Alike (e.apply s') := by
  cases e with
  | none => exact h
  | create p f =>
      rw [Effect.apply, Effect.apply, rtosCreateTask_sched, rtosCreateTask_sched, h.taskCount]
      split_ifs
      · exact h
      · exact (h.addTask p f).setTaskState _ _ _
  | sleep n =>
      rw [Effect.apply, Effect.apply, rtosTaskSleep, rtosTaskSleep, h.rtosCurrentTask]
      cases s.rtosCurrentTask with
      | none => exact h
      | some t =>
          simp only [schedulerSetCurrentTaskState, modifyTask_currentTaskIndex,
            h.currentTaskIndex]
          refine Alike.setTaskState (h.modifyTask t ?_) _ _ _
          exact fun _ => rfl
  | park r _ =>
      simp only [Effect.apply, schedulerSetCurrentTaskState, h.currentTaskIndex]
      exact h.setTaskState _ _ _
  | suspend i => exact h.setTaskState _ _ _
  | resume i => exact h.setTaskState _ _ _
  | unblock r =>
      rw [Effect.apply, Effect.apply, schedulerUnblockOne, schedulerUnblockOne, h.unblockScan]
      cases s.unblockScan r with
      | none => exact h
      | some best => exact h.setTaskState _ _ _
  | wake ts =>
      simp only [Effect.apply]
      induction ts generalizing s s' with
      | nil => exact h
      | cons i ts ih => exact ih (h.setTaskState i .ready .none)

theorem updateSleepTask (h : s.Alike s') {i : ℕ} (hi : i < s.taskCount) :
    (s.updateSleepTask i).Alike (s'.updateSleepTask i) := by
  have hticks : (s'.taskList i).sleepTicks = (s.taskList i).sleepTicks :=
    h.field hi TCB.sleepTicks fun _ => rfl
  have hreason : (s'.taskList i).blockReason = (s.taskList i).blockReason :=
    h.field hi TCB.blockReason fun _ => rfl
  have hdown : (s.modifyTask i fun t => { t with sleepTicks := t.sleepTicks - 1 }).Alike
      (s'.modifyTask i fun t => { t with sleepTicks := t.sleepTicks - 1 }) :=
    h.modifyTask i fun _ => rfl
  unfold Sched.updateSleepTask
  simp only [modifyTask_self, h.state hi, hreason, hticks]
  split_ifs
  · exact h
  · exact hdown.setTaskState _ _ _
  · exact hdown

theorem timerUpdateSleep (h : s.Alike s') : s.timerUpdateSleep.Alike s'.timerUpdateSleep := by
  have hloop : ∀ (l : List ℕ) (u u' : Sched cfg), u.Alike u' → (∀ i ∈ l, i < u.taskCount) →
      (l.foldl Sched.updateSleepTask u).Alike (l.foldl Sched.updateSleepTask u') := by
    intro l
    induction l with
    | nil => exact fun _ _ hu _ => hu
    | cons i l ih =>
        intro u u' hu hlt
        refine ih _ _ (hu.updateSleepTask (hlt i (by simp))) fun j hj => ?_
        rw [updateSleepTask_taskCount]
        exact hlt j (by simp [hj])
  unfold Sched.timerUpdateSleep
  rw [h.taskCount]
  exact hloop _ _ _ h fun i hi => List.mem_range.mp hi

theorem taskReturned (h : s.Alike s') {t : ℕ} (ht : t < s.taskCount) :
    (s.taskReturned t).Alike (s'.taskReturned t) := by
  unfold Sched.taskReturned
  rw [h.state ht]
  split_ifs
  · exact h.setTaskState _ _ _
  · exact h

end Writes

section Decision
variable {active active' : CPUContext}

theorem requeueOutgoing (h : s.Alike s') {c : ℕ} (hc : c < s.taskCount) :
    (s.requeueOutgoing c).Alike (s'.requeueOutgoing c) := by
  unfold Sched.requeueOutgoing
  rw [h.state hc]
  split_ifs
  · exact h.setTaskState _ _ _
  · exact h

theorem saveOutgoing (h : s.Alike s') {outgoing : Option ℕ}
    (hactive : outgoing.isSome → active' = active) :
    (s.saveOutgoing active outgoing).Alike (s'.saveOutgoing active' outgoing) := by
  cases outgoing with
  | none => exact h
  | some out =>
      rw [hactive rfl, Sched.saveOutgoing, Sched.saveOutgoing]
      refine h.modifyTask out ?_
      exact fun _ => rfl

/-- A switch loads the registers from the control block, whatever was in them. -/
theorem doContextSwitch (h : s.Alike s') {outgoing : Option ℕ} {incoming : ℕ}
    (hin : incoming < s.taskCount) (hactive : outgoing.isSome → active' = active) :
    (s.doContextSwitch active outgoing incoming).1.Alike
        (s'.doContextSwitch active' outgoing incoming).1 ∧
      (s'.doContextSwitch active' outgoing incoming).2 =
        (s.doContextSwitch active outgoing incoming).2 := by
  have hsaved := h.saveOutgoing hactive
  have hcurrent : ({ s.saveOutgoing active outgoing with currentTaskIndex := incoming } :
      Sched cfg).Alike { s'.saveOutgoing active' outgoing with currentTaskIndex := incoming } :=
    ⟨hsaved.taskCount, rfl, hsaved.readyQueue, hsaved.tasks⟩
  rw [doContextSwitch_eq, doContextSwitch_eq]
  constructor
  · refine Alike.setTaskState (hcurrent.modifyTask incoming ?_) _ _ _
    exact fun _ => rfl
  · exact hsaved.field (by simpa using hin) TCB.context fun _ => rfl

/-- Both decide the same. The live registers agree afterwards if they did before, or if a
task runs. -/
structure SameDecision (active active' : CPUContext)
    (r r' : Option (Branch × ℕ) × Sched cfg × CPUContext) : Prop where
  result : r'.1 = r.1
  sched : r.2.1.Alike r'.2.1
  registers : active' = active ∨ r.1.isSome → r'.2.2 = r.2.2

theorem switched (h : s.Alike s') {outgoing : Option ℕ} {best : ℕ} (b : Branch)
    (hbest : best < s.taskCount) (hactive : outgoing.isSome → active' = active) :
    SameDecision active active'
      (some (b, best), (s.readyQueuePop best).doContextSwitch active outgoing best)
      (some (b, best), (s'.readyQueuePop best).doContextSwitch active' outgoing best) := by
  obtain ⟨hsched, hregisters⟩ := (h.readyQueueRemove best).doContextSwitch hbest hactive
  exact ⟨rfl, hsched, fun _ => hregisters⟩

/-- Before the first switch no task is current, and the registers are not stored. -/
theorem schedulerRunDecide (h : s.Alike s') (hs : s.WellFormed) (hs' : s'.WellFormed)
    (hactive : 0 ≤ s.currentTaskIndex → active' = active) :
    SameDecision active active' (s.schedulerRunDecide active) (s'.schedulerRunDecide active') := by
  unfold Sched.schedulerRunDecide
  rw [hs.peek_eq, hs'.peek_eq, h.argmax_queue hs, h.rtosCurrentTask]
  cases hb : s.readyQueue.argmax s.prio with
  | none =>
      cases s.rtosCurrentTask with
      | none => exact ⟨rfl, h, fun hr => hr.resolve_right (by simp)⟩
      | some c =>
          have hreset : (s.modifyTask c fun t => { t with sliceTicksUsed := 0#32 }).Alike
              (s'.modifyTask c fun t => { t with sliceTicksUsed := 0#32 }) :=
            h.modifyTask c fun _ => rfl
          exact ⟨rfl, hreset, fun hr => hr.resolve_right (by simp)⟩
  | some best =>
      have hbest := hs.bounded best (List.argmax_mem hb)
      cases hc : s.rtosCurrentTask with
      | none => exact h.switched .firstTick hbest (by simp)
      | some c =>
          obtain ⟨hcur, hlt⟩ := s.rtosCurrentTask_eq_some.mp hc
          have hsame : active' = active := hactive (by omega)
          have hbest' : best < (s.requeueOutgoing c).taskCount := by
            unfold Sched.requeueOutgoing
            split_ifs
            · rwa [setTaskState_taskCount]
            · exact hbest
          have hslice : (s'.taskList c).sliceTicksUsed = (s.taskList c).sliceTicksUsed :=
            h.field hlt TCB.sliceTicksUsed fun _ => rfl
          simp only [h.state hlt, h.prio hlt, h.prio hbest, hslice]
          split_ifs
          · exact h.switched .forced hbest fun _ => hsame
          · exact (h.requeueOutgoing hlt).switched .preempted hbest' fun _ => hsame
          · exact (h.requeueOutgoing hlt).switched .sliceExpired hbest' fun _ => hsame
          · refine ⟨rfl, ?_, fun _ => hsame⟩
            refine Alike.setTaskState (h.modifyTask c ?_) _ _ _
            exact fun _ => rfl

end Decision

end Alike

end Sched

end MiniRtos
