import MiniRtos.EventTable
import MiniRtos.ForeignPointers
import MiniRtos.QueueRefinement
import MiniRtos.SchedAlike
import MiniRtos.Unwinding

/-!
# Calls on objects and pools that differ in dead memory only

Two message queues are alike when they hold the same values, two pools when they have the
same stack of free blocks, two event flags objects when their live entries are the same.
What is left in free slots, free blocks and old entries never comes back: a call on one of
two alike machines returns what it returns on the other and leaves alike machines.
-/
namespace MiniRtos
open TransitionSystem
variable {cfg : Config}

def MessageQueue.Alike (cfg : Config) (queue queue' : MessageQueue) : Prop :=
  ∃ l, queue.Represents cfg l ∧ queue'.Represents cfg l

structure EventFlags.Alike (ef ef' : EventFlags) : Prop where
  flags : ef'.flags = ef.flags
  waiterCount : ef'.waiterCount = ef.waiterCount
  waiters : ∀ w < ef.waiterCount, ef'.waiters w = ef.waiters w

structure Objects.Alike (cfg : Config) (o o' : Objects) : Prop where
  semaphores : o'.semaphores = o.semaphores
  mutexes : o'.mutexes = o.mutexes
  queues : ∀ q, (o.queues q).Alike cfg (o'.queues q)
  eventFlags : ∀ i, (o.eventFlags i).Alike (o'.eventFlags i)

def Pool.Alike (p p' : Pool cfg) : Prop := ∃ l, p.Represents l ∧ p'.Represents l

/-- The initialisation functions called on every object. -/
def Objects.reinitialise (cfg : Config) (counts : ℕ → ℤ) (o : Objects) : Objects where
  semaphores i := semaphoreInit (counts i)
  mutexes _ := mutexInit
  queues q := queueInit (o.queues q)
  eventFlags i := (o.eventFlags i).eventFlagsInit cfg

theorem EventFlags.removeWaiter_waiters (ef : EventFlags) {i w : ℕ}
    (hw : w < ef.waiterCount - 1) : (ef.removeWaiter i).waiters w =
      if w = i then ef.waiters (ef.waiterCount - 1) else ef.waiters w := by
  simp only [removeWaiter]
  rw [Function.update_of_ne (by omega), Function.update_apply]

namespace EventFlags.Alike
variable {ef ef' : EventFlags}

theorem eventFlagsInit (ef ef' : EventFlags) :
    (ef.eventFlagsInit cfg).Alike (ef'.eventFlagsInit cfg) :=
  ⟨rfl, rfl, fun w hw => absurd hw (Nat.not_lt_zero w)⟩

theorem setFlags (h : ef.Alike ef') (flags : BitVec 32) :
    ({ ef with flags := flags } : EventFlags).Alike { ef' with flags := flags } :=
  ⟨rfl, h.waiterCount, h.waiters⟩

theorem removeWaiter (h : ef.Alike ef') {i : ℕ} (hi : i < ef.waiterCount) :
    (ef.removeWaiter i).Alike (ef'.removeWaiter i) where
  flags := h.flags
  waiterCount := by simp only [EventFlags.removeWaiter, h.waiterCount]
  waiters w hw := by
    have hw' : w < ef.waiterCount - 1 := hw
    rw [ef.removeWaiter_waiters hw', ef'.removeWaiter_waiters (h.waiterCount ▸ hw'), h.waiterCount]
    split_ifs
    · exact h.waiters _ (by omega)
    · exact h.waiters w (by omega)

theorem selected (h : ef.Alike ef') (flags : BitVec 32) :
    EventFlags.selected ef'.waiterCount flags ef'.waiters =
      EventFlags.selected ef.waiterCount flags ef.waiters := by
  rw [h.waiterCount]
  exact selected_congr h.waiters

/-- The scan takes the same entries out of both tables. -/
theorem eventFlagsSetLoop {n : ℕ} (h : ef.Alike ef') (hn : n ≤ ef.waiterCount)
    (s s' : Sched cfg) :
    (EventFlags.eventFlagsSetLoop n ef s).1.Alike (EventFlags.eventFlagsSetLoop n ef' s').1 := by
  induction n generalizing ef ef' s s' with
  | zero => exact h
  | succ n ih =>
      simp only [EventFlags.eventFlagsSetLoop, h.flags, h.waiters n hn]
      split_ifs with hs
      · exact ih h (by omega) s s'
      · have hcleared := h.setFlags (ef.flags &&& ~~~(ef.waiters n).requiredMask)
        refine ih (hcleared.removeWaiter hn) ?_ _ _
        simp only [EventFlags.removeWaiter]
        omega

theorem eventFlagsSet (h : ef.Alike ef') (s s' : Sched cfg) (mask : BitVec 32) :
    (ef.eventFlagsSet s mask).1.Alike (ef'.eventFlagsSet s' mask).1 := by
  unfold EventFlags.eventFlagsSet
  split_ifs
  · exact h
  · have hloop := (h.setFlags (ef.flags ||| mask)).eventFlagsSetLoop le_rfl s s'
    simpa only [h.flags, h.waiterCount] using hloop

end EventFlags.Alike

namespace Objects.Alike
variable {o o' : Objects}

theorem reinitialise (counts : ℕ → ℤ) (o o' : Objects) :
    (o.reinitialise cfg counts).Alike cfg (o'.reinitialise cfg counts) where
  semaphores := rfl
  mutexes := rfl
  queues _ := ⟨[], queueInit_represents _, queueInit_represents _⟩
  eventFlags _ := .eventFlagsInit _ _

theorem setSemaphore (h : o.Alike cfg o') (i : ℕ) (x : Semaphore) :
    (o.setSemaphore i x).Alike cfg (o'.setSemaphore i x) where
  semaphores := by rw [Objects.setSemaphore, Objects.setSemaphore, h.semaphores]
  mutexes := h.mutexes
  queues := h.queues
  eventFlags := h.eventFlags

theorem setMutex (h : o.Alike cfg o') (i : ℕ) (x : Mutex) :
    (o.setMutex i x).Alike cfg (o'.setMutex i x) where
  semaphores := h.semaphores
  mutexes := by rw [Objects.setMutex, Objects.setMutex, h.mutexes]
  queues := h.queues
  eventFlags := h.eventFlags

theorem setQueue (h : o.Alike cfg o') (i : ℕ) {x x' : MessageQueue} (hx : x.Alike cfg x') :
    (o.setQueue i x).Alike cfg (o'.setQueue i x') where
  semaphores := h.semaphores
  mutexes := h.mutexes
  queues q := by
    by_cases hq : q = i
    · simpa [Objects.setQueue, hq] using hx
    · simpa [Objects.setQueue, hq] using h.queues q
  eventFlags := h.eventFlags

theorem setEventFlags (h : o.Alike cfg o') (i : ℕ) {ef ef' : EventFlags} (hef : ef.Alike ef') :
    (o.setEventFlags i ef).Alike cfg (o'.setEventFlags i ef') where
  semaphores := h.semaphores
  mutexes := h.mutexes
  queues := h.queues
  eventFlags j := by
    by_cases hj : j = i
    · rwa [hj, o.setEventFlags_at, o'.setEventFlags_at]
    · rw [o.setEventFlags_of_ne hj, o'.setEventFlags_of_ne hj]
      exact h.eventFlags j

end Objects.Alike

section Calls
variable {s s' : Sched cfg} {o o' : Objects}

/-- Everything a call gives back and leaves behind. -/
structure CallsAlike (cfg : Config) (r r' : Value × Sched cfg × Objects) : Prop where
  value : r'.1 = r.1
  sched : r.2.1.Alike r'.2.1
  objects : r.2.2.Alike cfg r'.2.2

theorem MessageQueue.Alike.count {queue queue' : MessageQueue} (h : queue.Alike cfg queue') :
    queue'.count = queue.count := by
  obtain ⟨l, hl, hl'⟩ := h
  exact hl'.count_eq.trans hl.count_eq.symm

theorem MessageQueue.Alike.sent {queue queue' : MessageQueue} (h : queue.Alike cfg queue')
    (hfull : queue.count ≠ cfg.rtosQueueSize) (value : ℤ) :
    MessageQueue.Alike cfg
      { queue with
        buffer := Function.update queue.buffer queue.rear value
        rear := (queue.rear + 1).tmod cfg.rtosQueueSize
        count := queue.count + 1 }
      { queue' with
        buffer := Function.update queue'.buffer queue'.rear value
        rear := (queue'.rear + 1).tmod cfg.rtosQueueSize
        count := queue'.count + 1 } := by
  have hcount := h.count
  obtain ⟨l, hl, hl'⟩ := h
  exact ⟨l ++ [value], hl.sent hfull value, hl'.sent (hcount ▸ hfull) value⟩

/-- Both hand out the same value. -/
theorem MessageQueue.Alike.received {queue queue' : MessageQueue} (h : queue.Alike cfg queue')
    (hempty : queue.count ≠ 0) :
    queue'.buffer queue'.front = queue.buffer queue.front ∧
      MessageQueue.Alike cfg
        { queue with
          front := (queue.front + 1).tmod cfg.rtosQueueSize
          count := queue.count - 1 }
        { queue' with
          front := (queue'.front + 1).tmod cfg.rtosQueueSize
          count := queue'.count - 1 } := by
  obtain ⟨l, hl, hl'⟩ := h
  cases l with
  | nil => exact absurd hl.count_eq (by simpa using hempty)
  | cons v l =>
      obtain ⟨hv, hrest⟩ := hl.received
      obtain ⟨hv', hrest'⟩ := hl'.received
      exact ⟨hv'.trans hv.symm, l, hrest, hrest'⟩

theorem SyncCall.exec_alike (hs : s.Alike s') (ho : o.Alike cfg o') (c : SyncCall) :
    Option.Rel (CallsAlike cfg) (c.exec s o) (c.exec s' o') := by
  have hcurrent := hs.rtosCurrentTask
  have hpark : ∀ r, r ≠ .none → (s.schedulerSetCurrentTaskState .blocked r).Alike
      (s'.schedulerSetCurrentTaskState .blocked r) := fun r hr => hs.apply (.park r hr)
  have hunblock : ∀ r, (s.schedulerUnblockOne r).Alike (s'.schedulerUnblockOne r) :=
    fun r => hs.apply (.unblock r)
  have htaskId : ∀ t, s.rtosCurrentTask = some t →
      (s'.taskList t).taskId = (s.taskList t).taskId :=
    fun t ht => hs.taskId (s.rtosCurrentTask_eq_some.mp ht).2
  cases c with
  | semaphoreInit i n => exact .some ⟨rfl, hs, ho.setSemaphore i _⟩
  | semWait i =>
      simp only [exec, Sched.rtosSemWait, ho.semaphores, hcurrent]
      split_ifs
      · exact rel_map_map fun t ht => ⟨rfl, hs, ho.setSemaphore i _⟩
      · exact rel_map_map fun t ht => ⟨rfl, hpark _ (by simp), ho.setSemaphore i _⟩
  | semSignal i =>
      simp only [exec, Sched.rtosSemSignal, ho.semaphores]
      exact .some ⟨rfl, hunblock _, ho.setSemaphore i _⟩
  | mutexInit i => exact .some ⟨rfl, hs, ho.setMutex i _⟩
  | mutexLock i =>
      simp only [exec, Sched.rtosMutexLock, ho.mutexes, hcurrent]
      split_ifs
      · refine rel_map_map fun t ht => ?_
        simp only [htaskId t ht]
        exact ⟨rfl, hs, ho.setMutex i _⟩
      · refine rel_map_map fun t ht => ?_
        simp only [htaskId t ht]
        split_ifs
        · exact ⟨rfl, hs, ho.setMutex i _⟩
        · exact ⟨rfl, hpark _ (by simp), ho.setMutex i _⟩
  | mutexUnlock i =>
      simp only [exec, Sched.rtosMutexUnlock, ho.mutexes, hcurrent]
      split_ifs
      · exact rel_map_map fun t ht => ⟨rfl, hs, ho.setMutex i _⟩
      · refine rel_map_map fun t ht => ?_
        simp only [htaskId t ht]
        split_ifs
        · exact ⟨rfl, hs, ho.setMutex i _⟩
        · exact ⟨rfl, hunblock _, ho.setMutex i _⟩
  | queueInit i =>
      exact .some ⟨rfl, hs, ho.setQueue i ⟨[], queueInit_represents _, queueInit_represents _⟩⟩
  | queueSend i value =>
      have hq := ho.queues i
      simp only [exec, Sched.rtosQueueSend, hcurrent, hq.count]
      split_ifs with hfull
      · exact rel_map_map fun t ht => ⟨rfl, hpark _ (by simp), ho.setQueue i hq⟩
      · have hsent := hq.sent hfull value
        rw [hq.count] at hsent
        exact rel_map_map fun t ht => ⟨rfl, hunblock _, ho.setQueue i hsent⟩
  | queueReceive i =>
      have hq := ho.queues i
      simp only [exec, Sched.rtosQueueReceive, hcurrent, hq.count]
      split_ifs with hempty
      · exact rel_map_map fun t ht => ⟨rfl, hpark _ (by simp), ho.setQueue i hq⟩
      · obtain ⟨hvalue, hreceived⟩ := hq.received hempty
        rw [hq.count] at hreceived
        refine rel_map_map fun t ht => ⟨?_, hunblock _, ho.setQueue i hreceived⟩
        rw [hvalue]

theorem EventCall.effect_alike (ho : o.Alike cfg o') (c : EventCall) :
    c.effect cfg o' = c.effect cfg o := by
  cases c with
  | set ef mask =>
      cases ef with
      | none => rfl
      | some i => rw [effect, effect, (ho.eventFlags i).flags, (ho.eventFlags i).selected]
  | wait ef mask =>
      cases ef with
      | none => rfl
      | some i =>
          rw [effect, effect, (ho.eventFlags i).flags, (ho.eventFlags i).waiterCount]
  | init ef | clear ef mask | get ef => rfl

theorem EventFlags.Alike.eventFlagsWait (hs : s.Alike s') {ef ef' : EventFlags}
    (h : ef.Alike ef') (mask : BitVec 32) :
    (ef'.eventFlagsWait s' mask).1 = (ef.eventFlagsWait s mask).1 ∧
      (ef.eventFlagsWait s mask).2.1.Alike (ef'.eventFlagsWait s' mask).2.1 := by
  unfold EventFlags.eventFlagsWait
  simp only [h.flags, h.waiterCount]
  split_ifs
  · exact ⟨rfl, h⟩
  · refine ⟨rfl, ?_⟩
    have hcleared := h.setFlags (ef.flags &&& ~~~mask)
    simpa only [h.waiterCount] using hcleared
  · exact ⟨rfl, h⟩
  · refine ⟨rfl, rfl, rfl, fun w hw => ?_⟩
    dsimp only at hw ⊢
    rw [Sched.schedulerCurrentTaskIndex, Sched.schedulerCurrentTaskIndex, hs.currentTaskIndex,
      Function.update_apply, Function.update_apply]
    split_ifs
    · rfl
    · exact h.waiters w (by omega)

theorem EventCall.exec_alike (hs : s.Alike s') (ho : o.Alike cfg o') (c : EventCall) :
    CallsAlike cfg (c.exec s o) (c.exec s' o') := by
  have hsched : (c.exec s o).2.1.Alike (c.exec s' o').2.1 := by
    rw [c.exec_sched, c.exec_sched, c.effect_alike ho]
    exact hs.apply _
  cases c with
  | init ef =>
      cases ef with
      | none => exact ⟨rfl, hs, ho⟩
      | some i => exact ⟨rfl, hs, ho.setEventFlags i (.eventFlagsInit _ _)⟩
  | set ef mask =>
      cases ef with
      | none => exact ⟨rfl, hs, ho⟩
      | some i =>
          exact ⟨rfl, hsched, ho.setEventFlags i ((ho.eventFlags i).eventFlagsSet s s' mask)⟩
  | clear ef mask =>
      cases ef with
      | none => exact ⟨rfl, hs, ho⟩
      | some i =>
          refine ⟨rfl, hs, ho.setEventFlags i ?_⟩
          rw [EventFlags.eventFlagsClear, EventFlags.eventFlagsClear, (ho.eventFlags i).flags]
          exact (ho.eventFlags i).setFlags _
  | wait ef mask =>
      cases ef with
      | none => exact ⟨rfl, hs, ho⟩
      | some i =>
          obtain ⟨hvalue, hflags⟩ := (ho.eventFlags i).eventFlagsWait hs mask
          exact ⟨congrArg Value.bool hvalue, hsched, ho.setEventFlags i hflags⟩
  | get ef =>
      cases ef with
      | none => exact ⟨rfl, hs, ho⟩
      | some i => exact ⟨congrArg Value.word (ho.eventFlags i).flags, hs, ho⟩

theorem rtosCreateTask_result (s : Sched cfg) (p : ℤ) (f : BitVec 64) :
    (s.rtosCreateTask p f).1 = if cfg.rtosMaxTasks ≤ s.taskCount then -1
      else ((s.rtosCreateTask p f).2.taskList s.taskCount).taskId := by
  unfold Sched.rtosCreateTask
  split_ifs <;> rfl

theorem rtosCreateTask_alike (hs : s.Alike s') (p : ℤ) (f : BitVec 64) :
    (s'.rtosCreateTask p f).1 = (s.rtosCreateTask p f).1 := by
  have hsched : (s.rtosCreateTask p f).2.Alike (s'.rtosCreateTask p f).2 :=
    hs.apply (.create p f)
  rw [rtosCreateTask_result, rtosCreateTask_result, hs.taskCount]
  split_ifs with hfull
  · rfl
  · refine hsched.taskId ?_
    rw [Sched.rtosCreateTask_sched, if_neg hfull, Sched.setTaskState_taskCount]
    exact Nat.lt_succ_self s.taskCount

/-- Whatever is looked up by identifier is a control block in use. -/
theorem lookup_alike {α : Type*} (hs : s.Alike s') (taskId : ℤ) (g : TCB → α)
    (hg : ∀ t : TCB, g (t.visible cfg) = g t) {i : ℕ} (hi : s.taskIndexFromId taskId = some i) :
    g (s'.taskList i) = g (s.taskList i) :=
  hs.field (List.mem_range.mp (List.mem_of_find?_eq_some hi)) g hg

theorem TaskCall.effect_alike (hs : s.Alike s') (c : TaskCall) : c.effect s' = c.effect s := by
  cases c with
  | suspend taskId => rw [effect, effect, hs.taskIndexFromId]
  | resume taskId =>
      rw [effect, effect, hs.taskIndexFromId]
      cases h : s.taskIndexFromId taskId with
      | none => rfl
      | some i => simp only [lookup_alike hs taskId TCB.state (fun _ => rfl) h]
  | _ => rfl

theorem TaskCall.value_alike (hs : s.Alike s') (c : TaskCall) : (c.exec s').1 = (c.exec s).1 := by
  cases c with
  | create p f => exact congrArg Value.int (rtosCreateTask_alike hs p f)
  | sleep ticks => rfl
  | suspend taskId =>
      simp only [exec, Sched.rtosSuspendTask, hs.taskIndexFromId]
      cases s.taskIndexFromId taskId <;> rfl
  | resume taskId =>
      simp only [exec, Sched.rtosResumeTask, hs.taskIndexFromId]
      cases h : s.taskIndexFromId taskId with
      | none => rfl
      | some i =>
          simp only [lookup_alike hs taskId TCB.state (fun _ => rfl) h]
          split_ifs <;> rfl
  | getTaskState taskId =>
      simp only [exec, Sched.rtosGetTaskState, hs.taskIndexFromId]
      cases h : s.taskIndexFromId taskId with
      | none => rfl
      | some i => simp only [lookup_alike hs taskId TCB.state (fun _ => rfl) h]
  | readyCount =>
      simp only [exec, Sched.rtosReadyCount, Sched.schedulerReadyCount, hs.readyQueue]
  | getTaskStackBase taskId =>
      simp only [exec, Sched.rtosGetTaskStackBase, hs.taskIndexFromId]
  | getTaskStackPointer taskId =>
      simp only [exec, Sched.rtosGetTaskStackPointer, hs.taskIndexFromId]
      cases h : s.taskIndexFromId taskId with
      | none => rfl
      | some i =>
          rw [Option.map_some, Option.map_some,
            lookup_alike hs taskId TCB.stackPointer (fun _ => rfl) h]
  | getTaskStackSize taskId =>
      simp only [exec, Sched.rtosGetTaskStackSize, hs.taskIndexFromId]
      cases h : s.taskIndexFromId taskId with
      | none => rfl
      | some i => simp only [lookup_alike hs taskId TCB.stackSize (fun _ => rfl) h]
  | currentTask => simp only [exec, hs.rtosCurrentTask]

theorem TaskCall.exec_alike (hs : s.Alike s') (c : TaskCall) :
    (c.exec s').1 = (c.exec s).1 ∧ (c.exec s).2.Alike (c.exec s').2 := by
  refine ⟨c.value_alike hs, ?_⟩
  rw [c.exec_sched, c.exec_sched, c.effect_alike hs]
  exact hs.apply _

end Calls

section Pools
variable {p p' : Pool cfg}

/-- Whether a block is allocated can be read off the stack of free blocks. -/
theorem Pool.Alike.allocated (h : p.Alike p') {i : ℤ} (hi : Pool.IsBlock cfg i) :
    p'.gPoolAllocated i = 0#8 ↔ p.gPoolAllocated i = 0#8 := by
  obtain ⟨l, hl, hl'⟩ := h
  have hfree := hl.free i
  have hfree' := hl'.free i
  simp only [hi, true_and] at hfree hfree'
  exact hfree'.symm.trans hfree

theorem Pool.Alike.memoryInit (p p' : Pool cfg) : p.memoryInit.Alike p'.memoryInit :=
  ⟨_, p.memoryInit_represents, p'.memoryInit_represents⟩

/-- `memory_free` with any address. -/
theorem Pool.Alike.memoryFree (h : p.Alike p') (ptr : BitVec 64) :
    (p.memoryFree ptr).Alike (p'.memoryFree ptr) := by
  by_cases hr : ptr = 0#64 ∨ Pool.blockIndex cfg ptr < 0
  · rw [memoryFree_rejected hr, memoryFree_rejected hr]
    exact h
  obtain ⟨hnull, hidx⟩ := not_or.mp hr
  have hblock := Pool.isBlock_blockIndex hidx
  have hsame := h.allocated hblock
  rw [memoryFree_of_index hnull rfl hblock.1, memoryFree_of_index hnull rfl hblock.1]
  by_cases hfree : p.gPoolAllocated (Pool.blockIndex cfg ptr) = 0#8
  · rw [if_pos hfree, if_pos (hsame.mpr hfree)]
    exact h
  · rw [if_neg hfree, if_neg (mt hsame.mp hfree)]
    obtain ⟨l, hl, hl'⟩ := h
    exact ⟨_, hl.push hblock hfree, hl'.push hblock (mt hsame.mp hfree)⟩

theorem MemoryCall.exec_alike (h : p.Alike p') (c : MemoryCall) :
    Option.Rel (fun r r' => r'.1 = r.1 ∧ r.2.Alike r'.2) (c.exec p) (c.exec p') := by
  cases c with
  | alloc =>
      obtain ⟨l, hl, hl'⟩ := h
      obtain ⟨haddress, hrest⟩ := hl.memoryAlloc
      obtain ⟨haddress', hrest'⟩ := hl'.memoryAlloc
      refine .some ⟨congrArg Value.address ?_, l.tail, hrest, hrest'⟩
      exact haddress'.trans haddress.symm
  | free ptr => exact .some ⟨rfl, h.memoryFree ptr⟩
  | availableBlocks =>
      have hboth := h
      obtain ⟨l, hl, hl'⟩ := hboth
      exact .some ⟨congrArg Value.int (hl'.available.trans hl.available.symm), h⟩
  | write idx offset byte =>
      simp only [exec]
      by_cases hblock : Pool.IsBlock cfg idx
      · have hsame := h.allocated hblock
        simp only [ne_eq, hsame]
        split_ifs with hlive
        · obtain ⟨l, hl, hl'⟩ := h
          have hlive' := mt hsame.mp hlive.2.2.2
          exact .some ⟨rfl, l, hl.clientWrite hlive.2.2.2 _ _, hl'.clientWrite hlive' _ _⟩
        · exact .none
      · rw [if_neg fun hlive => hblock ⟨hlive.1, hlive.2.1⟩,
          if_neg fun hlive => hblock ⟨hlive.1, hlive.2.1⟩]
        exact .none

end Pools

end MiniRtos
