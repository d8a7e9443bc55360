import MiniRtos.ArrayProgram
import MiniRtos.ArrayRefinement
import MiniRtos.BlockOwnership
import MiniRtos.CounterOverflow

/-!
# The program on its arrays is the program

Each access of the whole kernel to an array is within bounds in every run, and on its
arrays the program does what the rest of the development says it does. Besides what makes
the scheduler fit its arrays this needs that indices of message queues and waiter counts
stay in range and that the free list of the pool is sound.
-/
namespace MiniRtos
open CheckedArray TransitionSystem
variable {cfg : Config}

/-- The entries that an index within bounds can reach. -/
def ArrayQueue.of (q : MessageQueue) : ArrayQueue := ⟨fun i => q.buffer i, q.front, q.rear, q.count⟩

def ArrayPool.of (p : Pool cfg) : ArrayPool cfg :=
  ⟨fun i => p.gPoolStorage i, fun i => p.gPoolAllocated i, p.gFreeListHead, p.gAvailableBlocks⟩

def ArrayObjects.of (o : Objects) : ArrayObjects :=
  ⟨o.semaphores, o.mutexes, fun i => .of (o.queues i), o.eventFlags⟩

/-- What keeps the accesses to queues and waiter tables within bounds. -/
structure Objects.InBounds (cfg : Config) (o : Objects) : Prop where
  front : ∀ i, 0 ≤ (o.queues i).front ∧ (o.queues i).front < cfg.rtosQueueSize
  rear : ∀ i, 0 ≤ (o.queues i).rear ∧ (o.queues i).rear < cfg.rtosQueueSize
  waiters : ∀ i, (o.eventFlags i).waiterCount ≤ cfg.rtosEventMaxWaiters

namespace Objects.InBounds
variable {o o' : Objects} {i : ℕ}

theorem setQueue (h : o.InBounds cfg) {q : MessageQueue}
    (hf : 0 ≤ q.front ∧ q.front < cfg.rtosQueueSize)
    (hr : 0 ≤ q.rear ∧ q.rear < cfg.rtosQueueSize) :
    (o.setQueue i q).InBounds cfg := by
  refine ⟨fun j => ?_, fun j => ?_, h.waiters⟩
  · by_cases hj : j = i
    · simpa [Objects.setQueue, hj] using hf
    · simpa [Objects.setQueue, hj] using h.front j
  · by_cases hj : j = i
    · simpa [Objects.setQueue, hj] using hr
    · simpa [Objects.setQueue, hj] using h.rear j

theorem setEventFlags (h : o.InBounds cfg) {ef : EventFlags}
    (hef : ef.waiterCount ≤ cfg.rtosEventMaxWaiters) : (o.setEventFlags i ef).InBounds cfg := by
  refine ⟨h.front, h.rear, fun j => ?_⟩
  by_cases hj : j = i
  · simpa [Objects.setEventFlags, hj] using hef
  · simpa [Objects.setEventFlags, hj] using h.waiters j

theorem sync (h : o.InBounds cfg) {s : Sched cfg} {c : SyncCall} {v : Value} {e : Effect}
    (hc : SyncOutcome s o c v e o') : o'.InBounds cfg := by
  have hpos := cfg.queueSize_pos
  cases hc with
  | queueInit =>
      have hzero : (0 : ℤ) ≤ 0 ∧ (0 : ℤ) < cfg.rtosQueueSize := by omega
      exact h.setQueue hzero hzero
  | @queueSent i value =>
      exact h.setQueue (h.front i) (tmod_queueSize cfg (Int.le_add_one (h.rear i).1))
  | @queueReceived i =>
      exact h.setQueue (tmod_queueSize cfg (Int.le_add_one (h.front i).1)) (h.rear i)
  | _ => exact ⟨h.front, h.rear, h.waiters⟩

theorem event (h : o.InBounds cfg) (s : Sched cfg) (c : EventCall) :
    (c.exec s o).2.2.InBounds cfg := by
  cases c with
  | init ef =>
      cases ef with
      | none => exact h
      | some i => exact h.setEventFlags (Nat.zero_le _)
  | set ef mask =>
      cases ef with
      | none => exact h
      | some i =>
          refine h.setEventFlags (le_trans ?_ (h.waiters i))
          by_cases hm : mask = 0#32
          · simp [EventFlags.eventFlagsSet, hm]
          · have hleft := (o.eventFlags i).eventFlagsSet_waiterCount s hm
            omega
  | clear ef mask =>
      cases ef with
      | none => exact h
      | some i => exact h.setEventFlags (h.waiters i)
  | wait ef mask =>
      cases ef with
      | none => exact h
      | some i =>
          refine h.setEventFlags ?_
          unfold EventFlags.eventFlagsWait
          split_ifs with hm hs hfull
          · exact h.waiters i
          · exact h.waiters i
          · exact h.waiters i
          · exact not_le.mp hfull
  | get ef => cases ef <;> exact h

end Objects.InBounds

namespace ArrayKernel
variable {k : ArrayKernel cfg} {o : Objects}

/-- All accesses are within bounds, and result, scheduler and objects are the same. -/
def Matches (x : Value × ArrayKernel cfg × ArrayObjects) (y : Value × Sched cfg × Objects) : Prop :=
  x.1 = y.1 ∧ x.2.1.abs = y.2.1 ∧ x.2.1.Fits ∧ x.2.2 = .of y.2.2

section Sync

theorem store_buffer (q : MessageQueue) {i : ℤ} (h : 0 ≤ i ∧ i < cfg.rtosQueueSize) (value : ℤ) :
    store cfg.rtosQueueSize (ArrayQueue.of q).buffer i value =
      some (ArrayQueue.of { q with buffer := Function.update q.buffer i value }).buffer := by
  obtain ⟨n, rfl⟩ : ∃ n : ℕ, i = n := ⟨i.toNat, by omega⟩
  rw [store_of_lt _ (by omega)]
  refine congrArg some (funext fun j => ?_)
  simp only [ArrayQueue.of, Function.update_apply, Nat.cast_inj]

theorem load_buffer (q : MessageQueue) {i : ℤ} (h : 0 ≤ i ∧ i < cfg.rtosQueueSize) :
    load cfg.rtosQueueSize (ArrayQueue.of q).buffer i = some (q.buffer i) := by
  obtain ⟨n, rfl⟩ : ∃ n : ℕ, i = n := ⟨i.toNat, by omega⟩
  rw [load_of_lt _ (by omega)]
  rfl

theorem of_setQueue (o : Objects) (i : ℕ) (q : MessageQueue) :
    ArrayObjects.of (o.setQueue i q) = (ArrayObjects.of o).setQueue i (.of q) := by
  simp only [ArrayObjects.of, Objects.setQueue, ArrayObjects.setQueue]
  congr 1
  funext j
  by_cases hj : j = i
  · subst hj
    rw [Function.update_self, Function.update_self]
  · rw [Function.update_of_ne hj, Function.update_of_ne hj]

theorem abs_rtosCurrentTask (k : ArrayKernel cfg) :
    k.abs.rtosCurrentTask = k.rtosCurrentTask := rfl

theorem Fits.current_lt (_ : k.Fits) {t : ℕ} (ht : k.rtosCurrentTask = some t) :
    t < k.taskCount :=
  (k.abs.rtosCurrentTask_eq_some.mp ((abs_rtosCurrentTask k).trans ht)).2

theorem Fits.park (h : k.Fits) (r : BlockReason) :
    Computes (k.schedulerSetCurrentTaskState .blocked r)
      (k.abs.schedulerSetCurrentTaskState .blocked r) :=
  h.setTaskState _ .blocked r

theorem Fits.semWait (h : k.Fits) (o : Objects) (i : ℕ) :
    Option.Rel Matches (k.execSync (.of o) (.semWait i))
      ((SyncCall.semWait i).exec k.abs o) := by
  simp only [ArrayKernel.execSync, ArrayKernel.rtosSemWait, SyncCall.exec, Sched.rtosSemWait,
    abs_rtosCurrentTask, ArrayObjects.of]
  cases k.rtosCurrentTask with
  | none => simp
  | some t =>
      obtain ⟨k', hblock, habs, hfits⟩ := h.park .semaphore
      simp only [Option.bind_some, Option.map_some, hblock]
      split_ifs
      · exact .some ⟨rfl, rfl, h, rfl⟩
      · exact .some ⟨rfl, habs, hfits, rfl⟩

theorem Fits.mutexLock (h : k.Fits) (o : Objects) (i : ℕ) :
    Option.Rel Matches (k.execSync (.of o) (.mutexLock i))
      ((SyncCall.mutexLock i).exec k.abs o) := by
  simp only [ArrayKernel.execSync, ArrayKernel.rtosMutexLock, SyncCall.exec,
    Sched.rtosMutexLock, abs_rtosCurrentTask, ArrayObjects.of]
  cases hc : k.rtosCurrentTask with
  | none => simp
  | some t =>
      obtain ⟨k', hblock, habs, hfits⟩ := h.park .mutex
      simp only [Option.bind_some, Option.map_some, hblock, h.task (h.current_lt hc),
        ← abs_taskList]
      by_cases howner : (o.mutexes i).owner = (k.abs.taskList t).taskId
      · simp only [if_pos howner]
        split_ifs <;> exact .some ⟨rfl, rfl, h, rfl⟩
      · simp only [if_neg howner]
        split_ifs
        · exact .some ⟨rfl, rfl, h, rfl⟩
        · exact .some ⟨rfl, habs, hfits, rfl⟩

theorem Fits.mutexUnlock (h : k.Fits) (o : Objects) (i : ℕ) :
    Option.Rel Matches (k.execSync (.of o) (.mutexUnlock i))
      ((SyncCall.mutexUnlock i).exec k.abs o) := by
  simp only [ArrayKernel.execSync, ArrayKernel.rtosMutexUnlock, SyncCall.exec,
    Sched.rtosMutexUnlock, abs_rtosCurrentTask, ArrayObjects.of]
  cases hc : k.rtosCurrentTask with
  | none => simp
  | some t =>
      obtain ⟨k', hwake, habs, hfits⟩ := h.unblockOne .mutex
      simp only [Option.bind_some, Option.map_some, hwake, h.task (h.current_lt hc),
        ← abs_taskList]
      by_cases howner : (o.mutexes i).owner ≠ (k.abs.taskList t).taskId
      · simp only [if_pos howner]
        split_ifs <;> exact .some ⟨rfl, rfl, h, rfl⟩
      · simp only [if_neg howner]
        split_ifs
        · exact .some ⟨rfl, rfl, h, rfl⟩
        · exact .some ⟨rfl, habs, hfits, rfl⟩

theorem Fits.queueSend (h : k.Fits) (hin : o.InBounds cfg) (i : ℕ) (value : ℤ) :
    Option.Rel Matches (k.execSync (.of o) (.queueSend i value))
      ((SyncCall.queueSend i value).exec k.abs o) := by
  simp only [ArrayKernel.execSync, ArrayKernel.rtosQueueSend, SyncCall.exec,
    Sched.rtosQueueSend, abs_rtosCurrentTask]
  cases k.rtosCurrentTask with
  | none => simp
  | some t =>
      obtain ⟨k₁, hblock, habs₁, hfits₁⟩ := h.park .queueFull
      obtain ⟨k₂, hwake, habs₂, hfits₂⟩ := h.unblockOne .queueEmpty
      have hstore := store_buffer (o.queues i) (hin.rear i) value
      have hcount : ((ArrayObjects.of o).queues i).count = (o.queues i).count := rfl
      simp only [Option.bind_some, Option.map_some, hblock, hwake, hcount]
      split_ifs
      · exact .some ⟨rfl, habs₁, hfits₁, (of_setQueue o i (o.queues i)).symm⟩
      · rw [show store cfg.rtosQueueSize ((ArrayObjects.of o).queues i).buffer
          ((ArrayObjects.of o).queues i).rear value = _ from hstore]
        exact .some ⟨rfl, habs₂, hfits₂, (of_setQueue o i { o.queues i with
          buffer := Function.update (o.queues i).buffer (o.queues i).rear value
          rear := ((o.queues i).rear + 1).tmod cfg.rtosQueueSize
          count := (o.queues i).count + 1 }).symm⟩

theorem Fits.queueReceive (h : k.Fits) (hin : o.InBounds cfg) (i : ℕ) :
    Option.Rel Matches (k.execSync (.of o) (.queueReceive i))
      ((SyncCall.queueReceive i).exec k.abs o) := by
  simp only [ArrayKernel.execSync, ArrayKernel.rtosQueueReceive, SyncCall.exec,
    Sched.rtosQueueReceive, abs_rtosCurrentTask]
  cases k.rtosCurrentTask with
  | none => simp
  | some t =>
      obtain ⟨k₁, hblock, habs₁, hfits₁⟩ := h.park .queueEmpty
      obtain ⟨k₂, hwake, habs₂, hfits₂⟩ := h.unblockOne .queueFull
      have hload := load_buffer (o.queues i) (hin.front i)
      have hcount : ((ArrayObjects.of o).queues i).count = (o.queues i).count := rfl
      simp only [Option.bind_some, Option.map_some, hblock, hwake, hcount]
      split_ifs
      · exact .some ⟨rfl, habs₁, hfits₁, (of_setQueue o i (o.queues i)).symm⟩
      · rw [show load cfg.rtosQueueSize ((ArrayObjects.of o).queues i).buffer
          ((ArrayObjects.of o).queues i).front = _ from hload]
        exact .some ⟨rfl, habs₂, hfits₂, (of_setQueue o i { o.queues i with
          front := ((o.queues i).front + 1).tmod cfg.rtosQueueSize
          count := (o.queues i).count - 1 }).symm⟩

/-- The functions of `rtos.c` on semaphores, mutexes and message queues. -/
theorem Fits.execSync (h : k.Fits) (hin : o.InBounds cfg) (c : SyncCall) :
    Option.Rel Matches (k.execSync (.of o) c) (c.exec k.abs o) := by
  cases c with
  | semaphoreInit i n => exact .some ⟨rfl, rfl, h, rfl⟩
  | mutexInit i => exact .some ⟨rfl, rfl, h, rfl⟩
  | queueInit i => exact .some ⟨rfl, rfl, h, (of_setQueue o i (MiniRtos.queueInit _)).symm⟩
  | semSignal i =>
      obtain ⟨k', hwake, habs, hfits⟩ := h.unblockOne .semaphore
      simp only [ArrayKernel.execSync, ArrayKernel.rtosSemSignal, hwake, Option.map_some,
        SyncCall.exec, Sched.rtosSemSignal]
      exact .some ⟨rfl, habs, hfits, rfl⟩
  | semWait i => exact h.semWait o i
  | mutexLock i => exact h.mutexLock o i
  | mutexUnlock i => exact h.mutexUnlock o i
  | queueSend i value => exact h.queueSend hin i value
  | queueReceive i => exact h.queueReceive hin i

end Sync

section Events

theorem eventFlagsInit_eq (ef : EventFlags) :
    ArrayKernel.eventFlagsInit cfg ef = some (ef.eventFlagsInit cfg) := by
  have hloop : ∃ waiters, forLoop (clearWaiter cfg) cfg.rtosEventMaxWaiters 0 ef.waiters =
      some waiters ∧ waiters = fun i => if i < 0 + cfg.rtosEventMaxWaiters then EventFlags.noWaiter
        else ef.waiters i := by
    refine forLoop_rule (P := fun n waiters => waiters = fun i =>
      if i < n then EventFlags.noWaiter else ef.waiters i) (by simp) ?_
    rintro j waiters hj rfl
    refine ⟨_, store_of_lt _ (by omega) _, ?_⟩
    funext i
    rw [Function.update_apply]
    by_cases hi : i = j
    · simp [hi]
    · simp only [if_neg hi, show i < j + 1 ↔ i < j by omega]
  obtain ⟨waiters, hrun, hwaiters⟩ := hloop
  rw [ArrayKernel.eventFlagsInit, hrun, Option.map_some, hwaiters, Nat.zero_add]
  rfl

theorem removeWaiter_eq {ef : EventFlags} {i : ℕ} (hi : i < ef.waiterCount)
    (hmax : ef.waiterCount ≤ cfg.rtosEventMaxWaiters) :
    ArrayKernel.removeWaiter cfg ef i = some (ef.removeWaiter i) := by
  have hlast : (ef.waiterCount : ℤ) - 1 = (ef.waiterCount - 1 : ℕ) := by omega
  rw [ArrayKernel.removeWaiter, hlast, load_of_lt _ (by omega), Option.bind_some,
    store_of_lt _ (by omega), Option.bind_some, store_of_lt _ (by omega)]
  rfl

/-- The loop walks over slots in use, of which each removal leaves one fewer. -/
theorem Fits.eventFlagsSetLoop (n : ℕ) (h : k.Fits) {ef : EventFlags} (hn : n ≤ ef.waiterCount)
    (hmax : ef.waiterCount ≤ cfg.rtosEventMaxWaiters) :
    ∃ k', ArrayKernel.eventFlagsSetLoop n ef k =
        some ((EventFlags.eventFlagsSetLoop n ef k.abs).1, k') ∧
      k'.abs = (EventFlags.eventFlagsSetLoop n ef k.abs).2 ∧ k'.Fits := by
  induction n generalizing ef k with
  | zero => exact ⟨k, rfl, rfl, h⟩
  | succ n ih =>
      rw [ArrayKernel.eventFlagsSetLoop, EventFlags.eventFlagsSetLoop, load_of_lt _ (by omega),
        Option.bind_some]
      simp only
      by_cases hsat : (!EventFlags.satisfied ef.flags (ef.waiters n).requiredMask) = true
      · rw [if_pos hsat, if_pos hsat]
        exact ih h (by omega) hmax
      · rw [if_neg hsat, if_neg hsat, removeWaiter_eq (by exact hn) (by exact hmax),
          Option.bind_some]
        obtain ⟨k₁, hset, habs, hfits⟩ := h.setTaskState (ef.waiters n).taskIndex .ready .none
        rw [hset, Option.bind_some, ← habs]
        refine ih hfits ?_ ?_ <;> simp only [EventFlags.removeWaiter] <;> omega

/-- The functions of `event.c`. -/
theorem Fits.execEvent (h : k.Fits) (hin : o.InBounds cfg) (c : EventCall) :
    ∃ x, k.execEvent (.of o) c = some x ∧ Matches x (c.exec k.abs o) := by
  cases c with
  | init ef =>
      cases ef with
      | none => exact ⟨_, rfl, rfl, rfl, h, rfl⟩
      | some i =>
          have hinit := @eventFlagsInit_eq cfg (o.eventFlags i)
          exact ⟨_, by rw [ArrayKernel.execEvent]; exact congrArg (Option.map _) hinit,
            rfl, rfl, h, rfl⟩
  | set ef mask =>
      cases ef with
      | none => exact ⟨_, rfl, rfl, rfl, h, rfl⟩
      | some i =>
          obtain ⟨k', hset, habs, hfits⟩ : ∃ k', k.eventFlagsSet (o.eventFlags i) mask =
              some (((o.eventFlags i).eventFlagsSet k.abs mask).1, k') ∧
            k'.abs = ((o.eventFlags i).eventFlagsSet k.abs mask).2 ∧ k'.Fits := by
            unfold ArrayKernel.eventFlagsSet EventFlags.eventFlagsSet
            split_ifs
            · exact ⟨k, rfl, rfl, h⟩
            · exact h.eventFlagsSetLoop _ le_rfl (hin.waiters i)
          exact ⟨_, by rw [ArrayKernel.execEvent]; exact congrArg (Option.map _) hset,
            rfl, habs, hfits, rfl⟩
  | clear ef mask =>
      cases ef with
      | none => exact ⟨_, rfl, rfl, rfl, h, rfl⟩
      | some i => exact ⟨_, rfl, rfl, rfl, h, rfl⟩
  | wait ef mask =>
      cases ef with
      | none => exact ⟨_, rfl, rfl, rfl, h, rfl⟩
      | some i =>
          obtain ⟨k', hwait, habs, hfits⟩ : ∃ k', k.eventFlagsWait (o.eventFlags i) mask =
              some (((o.eventFlags i).eventFlagsWait k.abs mask).1,
                ((o.eventFlags i).eventFlagsWait k.abs mask).2.1, k') ∧
            k'.abs = ((o.eventFlags i).eventFlagsWait k.abs mask).2.2 ∧ k'.Fits := by
            unfold ArrayKernel.eventFlagsWait EventFlags.eventFlagsWait
            split_ifs with hm hs hfull
            · exact ⟨k, rfl, rfl, h⟩
            · exact ⟨k, rfl, rfl, h⟩
            · exact ⟨k, rfl, rfl, h⟩
            · obtain ⟨k', hpark, habs, hfits⟩ := h.setTaskState k.currentTaskIndex .blocked .event
              rw [store_of_lt _ (by omega), Option.bind_some,
                ArrayKernel.schedulerSetCurrentTaskState, hpark]
              exact ⟨k', rfl, habs, hfits⟩
          exact ⟨_, by rw [ArrayKernel.execEvent]; exact congrArg (Option.map _) hwait,
            rfl, habs, hfits, rfl⟩
  | get ef =>
      cases ef with
      | none => exact ⟨_, rfl, rfl, rfl, h, rfl⟩
      | some i => exact ⟨_, rfl, rfl, rfl, h, rfl⟩

end Events
end ArrayKernel

namespace ArrayPool
variable {p q : Pool cfg} {l : List ℤ}

section Blocks
variable {idx : ℤ} (hb : Pool.IsBlock cfg idx)
include hb

theorem load_block {α : Type*} (a : ℤ → α) :
    load cfg.rtosPoolBlockCount (fun i : ℕ => a i) idx = some (a idx) := by
  obtain ⟨n, rfl⟩ : ∃ n : ℕ, idx = n := ⟨idx.toNat, by have := hb.1; omega⟩
  exact load_of_lt _ (by exact_mod_cast hb.2)

theorem store_block {α : Type*} (a : ℤ → α) (x : α) :
    store cfg.rtosPoolBlockCount (fun i : ℕ => a i) idx x =
      some fun i : ℕ => Function.update a idx x i := by
  obtain ⟨n, rfl⟩ : ∃ n : ℕ, idx = n := ⟨idx.toNat, by have := hb.1; omega⟩
  rw [store_of_lt _ (by exact_mod_cast hb.2)]
  refine congrArg some (funext fun j => ?_)
  simp only [Function.update_apply, Nat.cast_inj]

theorem readNextLink_of : (of p).readNextLink idx = some (p.readNextLink idx) := by
  have hsize := cfg.poolBlockSize_int
  have hbyte : ∀ j : ℕ, j < 4 → load cfg.rtosPoolBlockSize (p.gPoolStorage idx) j =
      some (p.gPoolStorage idx j) := fun j hj => load_of_lt _ (by omega)
  rw [ArrayPool.readNextLink, of, load_block hb, Option.bind_some]
  have h₀ := hbyte 0 (by omega)
  have h₁ := hbyte 1 (by omega)
  have h₂ := hbyte 2 (by omega)
  have h₃ := hbyte 3 (by omega)
  push_cast at h₀ h₁ h₂ h₃
  rw [h₀, Option.bind_some, h₁, Option.bind_some, h₂, Option.bind_some, h₃]
  rfl

theorem writeNextLink_of (next : ℤ) :
    (of p).writeNextLink idx next = some (of (p.writeNextLink idx next)) := by
  have hsize := cfg.poolBlockSize_int
  have hloop : ∃ block, forLoop
      (fun j block => store cfg.rtosPoolBlockSize block j (Pool.intByte next j)) 4 0
        (p.gPoolStorage idx) = some block ∧
      block = fun k => if k < 0 + 4 then Pool.intByte next k else p.gPoolStorage idx k := by
    refine forLoop_rule (P := fun n block => block = fun k =>
      if k < n then Pool.intByte next k else p.gPoolStorage idx k) (by simp) ?_
    rintro j block hj rfl
    refine ⟨_, store_of_lt _ (by omega) _, ?_⟩
    funext i
    rw [Function.update_apply]
    by_cases hi : i = j
    · simp [hi]
    · simp only [if_neg hi, show i < j + 1 ↔ i < j by omega]
  obtain ⟨block, hrun, hblock⟩ := hloop
  rw [ArrayPool.writeNextLink, of, load_block hb, Option.bind_some, hrun, Option.bind_some,
    store_block hb, hblock]
  rfl

theorem setAllocated_of (b : BitVec 8) :
    (of p).setAllocated idx b =
      some (of { p with gPoolAllocated := Function.update p.gPoolAllocated idx b }) := by
  rw [ArrayPool.setAllocated, of, store_block hb]
  rfl

end Blocks

theorem memoryInit_of (p : Pool cfg) : (of p).memoryInit = some (of p.memoryInit) := by
  have hloop : ∃ a, forLoop initBlock cfg.rtosPoolBlockCount 0 (of p) = some a ∧
      a = of ((List.range (0 + cfg.rtosPoolBlockCount)).foldl Pool.initBlock p) := by
    refine forLoop_rule (P := fun n a => a = of ((List.range n).foldl Pool.initBlock p)) rfl ?_
    rintro j a hj rfl
    have hb : Pool.IsBlock cfg j := ⟨by omega, by omega⟩
    refine ⟨of (Pool.initBlock ((List.range j).foldl Pool.initBlock p) j), ?_, ?_⟩
    · simp only [ArrayPool.initBlock]
      rw [writeNextLink_of hb, Option.bind_some, setAllocated_of hb]
      rfl
    · rw [List.range_succ, List.foldl_append]
      rfl
  obtain ⟨a, hrun, ha⟩ := hloop
  rw [Nat.zero_add] at ha
  rw [ArrayPool.memoryInit, hrun, Option.map_some, ha]
  rfl

theorem memoryAlloc_of (h : p.Represents l) :
    (of p).memoryAlloc = some (p.memoryAlloc.1, of p.memoryAlloc.2) := by
  unfold ArrayPool.memoryAlloc Pool.memoryAlloc
  have hhead : (of p).gFreeListHead = p.gFreeListHead := rfl
  rw [hhead]
  rcases h.head_link with hend | hb
  · rw [if_pos hend, if_pos hend]
  · have hne : p.gFreeListHead ≠ Pool.poolEndOfList := by
      have hpos : 0 ≤ p.gFreeListHead := hb.1
      rw [Pool.poolEndOfList]
      omega
    rw [if_neg hne, if_neg hne]
    simp only [readNextLink_of hb, Option.bind_some, setAllocated_of hb]
    rfl

theorem memoryFree_of (p : Pool cfg) (ptr : BitVec 64) :
    (of p).memoryFree ptr = some (of (p.memoryFree ptr)) := by
  unfold ArrayPool.memoryFree Pool.memoryFree
  split_ifs with hnull
  · rfl
  · simp only
    by_cases hneg : Pool.blockIndex cfg ptr < 0
    · rw [if_pos hneg, if_pos hneg]
    · have hb := Pool.isBlock_blockIndex hneg
      have hload : load cfg.rtosPoolBlockCount (of p).gPoolAllocated (Pool.blockIndex cfg ptr) =
          some (p.gPoolAllocated (Pool.blockIndex cfg ptr)) := load_block hb _
      rw [if_neg hneg, if_neg hneg, hload, Option.bind_some]
      split_ifs
      · rfl
      · rw [writeNextLink_of hb, Option.bind_some, setAllocated_of hb]
        rfl

/-- The functions of `memory.c` and the stores of clients. -/
theorem exec_of (h : p.Represents l) (c : MemoryCall) :
    (of p).exec c = (c.exec p).map fun r => (r.1, of r.2) := by
  cases c with
  | alloc =>
      simp only [ArrayPool.exec, memoryAlloc_of h, Option.map_some]
      rfl
  | free ptr =>
      simp only [ArrayPool.exec, memoryFree_of, Option.map_some]
      rfl
  | availableBlocks => rfl
  | write idx offset byte =>
      simp only [ArrayPool.exec, MemoryCall.exec]
      by_cases hb : Pool.IsBlock cfg idx
      · have hload : load cfg.rtosPoolBlockCount (of p).gPoolAllocated idx =
            some (p.gPoolAllocated idx) := load_block hb _
        rw [hload, Option.bind_some]
        by_cases hfree : p.gPoolAllocated idx = 0#8
        · rw [if_pos hfree, if_neg fun hw => hw.2.2.2 hfree]
          rfl
        rw [if_neg hfree, ArrayPool.clientWrite, of, load_block hb, Option.bind_some]
        by_cases hoff : offset < cfg.rtosPoolBlockSize
        · rw [if_pos ⟨hb.1, hb.2, hoff, hfree⟩, store_of_lt _ hoff, Option.bind_some,
            store_block hb]
          rfl
        · rw [if_neg fun hw => hoff hw.2.2.1, store, if_neg (by omega)]
          rfl
      · have hnone : load cfg.rtosPoolBlockCount (of p).gPoolAllocated idx = none :=
          if_neg hb
        rw [hnone, if_neg fun hw => hb ⟨hw.1, hw.2.1⟩]
        rfl

end ArrayPool

/-- The arrays stand for the machine. -/
structure ArrayMachine.Stands (x : ArrayMachine cfg) (m : Machine cfg) : Prop where
  abs : x.kernel.abs = m.sched
  fits : x.kernel.Fits
  timer : x.timer = m.timer
  pool : x.pool = .of m.pool
  activeContext : x.activeContext = m.activeContext
  objects : x.objects = .of m.objects

structure ArraySystem.Stands (x : ArraySystem cfg) (u : System cfg) : Prop where
  machine : x.machine.Stands u.machine
  phase : x.phase = u.phase

/-- The same is shown, and the arrays stand for what is left. -/
def ArraySystem.Shows (p : Observation cfg × ArraySystem cfg) (q : Observation cfg × System cfg) :
    Prop := p.1 = q.1 ∧ p.2.Stands q.2

section Steps
variable {x : ArrayMachine cfg} {m : Machine cfg} {l : List ℤ}

theorem ArrayMachine.Stands.exec (h : x.Stands m) (hp : m.pool.Represents l)
    (hin : m.objects.InBounds cfg) (c : Call cfg) :
    Option.Rel (fun p q => p.1 = q.1 ∧ p.2.Stands q.2) (x.exec c) (m.exec c) := by
  obtain ⟨k, timer, pool, active, objects⟩ := x
  obtain ⟨sched, timer', pool', active', o⟩ := m
  obtain ⟨habs, hfits, htimer, hpool, hactive, hobjects⟩ := h
  simp only at habs hfits htimer hpool hactive hobjects hp hin
  subst habs htimer hpool hactive hobjects
  cases c with
  | task c =>
      obtain ⟨k', hrun, habs, hfits'⟩ := hfits.exec c
      simp only [ArrayMachine.exec, hrun, Option.map_some, Machine.exec]
      exact .some ⟨rfl, habs, hfits', rfl, rfl, rfl, rfl⟩
  | sync c =>
      have hrel := hfits.execSync hin c
      simp only [ArrayMachine.exec, Machine.exec]
      generalize k.execSync (.of o) c = x at hrel ⊢
      generalize c.exec k.abs o = y at hrel ⊢
      cases hrel with
      | none => exact .none
      | some hm => exact .some ⟨hm.1, hm.2.1, hm.2.2.1, rfl, rfl, rfl, hm.2.2.2⟩
  | event c =>
      obtain ⟨r, hrun, hm⟩ := hfits.execEvent hin c
      simp only [ArrayMachine.exec, hrun, Option.map_some, Machine.exec]
      exact .some ⟨hm.1, hm.2.1, hm.2.2.1, rfl, rfl, rfl, hm.2.2.2⟩
  | timer c => exact .some ⟨rfl, rfl, hfits, rfl, rfl, rfl, rfl⟩
  | memory c =>
      simp only [ArrayMachine.exec, ArrayPool.exec_of hp, Machine.exec, Option.map_map]
      cases c.exec pool' with
      | none => exact .none
      | some r => exact .some ⟨rfl, rfl, hfits, rfl, rfl, rfl, rfl⟩
  | context c => exact .some ⟨rfl, rfl, hfits, rfl, rfl, rfl, rfl⟩

/-- A step of the program and the step on its arrays. -/
theorem ArraySystem.Stands.step {x : ArraySystem cfg} {u : System cfg} (h : x.Stands u)
    (hinv : Inv u) (hp : u.machine.pool.Represents l) (hin : u.machine.objects.InBounds cfg)
    (a : Action cfg) : Option.Rel Shows (x.step a) (MiniRtos.step u a) := by
  obtain ⟨⟨k, timer, pool, active, objects⟩, phase⟩ := x
  obtain ⟨⟨sched, timer', pool', active', o⟩, phase'⟩ := u
  obtain ⟨⟨habs, hfits, htimer, hpool, hactive, hobjects⟩, hphase⟩ := h
  simp only at habs hfits htimer hpool hactive hobjects hphase hp hin
  subst habs htimer hpool hactive hobjects hphase
  have hm : ArrayMachine.Stands ⟨k, timer, .of pool', active, .of o⟩
      ⟨k.abs, timer, pool', active, o⟩ :=
    ⟨rfl, hfits, rfl, rfl, rfl, rfl⟩
  cases a with
  | init =>
      simp only [ArraySystem.step, MiniRtos.step]
      split_ifs
      · simp only [ArrayMachine.rtosInit, ArrayPool.memoryInit_of, Option.map_some]
        have hfits' : k.schedulerInit.Fits :=
          ⟨Nat.zero_le _, Nat.zero_le _, fun i hi => by cases hi⟩
        exact .some ⟨rfl, ⟨rfl, hfits', rfl, rfl, rfl, rfl⟩, rfl⟩
      · exact .none
  | run n =>
      simp only [ArraySystem.step, MiniRtos.step]
      split_ifs
      · exact .some ⟨rfl, hm, rfl⟩
      · exact .none
  | call c =>
      have hrel := hm.exec hp hin c
      simp only [ArraySystem.step, MiniRtos.step]
      split_ifs
      · generalize ArrayMachine.exec _ c = x at hrel ⊢
        generalize Machine.exec _ c = y at hrel ⊢
        cases hrel with
        | none => exact .none
        | some hm' => exact .some ⟨congrArg Observation.returned hm'.1, hm'.2, rfl⟩
      · exact .none
  | ret =>
      cases phase with
      | callback left i => exact .some ⟨rfl, ⟨rfl, hfits, rfl, rfl, rfl, rfl⟩, rfl⟩
      | task left t =>
          obtain ⟨k', hret, habs, hfits'⟩ := hfits.taskReturned (hinv.task left t rfl).1
          simp only [ArraySystem.step, ArraySystem.ret, hret, Option.map_some]
          exact .some ⟨rfl, ⟨habs, hfits', rfl, rfl, rfl, rfl⟩, rfl⟩
      | _ => exact .none
  | advance =>
      cases phase with
      | cycleTop left =>
          cases left with
          | zero => exact .some ⟨rfl, hm, rfl⟩
          | succ left =>
              obtain ⟨k', htick, habs, hfits'⟩ := hfits.timerUpdateSleep
              simp only [ArraySystem.step, ArraySystem.advance, htick, Option.map_some]
              exact .some ⟨rfl, ⟨habs, hfits', rfl, rfl, rfl, rfl⟩, rfl⟩
      | softTimer left i =>
          simp only [ArraySystem.step, ArraySystem.advance, MiniRtos.step, System.advance]
          split_ifs
          · exact .some ⟨rfl, ⟨rfl, hfits, rfl, rfl, rfl, rfl⟩, rfl⟩
          · exact .some ⟨rfl, ⟨rfl, hfits, rfl, rfl, rfl, rfl⟩, rfl⟩
          · exact .some ⟨rfl, hm, rfl⟩
      | decide left =>
          obtain ⟨k', hdecide, habs, hfits'⟩ := hfits.decide active
          simp only [ArraySystem.step, ArraySystem.advance, hdecide, Option.map_some,
            MiniRtos.step, System.advance]
          cases hr : (k.abs.schedulerRunDecide active).1 with
          | none => exact .some ⟨rfl, ⟨habs, hfits', rfl, rfl, rfl, rfl⟩, rfl⟩
          | some r => exact .some ⟨rfl, ⟨habs, hfits', rfl, rfl, rfl, rfl⟩, rfl⟩
      | _ => exact .none

theorem StepCases.inBounds {u w : System cfg} {a : Action cfg} {b : Observation cfg}
    (h : StepCases u a b w) (hin : u.machine.objects.InBounds cfg) :
    w.machine.objects.InBounds cfg := by
  by_cases hc : ∃ c, a = .call c
  · obtain ⟨c, rfl⟩ := hc
    cases h with
    | call _ hexec =>
        cases Machine.exec_cases hexec with
        | sync hr => exact hin.sync (SyncCall.exec_outcome hr).1
        | @event c => exact hin.event _ c
        | _ => exact hin
  · push Not at hc
    rw [h.objects hc]
    exact hin

end Steps

/-- The arrays stand for a reachable state whose objects are within bounds. -/
structure Tracks (x : ArraySystem cfg) (u : System cfg) : Prop where
  reachable : Reachable u
  inBounds : u.machine.objects.InBounds cfg
  stands : x.Stands u

theorem tracks_bisimulation :
    Bisimulation ArraySystem.step (@step cfg) (@Tracks cfg) := by
  intro x u a h
  obtain ⟨l, hl⟩ := h.reachable.represents
  have hrel := h.stands.step h.reachable.inv hl h.inBounds a
  cases hs : step u a with
  | none =>
      rw [hs] at hrel
      generalize x.step a = y at hrel ⊢
      cases hrel
      exact .none
  | some r =>
      obtain ⟨o, w⟩ := r
      rw [hs] at hrel
      generalize x.step a = y at hrel ⊢
      cases hrel with
      | some hshows =>
          refine .some ⟨hshows.1, ?_, (step_cases hs).inBounds h.inBounds, hshows.2⟩
          exact TransitionSystem.Reachable.extend h.reachable (.snoc .nil hs)

/-- From arrays that stand for a reachable state the program on its arrays has exactly the
runs of the program: it accepts the same actions, so that no access is out of bounds, and
they show the same. -/
theorem array_program {x : ArraySystem cfg} {u : System cfg} (hu : Reachable u)
    (hin : u.machine.objects.InBounds cfg) (hx : x.Stands u) :
    (∀ tr v, Run step u tr v →
      ∃ tr' y, Run ArraySystem.step x tr' y ∧ trace tr' = trace tr ∧ y.Stands v) ∧
    (∀ tr' y, Run ArraySystem.step x tr' y →
      ∃ tr v, Run step u tr v ∧ trace tr' = trace tr ∧ y.Stands v) := by
  have h : Tracks x u := ⟨hu, hin, hx⟩
  constructor
  · intro tr v hr
    obtain ⟨tr', y, hr', htrace, hy⟩ := tracks_bisimulation.symm.run hr h
    exact ⟨tr', y, hr', htrace, hy.stands⟩
  · intro tr' y hr'
    obtain ⟨tr, v, hr, htrace, hy⟩ := tracks_bisimulation.run hr' h
    exact ⟨tr, v, hr, htrace.symm, hy.stands⟩

/-- Static storage and the main program has called `rtos_init` first of all. -/
def ArraySystem.boot (cfg : Config) : ArraySystem cfg where
  machine :=
    { kernel := ⟨(Machine.powerOn cfg).sched.taskList, 0, -1, ⟨fun _ => 0, 0⟩⟩
      timer := TimerState.timerInit
      pool := .of (Machine.powerOn cfg).rtosInit.pool
      activeContext := contextClear
      objects := .of (Machine.powerOn cfg).objects }
  phase := .outside

/-- One task waits for a message and another for flags, and a third supplies both. -/
def suppliedRun : List (Action Config.default) :=
  [.call (.sync (.queueInit 0)), .call (.event (.init (some 0))),
    .call (.task (.create 2 0x1000#64)), .call (.task (.create 2 0x2000#64)),
    .call (.task (.create 1 0x3000#64)), .run 3] ++
    cycleActions _ ++ [.call (.sync (.queueReceive 0)), .ret] ++
    cycleActions _ ++ [.call (.event (.wait (some 0) 1#32)), .ret] ++
    cycleActions _ ++ [.call (.sync (.queueSend 0 7)), .call (.event (.set (some 0) 1#32)),
      .call (.memory .alloc), .ret]

theorem array_program_suppliedRun :
    let r := System.after Config.default suppliedRun
    r.1.length = suppliedRun.length ∧
      ∃ tr y, Run ArraySystem.step (.boot .default) tr y ∧ trace tr = trace r.1 ∧
        y.Stands r.2 := by
  have hfits : (ArraySystem.boot .default).machine.kernel.Fits :=
    ⟨Nat.zero_le _, Nat.zero_le _, by simp [ArraySystem.boot, ReadyArray.entries]⟩
  have hzero : (0 : ℤ) ≤ 0 ∧ (0 : ℤ) < Config.default.rtosQueueSize := by decide
  have hin : (System.boot .default).machine.objects.InBounds Config.default :=
    ⟨fun _ => hzero, fun _ => hzero, fun _ => Nat.zero_le _⟩
  exact ⟨by decide +kernel, (array_program (System.after_reachable []) hin
    ⟨⟨rfl, hfits, rfl, rfl, rfl, rfl⟩, rfl⟩).1 _ _ (run_played _ _)⟩

end MiniRtos
