import MiniRtos.ReadyQueue
import Mathlib.Data.List.Nodup

/-!
# Which task a release makes ready

`scheduler_unblock_one` scans the task table for a first maximum of the priority among
the tasks blocked for one reason. The table is scanned by index, so first means lowest
index. What follows the scan is one change of state, which touches the control block of
that task and the tail of the queue.
-/
namespace MiniRtos.Sched
variable {cfg : Config} {s : Sched cfg}

/-- The ready queue holds exactly the READY tasks, each once. -/
structure QueueExact (s : Sched cfg) : Prop where
  count_le : s.taskCount ≤ cfg.rtosMaxTasks
  nodup : s.readyQueue.Nodup
  mem_iff : ∀ i, i ∈ s.readyQueue ↔ i < s.taskCount ∧ (s.taskList i).state = .ready

theorem QueueExact.queueFits (h : s.QueueExact) : s.QueueFits where
  count_le := h.count_le
  nodup := h.nodup
  bounded i hi := ((h.mem_iff i).mp hi).1

theorem WellFormed.queueExact (h : s.WellFormed) : s.QueueExact where
  count_le := h.count_le
  nodup := h.nodup
  mem_iff i := (h.agrees i).queue

theorem QueueExact.blocked_notMem (h : s.QueueExact) {r : BlockReason} {t : ℕ}
    (ht : s.status t = (.blocked, r)) : t ∉ s.readyQueue := by
  intro hm
  have hready := ((h.mem_iff t).mp hm).2
  have hblocked : (s.taskList t).state = .blocked := congrArg Prod.fst ht
  rw [hblocked] at hready
  cases hready

/-- Task `t` is blocked for reason `r`, with the highest priority of all such tasks and
the lowest index of those that share it. -/
structure BestWaiter (s : Sched cfg) (r : BlockReason) (t : ℕ) : Prop where
  exists_task : t < s.taskCount
  blocked : s.status t = (.blocked, r)
  highest : ∀ u < s.taskCount, s.status u = (.blocked, r) →
    (s.taskList u).priority ≤ (s.taskList t).priority
  lowest : ∀ u < s.taskCount, s.status u = (.blocked, r) →
    (s.taskList u).priority = (s.taskList t).priority → t ≤ u

theorem BestWaiter.unique {r : BlockReason} {t u : ℕ} (ht : s.BestWaiter r t)
    (hu : s.BestWaiter r u) : t = u := by
  have htu := ht.highest u hu.exists_task hu.blocked
  have hut := hu.highest t ht.exists_task ht.blocked
  have hprio := le_antisymm htu hut
  exact le_antisymm (ht.lowest u hu.exists_task hu.blocked hprio)
    (hu.lowest t ht.exists_task ht.blocked hprio.symm)

/-- In an increasing list the first occurrence of a smaller number comes first. -/
theorem le_of_idxOf_le {l : List ℕ} (hl : l.Pairwise (· < ·)) {a b : ℕ} (ha : a ∈ l)
    (hb : b ∈ l) (h : l.idxOf a ≤ l.idxOf b) : a ≤ b := by
  have hla := List.idxOf_lt_length_of_mem ha
  have hlb := List.idxOf_lt_length_of_mem hb
  rcases Nat.eq_or_lt_of_le h with heq | hlt
  · exact ((List.idxOf_inj ha).mp heq).le
  · have hget := List.pairwise_iff_getElem.mp hl _ _ hla hlb hlt
    rw [List.getElem_idxOf hla, List.getElem_idxOf hlb] at hget
    exact hget.le

theorem bestWaiter_of_argmax {r : BlockReason} {t : ℕ}
    (h : (s.blockedOn r).argmax s.prio = some t) : s.BestWaiter r t := by
  have hsorted : (s.blockedOn r).Pairwise (· < ·) := List.pairwise_lt_range.filter _
  have ht : t ∈ s.blockedOn r := List.argmax_mem h
  obtain ⟨hlt, hstatus⟩ := mem_blockedOn.mp ht
  constructor
  · exact hlt
  · exact hstatus
  · intro u hu hb
    have hle : s.prio u ≤ s.prio t := List.le_of_mem_argmax (mem_blockedOn.mpr ⟨hu, hb⟩) h
    exact hle
  · intro u hu hb hprio
    have hmem := mem_blockedOn.mpr ⟨hu, hb⟩
    have hfirst := List.index_of_argmax h hmem (show s.prio t ≤ s.prio u from hprio.ge)
    exact le_of_idxOf_le hsorted ht hmem hfirst

/-- A task made READY: the control block it gets and its place in the queue. -/
def makeReady (s : Sched cfg) (t : ℕ) : Sched cfg :=
  { s with
    taskList := Function.update s.taskList t
      { s.taskList t with state := .ready, sleepTicks := 0, blockReason := .none }
    readyQueue := s.readyQueue ++ [t] }

theorem QueueExact.setTaskState_ready (h : s.QueueExact) {t : ℕ} (ht : t < s.taskCount)
    (hq : t ∉ s.readyQueue) : s.schedulerSetTaskState t .ready .none = s.makeReady t := by
  rw [h.queueFits.setTaskState_eq ht, List.erase_of_not_mem hq]
  rfl

/-- The scan either finds no task that is blocked for the reason, or the best of them,
which is not in the queue yet. -/
theorem QueueExact.unblockOne_cases (h : s.QueueExact) (r : BlockReason) :
    (s.blockedOn r = [] ∧ s.schedulerUnblockOne r = s) ∨
      ∃ t, s.BestWaiter r t ∧ t ∉ s.readyQueue ∧ s.schedulerUnblockOne r = s.makeReady t := by
  unfold schedulerUnblockOne
  rw [unblockScan_eq]
  cases hbest : (s.blockedOn r).argmax s.prio with
  | none =>
      left
      exact ⟨List.argmax_eq_none.mp hbest, rfl⟩
  | some t =>
      right
      have hw := bestWaiter_of_argmax hbest
      have hq := h.blocked_notMem hw.blocked
      exact ⟨t, hw, hq, h.setTaskState_ready hw.exists_task hq⟩

theorem BestWaiter.makeReady_changes {r : BlockReason} {t : ℕ} (h : s.BestWaiter r t) (u : ℕ) :
    (s.makeReady t).taskList u ≠ s.taskList u ↔ u = t := by
  constructor
  · intro hne
    by_contra hu
    exact hne (Function.update_of_ne hu _ _)
  · intro hu hsame
    have hblocked : (s.taskList t).state = .blocked := congrArg Prod.fst h.blocked
    have hready := congrArg TCB.state hsame
    rw [hu, hblocked] at hready
    simp [makeReady] at hready

/-- `scheduler_unblock_one` makes READY the best of the tasks blocked for the reason, at
the tail of the queue, and changes nothing if there is none. -/
theorem unblockOne_wakes_best (s : Sched cfg) (h : s.QueueExact) (r : BlockReason) :
    ((∃ t < s.taskCount, s.status t = (.blocked, r)) →
      ∃ t, s.BestWaiter r t ∧ t ∉ s.readyQueue ∧ s.schedulerUnblockOne r = s.makeReady t ∧
        ∀ u, (s.schedulerUnblockOne r).taskList u ≠ s.taskList u ↔ u = t) ∧
    ((∀ t < s.taskCount, s.status t ≠ (.blocked, r)) → s.schedulerUnblockOne r = s) := by
  constructor
  · intro hsome
    obtain ⟨t, ht, hb⟩ := hsome
    rcases h.unblockOne_cases r with hnone | hbest
    · have hm := mem_blockedOn.mpr ⟨ht, hb⟩
      rw [hnone.1] at hm
      cases hm
    · obtain ⟨u, hw, hq, he⟩ := hbest
      refine ⟨u, hw, hq, he, ?_⟩
      rw [he]
      exact hw.makeReady_changes
  · intro hnone
    rcases h.unblockOne_cases r with hsame | hbest
    · exact hsame.2
    · obtain ⟨u, hw, -, -⟩ := hbest
      exact absurd hw.blocked (hnone u hw.exists_task)

/-- Task 1 of priority 7 runs; the others of priorities 5, 5 and 3 wait for a semaphore. -/
def threeWaiters : Sched Config.default where
  taskList i :=
    { taskId := i + 1
      priority := if i = 0 then 3 else if i = 1 then 7 else 5
      state := if i = 1 then .ready else .blocked
      blockReason := if i = 1 then .none else .semaphore
      sleepTicks := 0
      stackMemory := fun _ => 0#64
      stackSize := 256
      stackPointer := 32
      context := contextInit 0#64
      taskFunction := 0x1000#64
      sliceTicksUsed := 0#32 }
  taskCount := 4
  currentTaskIndex := 1
  readyQueue := [1]

theorem threeWaiters_queueExact : threeWaiters.QueueExact where
  count_le := by decide
  nodup := by decide
  mem_iff i := by
    by_cases hi : i = 1
    · simp [threeWaiters, hi]
    · simp [threeWaiters, hi]

/-- Of the two waiters of priority 5 the one with the lower index is made READY. -/
theorem unblockOne_wakes_best_three :
    ∃ t, threeWaiters.BestWaiter .semaphore t ∧ t ∉ threeWaiters.readyQueue ∧
      threeWaiters.schedulerUnblockOne .semaphore = threeWaiters.makeReady t ∧
      ∀ u, (threeWaiters.schedulerUnblockOne .semaphore).taskList u ≠ threeWaiters.taskList u ↔
        u = t :=
  (unblockOne_wakes_best threeWaiters threeWaiters_queueExact .semaphore).1
    ⟨2, by decide, by decide⟩

end MiniRtos.Sched
