import MiniRtos.Timer

/-!
# What the scheduler's primitives do

`scheduler_set_task_state` is the only writer of task states and of the queue, so its
effect is described once: the control block of one task, and the queue without that
task and with it again at the tail if it became ready. The two scans for a best task
compute a first maximum. Agreement of the queue with the control blocks is stated for
one task at a time, because a switch breaks it for the incoming task for a moment.
-/
namespace MiniRtos

/-- The order in which `List.argmax` compares priorities. -/
scoped instance priorityOrder : Preorder ℤ := Int.instLinearOrder.toPreorder

/-- A control block after `scheduler_set_task_state`. -/
def TCB.withState (t : TCB) (state : TaskState) (reason : BlockReason) : TCB :=
  { t with
    state := state
    blockReason := if state = .ready then .none else reason
    sleepTicks := if state = .ready then 0 else t.sleepTicks }

namespace Sched
variable {cfg : Config} (s : Sched cfg)

section Fields
variable (i : ℤ) (st : TaskState) (r : BlockReason)

@[simp] theorem readyQueueEnqueue_taskList : (s.readyQueueEnqueue i).taskList = s.taskList := by
  unfold readyQueueEnqueue
  split_ifs <;> rfl

@[simp] theorem readyQueueEnqueue_taskCount :
    (s.readyQueueEnqueue i).taskCount = s.taskCount := by
  unfold readyQueueEnqueue
  split_ifs <;> rfl

@[simp] theorem readyQueueEnqueue_currentTaskIndex :
    (s.readyQueueEnqueue i).currentTaskIndex = s.currentTaskIndex := by
  unfold readyQueueEnqueue
  split_ifs <;> rfl

@[simp] theorem setTaskState_taskCount :
    (s.schedulerSetTaskState i st r).taskCount = s.taskCount := by
  unfold schedulerSetTaskState
  split_ifs <;> simp [readyQueueRemove]

@[simp] theorem setTaskState_currentTaskIndex :
    (s.schedulerSetTaskState i st r).currentTaskIndex = s.currentTaskIndex := by
  unfold schedulerSetTaskState
  split_ifs <;> simp [readyQueueRemove]

end Fields

@[simp] theorem readyQueuePop_taskList (i : ℕ) : (s.readyQueuePop i).taskList = s.taskList := rfl

@[simp] theorem readyQueuePop_taskCount (i : ℕ) : (s.readyQueuePop i).taskCount = s.taskCount := rfl

@[simp] theorem readyQueuePop_currentTaskIndex (i : ℕ) :
    (s.readyQueuePop i).currentTaskIndex = s.currentTaskIndex := rfl

@[simp] theorem readyQueuePop_readyQueue (i : ℕ) :
    (s.readyQueuePop i).readyQueue = s.readyQueue.erase i := rfl

theorem setTaskState_out_of_range {i : ℤ} (h : i < 0 ∨ (s.taskCount : ℤ) ≤ i)
    (st : TaskState) (r : BlockReason) : s.schedulerSetTaskState i st r = s := by
  simp [schedulerSetTaskState, h]

theorem setTaskState_taskList {i : ℕ} (h : i < s.taskCount) (st : TaskState)
    (r : BlockReason) :
    (s.schedulerSetTaskState i st r).taskList =
      Function.update s.taskList i ((s.taskList i).withState st r) := by
  have hi : ¬ ((i : ℤ) < 0 ∨ (s.taskCount : ℤ) ≤ i) := by omega
  simp only [schedulerSetTaskState, if_neg hi, Int.toNat_natCast]
  by_cases hst : st = .ready
  · simp [hst, modifyTask, readyQueueRemove, TCB.withState]
  · simp [hst, modifyTask, readyQueueRemove, TCB.withState]

theorem setTaskState_self {i : ℕ} (h : i < s.taskCount) (st : TaskState) (r : BlockReason) :
    (s.schedulerSetTaskState i st r).taskList i = (s.taskList i).withState st r := by
  simp [s.setTaskState_taskList h]

theorem setTaskState_of_ne {i : ℤ} {j : ℕ} (h : (j : ℤ) ≠ i) (st : TaskState)
    (r : BlockReason) : (s.schedulerSetTaskState i st r).taskList j = s.taskList j := by
  by_cases hr : i < 0 ∨ (s.taskCount : ℤ) ≤ i
  · rw [s.setTaskState_out_of_range hr]
  · obtain ⟨n, rfl⟩ : ∃ n : ℕ, i = n := ⟨i.toNat, by omega⟩
    rw [s.setTaskState_taskList (by omega), Function.update_of_ne (by omega)]

theorem setTaskState_status (i : ℤ) (st : TaskState) (r : BlockReason) (j : ℕ) :
    (s.schedulerSetTaskState i st r).status j =
      if (j : ℤ) = i ∧ j < s.taskCount then (st, if st = .ready then .none else r)
      else s.status j := by
  by_cases h : (j : ℤ) = i
  · subst h
    by_cases hr : j < s.taskCount
    · simp [status, s.setTaskState_self hr, hr, TCB.withState]
    · rw [s.setTaskState_out_of_range (by omega), if_neg (by simp [hr])]
  · rw [status, s.setTaskState_of_ne h, if_neg (by simp [h]), status]

theorem rtosCurrentTask_eq_some {i : ℕ} :
    s.rtosCurrentTask = some i ↔ s.currentTaskIndex = i ∧ i < s.taskCount := by
  unfold rtosCurrentTask
  split_ifs with h
  · simp only [false_iff, not_and]
    omega
  · simp only [Option.some.injEq]
    omega

/-- The fields no state change touches. -/
structure SameTask (t u : TCB) : Prop where
  taskId : u.taskId = t.taskId
  priority : u.priority = t.priority
  context : u.context = t.context
  taskFunction : u.taskFunction = t.taskFunction
  sliceTicksUsed : u.sliceTicksUsed = t.sliceTicksUsed

theorem SameTask.refl (t : TCB) : SameTask t t := ⟨rfl, rfl, rfl, rfl, rfl⟩

theorem SameTask.trans {t u v : TCB} (h : SameTask t u) (h' : SameTask u v) : SameTask t v :=
  ⟨h'.taskId.trans h.taskId, h'.priority.trans h.priority, h'.context.trans h.context,
    h'.taskFunction.trans h.taskFunction, h'.sliceTicksUsed.trans h.sliceTicksUsed⟩

theorem setTaskState_sameTask (i : ℤ) (st : TaskState) (r : BlockReason) (j : ℕ) :
    SameTask (s.taskList j) ((s.schedulerSetTaskState i st r).taskList j) := by
  by_cases h : (j : ℤ) = i
  · subst h
    by_cases hr : j < s.taskCount
    · rw [s.setTaskState_self hr]
      exact ⟨rfl, rfl, rfl, rfl, rfl⟩
    · rw [s.setTaskState_out_of_range (by omega)]
      exact .refl _
  · rw [s.setTaskState_of_ne h]
    exact .refl _

/-- Sizes, identifiers and the current index, which hold at every moment. -/
structure Shape : Prop where
  count_le : s.taskCount ≤ cfg.rtosMaxTasks
  taskId : ∀ i < s.taskCount, (s.taskList i).taskId = i + 1
  current_ge : -1 ≤ s.currentTaskIndex
  current_lt : s.currentTaskIndex < s.taskCount
  nodup : s.readyQueue.Nodup
  bounded : ∀ i ∈ s.readyQueue, i < s.taskCount

/-- A queue of existing tasks, each at most once, has room for all of them. -/
structure QueueFits : Prop where
  count_le : s.taskCount ≤ cfg.rtosMaxTasks
  nodup : s.readyQueue.Nodup
  bounded : ∀ i ∈ s.readyQueue, i < s.taskCount

/-- The queue and the control block of one task tell the same story. -/
structure Agrees (i : ℕ) : Prop where
  queue : i ∈ s.readyQueue ↔ i < s.taskCount ∧ (s.taskList i).state = .ready
  reason : i < s.taskCount →
    ((s.taskList i).blockReason ≠ .none ↔ (s.taskList i).state = .blocked)

structure WellFormed : Prop extends Shape s where
  agrees : ∀ i, s.Agrees i

variable {s}

theorem QueueFits.queue_length (h : s.QueueFits) : s.readyQueue.length ≤ s.taskCount := by
  have hs : s.readyQueue ⊆ List.range s.taskCount := fun i hi =>
    List.mem_range.mpr (h.bounded i hi)
  simpa using (h.nodup.subperm hs).length_le

theorem Shape.queueFits (h : s.Shape) : s.QueueFits := ⟨h.count_le, h.nodup, h.bounded⟩

theorem Shape.queue_length (h : s.Shape) : s.readyQueue.length ≤ s.taskCount :=
  h.queueFits.queue_length

/-- New tasks do not make an index that was out of range a current task. -/
theorem Shape.rtosCurrentTask_congr (h : s.Shape) {s' : Sched cfg}
    (hcount : s.taskCount ≤ s'.taskCount) (hcur : s'.currentTaskIndex = s.currentTaskIndex) :
    s'.rtosCurrentTask = s.rtosCurrentTask := by
  have hlt := h.current_lt
  unfold rtosCurrentTask
  rw [hcur]
  by_cases hneg : s.currentTaskIndex < 0
  · simp [hneg]
  · rw [if_neg (by omega), if_neg (by omega)]

/-- The two guards of `ready_queue_enqueue` never keep out a task that was just removed. -/
theorem QueueFits.enqueue_removed (h : s.QueueFits) {i : ℕ} (hi : i < s.taskCount) :
    ¬ (cfg.rtosMaxTasks ≤ (s.readyQueue.erase i).length ∨ i ∈ s.readyQueue.erase i) := by
  have hni : i ∉ s.readyQueue.erase i := fun hm => (h.nodup.mem_erase_iff.mp hm).1 rfl
  have hcons : (i :: s.readyQueue.erase i) ⊆ List.range s.taskCount := by
    intro j hj
    rcases List.mem_cons.mp hj with rfl | hj
    · exact List.mem_range.mpr hi
    · exact List.mem_range.mpr (h.bounded j (List.mem_of_mem_erase hj))
  have hlen := ((List.nodup_cons.mpr ⟨hni, h.nodup.erase i⟩).subperm hcons).length_le
  have hmax := h.count_le
  simp only [List.length_cons, List.length_range] at hlen
  rintro (hfull | hmem)
  · omega
  · exact hni hmem

theorem QueueFits.setTaskState_readyQueue (h : s.QueueFits) {i : ℕ} (hi : i < s.taskCount)
    (st : TaskState) (r : BlockReason) :
    (s.schedulerSetTaskState i st r).readyQueue =
      s.readyQueue.erase i ++ if st = .ready then [i] else [] := by
  have hr : ¬ ((i : ℤ) < 0 ∨ (s.taskCount : ℤ) ≤ i) := by omega
  have he := h.enqueue_removed hi
  simp only [schedulerSetTaskState, if_neg hr, Int.toNat_natCast]
  by_cases hst : st = .ready
  · simp only [hst, if_true, readyQueueEnqueue]
    rw [if_neg (by simpa [readyQueueRemove] using hr), if_neg (by simp),
      if_neg (by simpa [readyQueueContains, readyQueueRemove] using he)]
    simp [readyQueueRemove]
  · simp [hst, readyQueueRemove]

/-- A state change in one piece: one control block, and the task's place in the queue. -/
theorem QueueFits.setTaskState_eq (h : s.QueueFits) {i : ℕ} (hi : i < s.taskCount)
    (st : TaskState) (r : BlockReason) :
    s.schedulerSetTaskState i st r =
      { s with
        taskList := Function.update s.taskList i ((s.taskList i).withState st r)
        readyQueue := s.readyQueue.erase i ++ if st = .ready then [i] else [] } := by
  have htasks := s.setTaskState_taskList hi st r
  have hqueue := h.setTaskState_readyQueue hi st r
  have hcount := s.setTaskState_taskCount i st r
  have hcurrent := s.setTaskState_currentTaskIndex i st r
  generalize s.schedulerSetTaskState i st r = s' at *
  cases s'
  cases hcount
  cases hcurrent
  cases hqueue
  cases htasks
  rfl

theorem Shape.setTaskState_readyQueue (h : s.Shape) {i : ℕ} (hi : i < s.taskCount)
    (st : TaskState) (r : BlockReason) :
    (s.schedulerSetTaskState i st r).readyQueue =
      s.readyQueue.erase i ++ if st = .ready then [i] else [] :=
  h.queueFits.setTaskState_readyQueue hi st r

theorem Shape.setTaskState (h : s.Shape) (i : ℤ) (st : TaskState) (r : BlockReason) :
    (s.schedulerSetTaskState i st r).Shape := by
  by_cases hr : i < 0 ∨ (s.taskCount : ℤ) ≤ i
  · rwa [s.setTaskState_out_of_range hr]
  obtain ⟨n, rfl⟩ : ∃ n : ℕ, i = n := ⟨i.toNat, by omega⟩
  have hn : n < s.taskCount := by omega
  have hq := h.setTaskState_readyQueue hn st r
  have hni : n ∉ s.readyQueue.erase n := fun hm => (h.nodup.mem_erase_iff.mp hm).1 rfl
  constructor
  · simpa using h.count_le
  · intro j hj
    rw [(s.setTaskState_sameTask _ st r j).taskId]
    exact h.taskId j (by simpa using hj)
  · simpa using h.current_ge
  · simpa using h.current_lt
  · rw [hq]
    split_ifs
    · exact List.nodup_append.mpr ⟨h.nodup.erase n, by simp, by
        rintro a ha b hb rfl
        exact hni (by simpa using (List.mem_singleton.mp hb) ▸ ha)⟩
    · simpa using h.nodup.erase n
  · intro j hj
    rw [hq, List.mem_append] at hj
    rw [setTaskState_taskCount]
    rcases hj with hj | hj
    · exact h.bounded j (List.mem_of_mem_erase hj)
    · split_ifs at hj
      · rw [List.mem_singleton] at hj
        omega
      · simp at hj

theorem Agrees.setTaskState_of_ne (hs : s.Shape) {i j : ℕ} (h : s.Agrees j) (hj : j ≠ i)
    (hi : i < s.taskCount) (st : TaskState) (r : BlockReason) :
    (s.schedulerSetTaskState i st r).Agrees j := by
  have ht := s.setTaskState_of_ne (i := i) (j := j) (by omega) st r
  constructor
  · rw [hs.setTaskState_readyQueue hi, ht, setTaskState_taskCount, ← h.queue,
      List.mem_append, List.mem_erase_of_ne hj]
    split_ifs <;> simp [hj]
  · rw [ht, setTaskState_taskCount]
    exact h.reason

theorem agrees_setTaskState_self (hs : s.Shape) {i : ℕ} (hi : i < s.taskCount)
    {st : TaskState} {r : BlockReason} (hr : r ≠ .none ↔ st = .blocked) :
    (s.schedulerSetTaskState i st r).Agrees i := by
  have hni : i ∉ s.readyQueue.erase i := fun hm => (hs.nodup.mem_erase_iff.mp hm).1 rfl
  constructor
  · rw [hs.setTaskState_readyQueue hi, s.setTaskState_self hi, setTaskState_taskCount]
    by_cases hst : st = .ready
    · simp [hst, TCB.withState, hi]
    · simp [hst, TCB.withState, hni]
  · intro _
    rw [s.setTaskState_self hi]
    cases st <;> simp_all [TCB.withState]

/-- Setting the state of one task repairs that task, whatever was wrong with it. -/
theorem Shape.setTaskState_wellFormed (hs : s.Shape) {i : ℕ} (hi : i < s.taskCount)
    (ha : ∀ j ≠ i, s.Agrees j) {st : TaskState} {r : BlockReason}
    (hr : r ≠ .none ↔ st = .blocked) : (s.schedulerSetTaskState i st r).WellFormed := by
  refine ⟨hs.setTaskState i st r, fun j => ?_⟩
  by_cases hj : j = i
  · rw [hj]
    exact agrees_setTaskState_self hs hi hr
  · exact (ha j hj).setTaskState_of_ne hs hj hi st r

theorem WellFormed.setTaskState (h : s.WellFormed) (i : ℤ) {st : TaskState}
    {r : BlockReason} (hr : r ≠ .none ↔ st = .blocked) :
    (s.schedulerSetTaskState i st r).WellFormed := by
  by_cases ho : i < 0 ∨ (s.taskCount : ℤ) ≤ i
  · rwa [s.setTaskState_out_of_range ho]
  · obtain ⟨n, rfl⟩ : ∃ n : ℕ, i = n := ⟨i.toNat, by omega⟩
    exact h.toShape.setTaskState_wellFormed (by omega) (fun j _ => h.agrees j) hr

/-- An update of one control block that spares the fields a predicate reads. -/
theorem modifyTask_field {α : Type*} (s : Sched cfg) {i : ℕ} {f : TCB → TCB} (g : TCB → α)
    (h : g (f (s.taskList i)) = g (s.taskList i)) (j : ℕ) :
    g ((s.modifyTask i f).taskList j) = g (s.taskList j) := by
  by_cases hj : j = i
  · subst hj
    simpa using h
  · rw [s.modifyTask_of_ne f hj]

theorem Shape.modifyTask (h : s.Shape) {i : ℕ} {f : TCB → TCB}
    (hid : (f (s.taskList i)).taskId = (s.taskList i).taskId) : (s.modifyTask i f).Shape where
  count_le := h.count_le
  taskId j hj := (s.modifyTask_field TCB.taskId hid j).trans (h.taskId j hj)
  current_ge := h.current_ge
  current_lt := h.current_lt
  nodup := h.nodup
  bounded := h.bounded

theorem Agrees.modifyTask {j : ℕ} (h : s.Agrees j) {i : ℕ} {f : TCB → TCB}
    (hst : (f (s.taskList i)).state = (s.taskList i).state)
    (hr : (f (s.taskList i)).blockReason = (s.taskList i).blockReason) :
    (s.modifyTask i f).Agrees j where
  queue := by
    rw [s.modifyTask_field TCB.state hst j]
    exact h.queue
  reason hj := by
    rw [s.modifyTask_field TCB.state hst j, s.modifyTask_field TCB.blockReason hr j]
    exact h.reason hj

theorem WellFormed.modifyTask (h : s.WellFormed) {i : ℕ} {f : TCB → TCB}
    (hid : (f (s.taskList i)).taskId = (s.taskList i).taskId)
    (hst : (f (s.taskList i)).state = (s.taskList i).state)
    (hr : (f (s.taskList i)).blockReason = (s.taskList i).blockReason) :
    (s.modifyTask i f).WellFormed :=
  ⟨h.toShape.modifyTask hid, fun j => (h.agrees j).modifyTask hst hr⟩

theorem Shape.readyQueuePop (h : s.Shape) (i : ℕ) : (s.readyQueuePop i).Shape where
  count_le := h.count_le
  taskId := h.taskId
  current_ge := h.current_ge
  current_lt := h.current_lt
  nodup := h.nodup.erase i
  bounded j hj := h.bounded j (List.mem_of_mem_erase hj)

theorem Agrees.readyQueuePop {j : ℕ} (h : s.Agrees j) {i : ℕ} (hj : j ≠ i) :
    (s.readyQueuePop i).Agrees j where
  queue := (List.mem_erase_of_ne hj).trans h.queue
  reason := h.reason

section Scans

/-- Priority by index, the key of both scans. -/
abbrev prio (s : Sched cfg) (i : ℕ) : ℤ := (s.taskList i).priority

/-- The entries whose task is READY. -/
def isReady (s : Sched cfg) (i : ℕ) : Bool := (s.taskList i).state = .ready

/-- Moving on by one entry: the position of the first maximum changes only when the new
entry is strictly greater. -/
theorem best_append (f : ℕ → ℤ) {pre : List ℕ} {best : Option ℕ} (x : ℕ)
    (hpos : ∀ pos, best = some pos → pos < pre.length)
    (hbest : best.map (pre.getD · 0) = pre.argmax f) :
    let best' := if best.all fun pos => f (pre.getD pos 0) < f x then some pre.length else best
    (∀ pos, best' = some pos → pos < (pre ++ [x]).length) ∧
      best'.map ((pre ++ [x]).getD · 0) = (pre ++ [x]).argmax f := by
  rw [List.argmax_concat, ← hbest]
  cases hb : best with
  | none => simp
  | some pos =>
      have hp := hpos pos hb
      have hget : (pre ++ [x]).getD pos 0 = pre.getD pos 0 := by
        simp [List.getD, List.getElem?_append_left hp]
      simp only [Option.all_some, decide_eq_true_eq, Option.map_some, List.length_append,
        List.length_singleton]
      split_ifs with hlt
      · simp
      · refine ⟨fun q hq => ?_, by rw [Option.map_some, hget]⟩
        have hq' := Option.some.inj hq
        omega

/-- Loop invariant of the peek: `pre` is scanned and all READY, `best` is the position
of its first maximum, `post` is still to come. -/
theorem peekLoop_spec (passes : ℕ) (pre post : List ℕ) (best : Option ℕ)
    (hp : post.length ≤ passes) (hpre : ∀ j ∈ pre, s.isReady j)
    (hpos : ∀ pos, best = some pos → pos < pre.length)
    (hbest : best.map (pre.getD · 0) = pre.argmax s.prio) :
    (s.peekLoop passes (pre ++ post) pre.length best).1 = pre ++ post.filter s.isReady ∧
      (s.peekLoop passes (pre ++ post) pre.length best).2.map
        ((pre ++ post.filter s.isReady).getD · 0) =
          (pre ++ post.filter s.isReady).argmax s.prio := by
  induction passes generalizing pre post best with
  | zero =>
      have hpost : post = [] := List.length_eq_zero_iff.mp (by omega)
      subst hpost
      simpa [peekLoop] using hbest
  | succ passes ih =>
      cases post with
      | nil => simpa [peekLoop] using hbest
      | cons x post =>
          have hx : (pre ++ x :: post)[pre.length]? = some x := by simp
          simp only [List.length_cons, Nat.add_le_add_iff_right] at hp
          simp only [peekLoop, hx]
          by_cases hr : (s.taskList x).state = .ready
          · -- the entry stays and becomes the last of the scanned part
            have happ : ∀ l : List ℕ, pre ++ x :: l = (pre ++ [x]) ++ l := by simp
            have hf : (x :: post).filter s.isReady = x :: post.filter s.isReady := by
              simp [isReady, hr]
            have hpre' : ∀ j ∈ pre ++ [x], s.isReady j := by
              intro j hj
              rcases List.mem_append.mp hj with hj | hj
              · exact hpre j hj
              · rw [List.mem_singleton.mp hj]
                simpa [isReady] using hr
            have hget : (best.all fun pos => s.prio ((pre ++ x :: post).getD pos 0) < s.prio x) =
                best.all fun pos => s.prio (pre.getD pos 0) < s.prio x := by
              cases hb : best with
              | none => rfl
              | some pos =>
                  have hg : (pre ++ x :: post).getD pos 0 = pre.getD pos 0 := by
                    simp [List.getD, List.getElem?_append_left (hpos pos hb)]
                  simp only [Option.all_some, hg]
            obtain ⟨hpos', hbest'⟩ := best_append s.prio x hpos hbest
            rw [if_neg (by simpa using hr), ← apply_ite (s.peekLoop passes _ _), hget, hf,
              happ post, happ (post.filter _), show pre.length + 1 = (pre ++ [x]).length by simp]
            exact ih _ _ _ hp hpre' hpos' hbest'
          · -- a stale entry: its first occurrence is the one under the index
            have hnx : x ∉ pre := fun hm => hr (by simpa [isReady] using hpre x hm)
            have hf : (x :: post).filter s.isReady = post.filter s.isReady := by
              simp [isReady, hr]
            rw [if_pos hr, List.erase_append_right _ hnx, List.erase_cons_head, hf]
            exact ih _ _ _ hp hpre hpos hbest

/-- The peek deletes the stale entries and returns the first maximum of the rest. -/
theorem peek_eq (s : Sched cfg) :
    s.readyQueuePeekHighestPriority =
      ((s.readyQueue.filter s.isReady).argmax s.prio,
        { s with readyQueue := s.readyQueue.filter s.isReady }) := by
  have h := s.peekLoop_spec s.readyQueue.length [] s.readyQueue none le_rfl (by simp)
    (by simp) (by simp)
  simp only [List.nil_append, List.length_nil] at h
  unfold readyQueuePeekHighestPriority
  simp only [h.1, h.2]

theorem WellFormed.peek_eq (h : s.WellFormed) :
    s.readyQueuePeekHighestPriority = (s.readyQueue.argmax s.prio, s) := by
  have hf : s.readyQueue.filter s.isReady = s.readyQueue := by
    refine List.filter_eq_self.mpr fun i hi => ?_
    simpa [isReady] using ((h.agrees i).queue.mp hi).2
  rw [Sched.peek_eq, hf]

/-- The tasks blocked with a reason, in index order. -/
def blockedOn (s : Sched cfg) (reason : BlockReason) : List ℕ :=
  (List.range s.taskCount).filter fun i => s.status i = (.blocked, reason)

theorem mem_blockedOn {reason : BlockReason} {i : ℕ} :
    i ∈ s.blockedOn reason ↔ i < s.taskCount ∧ s.status i = (.blocked, reason) := by
  simp [blockedOn]

theorem unblockScan_eq (s : Sched cfg) (reason : BlockReason) :
    s.unblockScan reason = (s.blockedOn reason).argmax s.prio := by
  unfold unblockScan blockedOn List.argmax
  rw [List.foldl_filter]
  congr 1
  funext best i
  by_cases hi : s.status i = (.blocked, reason)
  · have hc : ¬ ((s.taskList i).state ≠ .blocked ∨ (s.taskList i).blockReason ≠ reason) := by
      simpa [status, not_or] using hi
    rw [if_neg hc]
    cases best <;> simp [hi, List.argAux]
  · have hc : (s.taskList i).state ≠ .blocked ∨ (s.taskList i).blockReason ≠ reason := by
      rw [← not_and_or]
      simpa [status] using hi
    rw [if_pos hc]
    simp [hi]

end Scans

end Sched

end MiniRtos
