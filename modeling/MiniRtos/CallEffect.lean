import MiniRtos.SyncOutcome

/-!
# What a kernel call can do to the scheduler

`exec_sched` says that a call acts on the scheduler by its effect and in no other way.
Whatever must hold across all calls is then a case analysis over eight effects and not
over the calls.
-/
namespace MiniRtos
variable {cfg : Config}

theorem TaskCall.exec_sched (s : Sched cfg) (c : TaskCall) :
    (c.exec s).2 = (c.effect s).apply s := by
  cases c with
  | create => rfl
  | sleep => rfl
  | suspend taskId =>
      simp only [exec, effect, Sched.rtosSuspendTask]
      cases s.taskIndexFromId taskId <;> rfl
  | resume taskId =>
      simp only [exec, effect, Sched.rtosResumeTask]
      cases s.taskIndexFromId taskId with
      | none => rfl
      | some i =>
          by_cases h : (s.taskList i).state = .suspended
          · simp [h, Effect.apply]
          · simp [h, Effect.apply]
  | _ => rfl

theorem EventCall.exec_sched (s : Sched cfg) (o : Objects) (c : EventCall) :
    (c.exec s o).2.1 = (c.effect cfg o).apply s := by
  cases c with
  | set ef mask =>
      cases ef with
      | none => rfl
      | some i =>
          simp only [exec, effect, EventFlags.eventFlagsSet]
          split_ifs
          · rfl
          · exact EventFlags.eventFlagsSetLoop_sched _ _ _ le_rfl
  | wait ef mask =>
      cases ef with
      | none => rfl
      | some i =>
          simp only [exec, effect, EventFlags.eventFlagsWait]
          by_cases hm : mask = 0#32
          · simp [hm, Effect.apply]
          by_cases hs : EventFlags.satisfied (o.eventFlags i).flags mask
          · simp [hm, hs, Effect.apply]
          by_cases hf : cfg.rtosEventMaxWaiters ≤ (o.eventFlags i).waiterCount
          · simp [hm, hs, hf, Effect.apply]
          · simp [hm, hs, hf, Effect.apply]
  | init ef => cases ef <;> rfl
  | clear ef mask => cases ef <;> rfl
  | get ef => cases ef <;> rfl

theorem Machine.exec_sched {m m' : Machine cfg} {c : Call cfg} {v : Value}
    (h : m.exec c = some (v, m')) : m'.sched = (m.effect c).apply m.sched := by
  cases exec_cases h with
  | @task c => exact c.exec_sched m.sched
  | sync hc => exact (SyncCall.exec_outcome hc).2
  | @event c => exact c.exec_sched m.sched m.objects
  | _ => rfl

/-- The functions of `event.c` write event flags objects only. -/
theorem EventCall.exec_objects (s : Sched cfg) (o : Objects) (c : EventCall) :
    (c.exec s o).2.2 = { o with eventFlags := (c.exec s o).2.2.eventFlags } := by
  cases c with
  | init ef | get ef => cases ef <;> rfl
  | set ef | clear ef | wait ef => cases ef <;> rfl

namespace Sched
variable {s : Sched cfg}

/-- The table with a new control block at its end, not yet in the queue. -/
def addTask (s : Sched cfg) (priority : ℤ) (taskFunction : BitVec 64) : Sched cfg :=
  { s.modifyTask s.taskCount fun t =>
      { initTaskStack cfg t with
        taskId := s.taskCount + 1
        priority := priority
        state := .suspended
        blockReason := .none
        sleepTicks := 0
        sliceTicksUsed := 0#32
        context := contextInit taskFunction
        taskFunction := taskFunction } with
    taskCount := s.taskCount + 1 }

theorem rtosCreateTask_sched (s : Sched cfg) (p : ℤ) (f : BitVec 64) :
    (s.rtosCreateTask p f).2 =
      if cfg.rtosMaxTasks ≤ s.taskCount then s
      else (s.addTask p f).schedulerSetTaskState s.taskCount .ready .none := by
  unfold rtosCreateTask
  split_ifs <;> rfl

theorem addTask_of_ne (s : Sched cfg) (p : ℤ) (f : BitVec 64) {i : ℕ}
    (h : i ≠ s.taskCount) : (s.addTask p f).taskList i = s.taskList i := by
  simp [addTask, s.modifyTask_of_ne _ h]

theorem Shape.addTask (h : s.Shape) (hc : s.taskCount < cfg.rtosMaxTasks) (p : ℤ)
    (f : BitVec 64) : (s.addTask p f).Shape where
  count_le := hc
  taskId i hi := by
    by_cases he : i = s.taskCount
    · simp [Sched.addTask, he, Sched.modifyTask]
    · rw [s.addTask_of_ne p f he]
      exact h.taskId i (by simp only [Sched.addTask] at hi; omega)
  current_ge := h.current_ge
  current_lt := by
    have := h.current_lt
    simp only [Sched.addTask, modifyTask_currentTaskIndex, Nat.cast_add, Nat.cast_one]
    omega
  nodup := h.nodup
  bounded i hi := Nat.lt_succ_of_lt (h.bounded i hi)

theorem WellFormed.addTask_agrees (h : s.WellFormed) (p : ℤ) (f : BitVec 64) {i : ℕ}
    (hi : i ≠ s.taskCount) : (s.addTask p f).Agrees i := by
  have ht := s.addTask_of_ne p f hi
  have hlt : i < s.taskCount + 1 ↔ i < s.taskCount := by omega
  constructor
  · rw [ht]
    simpa only [Sched.addTask, modifyTask_readyQueue, hlt] using (h.agrees i).queue
  · rw [ht]
    simpa only [Sched.addTask, hlt] using (h.agrees i).reason

theorem WellFormed.rtosCreateTask (h : s.WellFormed) (p : ℤ) (f : BitVec 64) :
    (s.rtosCreateTask p f).2.WellFormed := by
  rw [rtosCreateTask_sched]
  split_ifs with hc
  · exact h
  · exact (h.toShape.addTask (by omega) p f).setTaskState_wellFormed
      (by simp [Sched.addTask]) (fun j hj => h.addTask_agrees p f hj) (by simp)

theorem WellFormed.rtosTaskSleep (h : s.WellFormed) (n : ℤ) :
    (s.rtosTaskSleep n).WellFormed := by
  unfold Sched.rtosTaskSleep
  split
  · exact h
  · exact (h.modifyTask rfl rfl rfl).setTaskState _ (by simp)

theorem WellFormed.schedulerUnblockOne (h : s.WellFormed) (r : BlockReason) :
    (s.schedulerUnblockOne r).WellFormed := by
  unfold Sched.schedulerUnblockOne
  split
  · exact h
  · exact h.setTaskState _ (by simp)

end Sched

namespace Effect
variable {s : Sched cfg}

theorem apply_wellFormed (h : s.WellFormed) (e : Effect) : (e.apply s).WellFormed := by
  cases e with
  | none => exact h
  | create p f => exact h.rtosCreateTask p f
  | sleep n => exact h.rtosTaskSleep n
  | park r hr => exact h.setTaskState _ (by simp [hr])
  | suspend i => exact h.setTaskState _ (by simp)
  | resume i => exact h.setTaskState _ (by simp)
  | unblock r => exact h.schedulerUnblockOne r
  | wake ts =>
      simp only [apply]
      induction ts generalizing s with
      | nil => exact h
      | cons i ts ih => exact ih (h.setTaskState i (by simp))

/-- Besides a creation an effect only sets sleep ticks and task states. -/
theorem apply_induction {P : Sched cfg → Prop} (e : Effect) (h : P s)
    (hcreate : ∀ p f, e = .create p f → P (s.rtosCreateTask p f).2)
    (hsleep : ∀ (t : ℕ) (n : ℤ), e = .sleep n →
      P (s.modifyTask t fun b => { b with sleepTicks := n }))
    (hset : ∀ u i st r, P u → P (u.schedulerSetTaskState i st r)) : P (e.apply s) := by
  cases e with
  | none => exact h
  | create p f => exact hcreate p f rfl
  | sleep n =>
      simp only [apply, Sched.rtosTaskSleep]
      split
      · exact h
      · exact hset _ _ _ _ (hsleep _ n rfl)
  | park r _ => exact hset _ _ _ _ h
  | suspend i => exact hset _ _ _ _ h
  | resume i => exact hset _ _ _ _ h
  | unblock r =>
      simp only [apply, Sched.schedulerUnblockOne]
      split
      · exact h
      · exact hset _ _ _ _ h
  | wake ts =>
      simp only [apply]
      clear hcreate hsleep
      induction ts generalizing s with
      | nil => exact h
      | cons i ts ih => exact ih (hset _ _ _ _ h)

theorem apply_currentTaskIndex (s : Sched cfg) (e : Effect) :
    (e.apply s).currentTaskIndex = s.currentTaskIndex := by
  refine e.apply_induction (P := fun u => u.currentTaskIndex = s.currentTaskIndex) rfl ?_ ?_ ?_
  · intro p f _
    rw [Sched.rtosCreateTask_sched]
    split_ifs <;> simp [Sched.addTask]
  · exact fun _ _ _ => rfl
  · intro u i st r hu
    rw [Sched.setTaskState_currentTaskIndex, hu]

/-- Only a creation makes the table longer. -/
theorem apply_taskCount (s : Sched cfg) {e : Effect} (he : ∀ p f, e ≠ .create p f) :
    (e.apply s).taskCount = s.taskCount := by
  refine e.apply_induction (P := fun u => u.taskCount = s.taskCount) rfl ?_ ?_ ?_
  · exact fun p f hc => absurd hc (he p f)
  · exact fun _ _ _ => rfl
  · intro u i st r hu
    rw [Sched.setTaskState_taskCount, hu]

theorem taskCount_le (s : Sched cfg) (e : Effect) : s.taskCount ≤ (e.apply s).taskCount := by
  cases e with
  | create p f =>
      simp only [apply, Sched.rtosCreateTask_sched]
      split_ifs <;> simp [Sched.addTask]
  | _ => exact (apply_taskCount s (by simp)).ge

/-- A task that was not there before is new, and READY. -/
theorem apply_created (s : Sched cfg) (e : Effect) {i : ℕ} (hi : s.taskCount ≤ i)
    (hlt : i < (e.apply s).taskCount) :
    i = s.taskCount ∧ (e.apply s).status i = (.ready, .none) := by
  cases e with
  | create p f =>
      simp only [apply, Sched.rtosCreateTask_sched] at hlt ⊢
      split_ifs at hlt ⊢ with hc
      · omega
      · simp only [Sched.setTaskState_taskCount, Sched.addTask] at hlt
        have he : i = s.taskCount := by omega
        refine ⟨he, ?_⟩
        rw [Sched.setTaskState_status, if_pos (by simp [he, Sched.addTask])]
        rfl
  | _ =>
      rw [apply_taskCount s (by simp)] at hlt
      omega

/-- No call changes the fields of a task that only the dispatcher may change. -/
theorem apply_sameTask (s : Sched cfg) (e : Effect) {i : ℕ} (hi : i < s.taskCount) :
    Sched.SameTask (s.taskList i) ((e.apply s).taskList i) := by
  refine e.apply_induction (P := fun u => Sched.SameTask (s.taskList i) (u.taskList i))
    (.refl _) ?_ ?_ ?_
  · intro p f _
    rw [Sched.rtosCreateTask_sched]
    split_ifs
    · exact .refl _
    · rw [← s.addTask_of_ne p f hi.ne]
      exact Sched.setTaskState_sameTask _ _ _ _ _
  · intro t n _
    by_cases h : i = t
    · subst h
      simpa using ⟨rfl, rfl, rfl, rfl, rfl⟩
    · rw [s.modifyTask_of_ne _ h]
      exact .refl _
  · exact fun u j st r hu => hu.trans (Sched.setTaskState_sameTask _ _ _ _ _)

/-- One state change, seen from task `i`. -/
theorem changes_of_setTaskState (s : Sched cfg) (j : ℤ) (st : TaskState) (r : BlockReason)
    (i : ℕ) : (s.schedulerSetTaskState j st r).status i = s.status i ∨
      (i : ℤ) = j ∧ i < s.taskCount ∧
        (s.schedulerSetTaskState j st r).status i = (st, if st = .ready then .none else r) := by
  rw [Sched.setTaskState_status]
  by_cases h : (i : ℤ) = j ∧ i < s.taskCount
  · exact .inr ⟨h.1, h.2, if_pos h⟩
  · exact .inl (if_neg h)

/-- The same where the call names the task by its index. -/
theorem changes_of_setTask (s : Sched cfg) (j : ℕ) (st : TaskState) (r : BlockReason) (i : ℕ) :
    (s.schedulerSetTaskState j st r).status i = s.status i ∨
      i = j ∧
        (s.schedulerSetTaskState j st r).status i = (st, if st = .ready then .none else r) := by
  rcases changes_of_setTaskState s j st r i with he | ⟨hi, -, he⟩
  · exact .inl he
  · exact .inr ⟨by exact_mod_cast hi, he⟩

/-- The same of the current task. -/
theorem changes_of_setCurrentTask (s : Sched cfg) (st : TaskState) (r : BlockReason) (i : ℕ) :
    (s.schedulerSetCurrentTaskState st r).status i = s.status i ∨
      s.rtosCurrentTask = some i ∧
        (s.schedulerSetCurrentTaskState st r).status i =
          (st, if st = .ready then .none else r) := by
  rcases changes_of_setTaskState s s.currentTaskIndex st r i with he | ⟨hi, hlt, he⟩
  · exact .inl he
  · exact .inr ⟨s.rtosCurrentTask_eq_some.mpr ⟨hi.symm, hlt⟩, he⟩

/-- A task that gets a status a call did not find it with is one the effect changes. -/
theorem apply_status (s : Sched cfg) (e : Effect) (i : ℕ) :
    (e.apply s).status i = s.status i ∨ e.Changes s i ((e.apply s).status i) := by
  cases e with
  | none => exact .inl rfl
  | create p f =>
      simp only [apply, Sched.rtosCreateTask_sched]
      split_ifs with hc
      · exact .inl rfl
      by_cases hi : i = s.taskCount
      · right
        rw [Sched.setTaskState_status, if_pos (by simp [hi, Sched.addTask])]
        exact .create hi
      · left
        rw [Sched.setTaskState_status, if_neg (by simp [hi]), Sched.status, Sched.status,
          s.addTask_of_ne p f hi]
  | sleep n =>
      simp only [apply, Sched.rtosTaskSleep]
      split
      · exact .inl rfl
      · next t ht =>
        have hstamp := s.modifyTask_field (i := t) (f := fun b => { b with sleepTicks := n })
          (fun b => (b.state, b.blockReason)) rfl i
        rcases changes_of_setCurrentTask (s.modifyTask t fun b => { b with sleepTicks := n })
          .blocked .sleep i with he | ⟨hcur, he⟩
        · exact .inl (he.trans hstamp)
        · rw [he]
          exact .inr (.sleep hcur)
  | park r hr =>
      rcases changes_of_setCurrentTask s .blocked r i with he | ⟨hcur, he⟩
      · exact .inl he
      · simp only [apply, he]
        exact .inr (.park hcur)
  | suspend j =>
      rcases changes_of_setTask s j .suspended .none i with he | ⟨rfl, he⟩
      · exact .inl he
      · simp only [apply, he]
        exact .inr .suspend
  | resume j =>
      rcases changes_of_setTask s j .ready .none i with he | ⟨rfl, he⟩
      · exact .inl he
      · simp only [apply, he]
        exact .inr .resume
  | unblock r =>
      simp only [apply, Sched.schedulerUnblockOne]
      split
      · exact .inl rfl
      · next b hb =>
        rcases changes_of_setTask s b .ready .none i with he | ⟨rfl, he⟩
        · exact .inl he
        · rw [he]
          exact .inr (.unblock (by rw [← hb, Sched.unblockScan_eq]))
  | wake ts =>
      simp only [apply]
      induction ts generalizing s with
      | nil => exact .inl rfl
      | cons j ts ih =>
          rw [List.foldl_cons]
          rcases ih (s.schedulerSetTaskState j .ready .none) with h | h
          · rcases changes_of_setTaskState s j .ready .none i with he | ⟨hi, -, he⟩
            · exact .inl (h.trans he)
            · rw [h, he]
              exact .inr (.wake (by simp [hi]))
          · right
            generalize Sched.status _ i = st at h ⊢
            cases h with
            | wake hm => exact .wake (List.mem_cons_of_mem j hm)

end Effect

end MiniRtos
