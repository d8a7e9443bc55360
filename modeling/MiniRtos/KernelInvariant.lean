import MiniRtos.CallEffect
import MiniRtos.Dispatch

/-!
# The kernel state invariant

The queue, the task states and the block reasons agree in every state a program can
reach, at every call boundary and in both directions, whatever the main program, the
task functions and the timer callbacks call. One inversion lemma says what a step of
the system can be; the invariant is then a case analysis over it.
-/
namespace MiniRtos
open TransitionSystem
variable {cfg : Config}

/-- Everything a step can be. -/
inductive StepCases (s : System cfg) :
    Action cfg → Observation cfg → System cfg → Prop
  | init : s.phase = .outside →
      StepCases s .init .silent ⟨s.machine.rtosInit, .outside⟩
  | run {n : ℤ} : s.phase = .outside →
      StepCases s (.run n) .silent ⟨s.machine, .cycleTop n.toNat⟩
  | call {c : Call cfg} {v : Value} {m : Machine cfg} : s.phase.application = true →
      s.machine.exec c = some (v, m) → StepCases s (.call c) (.returned v) ⟨m, s.phase⟩
  | callbackReturned {left : ℕ} {i : Fin cfg.rtosSoftTimerCount} :
      s.phase = .callback left i →
      StepCases s .ret .silent
        ⟨{ s.machine with timer := s.machine.timer.timerCallbackReturned i },
          .softTimer left (i.val + 1)⟩
  | taskReturned {left t : ℕ} : s.phase = .task left t →
      StepCases s .ret .silent
        ⟨{ s.machine with sched := s.machine.sched.taskReturned t }, .cycleTop left⟩
  | runDone : s.phase = .cycleTop 0 → StepCases s .advance .silent ⟨s.machine, .outside⟩
  | tick {left : ℕ} : s.phase = .cycleTop (left + 1) →
      StepCases s .advance .silent
        ⟨{ s.machine with
            timer := s.machine.timer.timerTick
            sched := s.machine.sched.timerUpdateSleep }, .softTimer left 0⟩
  | slotSkipped {left : ℕ} {i : Fin cfg.rtosSoftTimerCount} :
      s.phase = .softTimer left i.val → (s.machine.timer.timerUpdateSoftSlot i).1 = false →
      StepCases s .advance .silent
        ⟨{ s.machine with timer := (s.machine.timer.timerUpdateSoftSlot i).2 },
          .softTimer left (i.val + 1)⟩
  | callbackCalled {left : ℕ} {i : Fin cfg.rtosSoftTimerCount} {f a : BitVec 64} :
      s.phase = .softTimer left i.val → (s.machine.timer.timerUpdateSoftSlot i).1 = true →
      StepCases s .advance (.callbackCalled i f a)
        ⟨{ s.machine with timer := (s.machine.timer.timerUpdateSoftSlot i).2 },
          .callback left i⟩
  | passDone {left i : ℕ} : s.phase = .softTimer left i → cfg.rtosSoftTimerCount ≤ i →
      StepCases s .advance .silent ⟨s.machine, .decide left⟩
  | idle {left : ℕ} {sched : Sched cfg} {active : CPUContext} : s.phase = .decide left →
      s.machine.sched.schedulerRunDecide s.machine.activeContext = (none, sched, active) →
      StepCases s .advance .idle
        ⟨{ s.machine with sched := sched, activeContext := active }, .cycleTop left⟩
  | taskCalled {left t : ℕ} {b : Sched.Branch} {sched : Sched cfg} {active : CPUContext} :
      s.phase = .decide left →
      s.machine.sched.schedulerRunDecide s.machine.activeContext = (some (b, t), sched, active) →
      StepCases s .advance (.taskCalled b t)
        ⟨{ s.machine with sched := sched, activeContext := active }, .task left t⟩

theorem step_cases {s s' : System cfg} {a : Action cfg} {o : Observation cfg}
    (h : step s a = some (o, s')) : StepCases s a o s' := by
  obtain ⟨m, phase⟩ := s
  cases a with
  | init =>
      simp only [step] at h
      split_ifs at h with hp
      obtain ⟨rfl, rfl⟩ := Prod.mk.inj (Option.some.inj h)
      change phase = _ at hp
      subst hp
      exact .init rfl
  | run n =>
      simp only [step] at h
      split_ifs at h with hp
      obtain ⟨rfl, rfl⟩ := Prod.mk.inj (Option.some.inj h)
      exact .run hp
  | call c =>
      simp only [step] at h
      split_ifs at h with hp
      obtain ⟨⟨v, m'⟩, hr, he⟩ := Option.map_eq_some_iff.mp h
      obtain ⟨rfl, rfl⟩ := Prod.mk.inj he
      exact .call hp hr
  | ret =>
      cases phase with
      | callback left i =>
          obtain ⟨rfl, rfl⟩ := Prod.mk.inj (Option.some.inj h)
          exact .callbackReturned rfl
      | task left t =>
          obtain ⟨rfl, rfl⟩ := Prod.mk.inj (Option.some.inj h)
          exact .taskReturned rfl
      | _ => cases h
  | advance =>
      cases phase with
      | cycleTop left =>
          cases left with
          | zero =>
              obtain ⟨rfl, rfl⟩ := Prod.mk.inj (Option.some.inj h)
              exact .runDone rfl
          | succ left =>
              obtain ⟨rfl, rfl⟩ := Prod.mk.inj (Option.some.inj h)
              exact .tick rfl
      | softTimer left i =>
          simp only [step, System.advance] at h
          split_ifs at h with hi hf
          · obtain ⟨rfl, rfl⟩ := Prod.mk.inj (Option.some.inj h)
            exact .callbackCalled (i := ⟨i, hi⟩) rfl hf
          · obtain ⟨rfl, rfl⟩ := Prod.mk.inj (Option.some.inj h)
            exact .slotSkipped (i := ⟨i, hi⟩) rfl (by simpa using hf)
          · obtain ⟨rfl, rfl⟩ := Prod.mk.inj (Option.some.inj h)
            exact .passDone rfl (not_lt.mp hi)
      | decide left =>
          simp only [step, System.advance] at h
          rcases hd : m.sched.schedulerRunDecide m.activeContext with ⟨_ | ⟨b, t⟩, sched, active⟩
          · simp only [hd] at h
            obtain ⟨rfl, rfl⟩ := Prod.mk.inj (Option.some.inj h)
            exact .idle rfl hd
          · simp only [hd] at h
            obtain ⟨rfl, rfl⟩ := Prod.mk.inj (Option.some.inj h)
            exact .taskCalled rfl hd
      | _ => cases h

/-- Application objects change in calls only. -/
theorem StepCases.objects {u w : System cfg} {a : Action cfg} {o : Observation cfg}
    (h : StepCases u a o w) (ha : ∀ c, a ≠ .call c) : w.machine.objects = u.machine.objects := by
  cases h with
  | call => exact absurd rfl (ha _)
  | _ => rfl

namespace Sched
variable {s : Sched cfg}

theorem WellFormed.updateSleepTask (h : s.WellFormed) (i : ℕ) :
    (s.updateSleepTask i).WellFormed := by
  have hm : (s.modifyTask i fun t => { t with sleepTicks := t.sleepTicks - 1 }).WellFormed :=
    h.modifyTask rfl rfl rfl
  unfold Sched.updateSleepTask
  simp only
  split_ifs
  · exact h
  · exact hm.setTaskState _ (by simp)
  · exact hm

theorem updateSleepTask_status (s : Sched cfg) (i j : ℕ) :
    (s.updateSleepTask i).status j = s.status j ∨
      s.status j = (.blocked, .sleep) ∧ (s.updateSleepTask i).status j = (.ready, .none) := by
  have hm : ∀ k, (s.modifyTask i fun t => { t with sleepTicks := t.sleepTicks - 1 }).status k =
      s.status k := s.modifyTask_field (fun t => (t.state, t.blockReason)) rfl
  unfold updateSleepTask
  simp only
  split_ifs with hb hz
  · exact .inl rfl
  · simp only [setTaskState_status, Int.natCast_inj, hm]
    by_cases h : j = i ∧ j < (s.modifyTask i fun t =>
        { t with sleepTicks := t.sleepTicks - 1 }).taskCount
    · right
      rw [if_pos h, h.1]
      push Not at hb
      exact ⟨Prod.ext hb.1 hb.2, rfl⟩
    · exact .inl (if_neg h)
  · exact .inl (hm j)

@[simp] theorem updateSleepTask_taskCount (s : Sched cfg) (i : ℕ) :
    (s.updateSleepTask i).taskCount = s.taskCount := by
  unfold updateSleepTask
  simp only
  split_ifs <;> simp

@[simp] theorem updateSleepTask_currentTaskIndex (s : Sched cfg) (i : ℕ) :
    (s.updateSleepTask i).currentTaskIndex = s.currentTaskIndex := by
  unfold updateSleepTask
  simp only
  split_ifs <;> simp

/-- A property that one pass of the sleep loop keeps holds after the loop. -/
theorem timerUpdateSleep_induction {P : Sched cfg → Prop} (h : P s)
    (hstep : ∀ s i, P s → P (s.updateSleepTask i)) : P s.timerUpdateSleep := by
  unfold timerUpdateSleep
  generalize List.range s.taskCount = l
  induction l generalizing s with
  | nil => exact h
  | cons i l ih => exact ih (hstep s i h)

theorem WellFormed.timerUpdateSleep (h : s.WellFormed) : s.timerUpdateSleep.WellFormed :=
  timerUpdateSleep_induction h fun _ i hs => hs.updateSleepTask i

@[simp] theorem timerUpdateSleep_taskCount (s : Sched cfg) :
    s.timerUpdateSleep.taskCount = s.taskCount :=
  timerUpdateSleep_induction (P := fun u => u.taskCount = s.taskCount) rfl
    fun _ _ hs => by simpa using hs

@[simp] theorem timerUpdateSleep_currentTaskIndex (s : Sched cfg) :
    s.timerUpdateSleep.currentTaskIndex = s.currentTaskIndex :=
  timerUpdateSleep_induction (P := fun u => u.currentTaskIndex = s.currentTaskIndex) rfl
    fun _ _ hs => by simpa using hs

/-- The tick only ever wakes sleepers. -/
theorem timerUpdateSleep_status (s : Sched cfg) (j : ℕ) :
    s.timerUpdateSleep.status j = s.status j ∨
      s.status j = (.blocked, .sleep) ∧ s.timerUpdateSleep.status j = (.ready, .none) := by
  refine timerUpdateSleep_induction
    (P := fun u => u.status j = s.status j ∨
      s.status j = (.blocked, .sleep) ∧ u.status j = (.ready, .none)) (.inl rfl) ?_
  intro u i hu
  rcases u.updateSleepTask_status i j with h | ⟨h, h'⟩
  · rwa [h]
  · rcases hu with hu | ⟨-, hu⟩
    · exact .inr ⟨hu ▸ h, h'⟩
    · simp [hu] at h

theorem updateSleepTask_sameTask (s : Sched cfg) (i j : ℕ) :
    SameTask (s.taskList j) ((s.updateSleepTask i).taskList j) := by
  have hm : SameTask (s.taskList j)
      ((s.modifyTask i fun t => { t with sleepTicks := t.sleepTicks - 1 }).taskList j) :=
    ⟨s.modifyTask_field TCB.taskId rfl j, s.modifyTask_field TCB.priority rfl j,
      s.modifyTask_field TCB.context rfl j, s.modifyTask_field TCB.taskFunction rfl j,
      s.modifyTask_field TCB.sliceTicksUsed rfl j⟩
  unfold updateSleepTask
  simp only
  split_ifs
  · exact .refl _
  · exact hm.trans (setTaskState_sameTask _ _ _ _ j)
  · exact hm

theorem timerUpdateSleep_sameTask (s : Sched cfg) (j : ℕ) :
    SameTask (s.taskList j) (s.timerUpdateSleep.taskList j) :=
  timerUpdateSleep_induction (P := fun u => SameTask (s.taskList j) (u.taskList j)) (.refl _)
    fun u i hu => hu.trans (u.updateSleepTask_sameTask i j)

end Sched

/-- Agreement of queue and table, and a running task only while its function runs. -/
structure Inv (s : System cfg) : Prop where
  wellFormed : s.machine.sched.WellFormed
  running : ∀ i < s.machine.sched.taskCount,
    (s.machine.sched.taskList i).state = .running → ∃ left, s.phase = .task left i
  task : ∀ left t, s.phase = .task left t →
    t < s.machine.sched.taskCount ∧ s.machine.sched.currentTaskIndex = t

theorem Sched.wellFormed_init (s : Sched cfg) :
    ({ s with taskCount := 0, currentTaskIndex := -1, readyQueue := [] } : Sched cfg).WellFormed where
  count_le := by simp
  taskId i hi := by simp at hi
  current_ge := by simp
  current_lt := by simp
  nodup := by simp
  bounded i hi := by simp at hi
  agrees i := ⟨by simp, by simp⟩

theorem Inv.init (m : Machine cfg) : Inv ⟨m.rtosInit, .outside⟩ where
  wellFormed := m.sched.wellFormed_init
  running i hi := by simp [Machine.rtosInit] at hi
  task left t h := by cases h

theorem Initial.inv {s : System cfg} (h : Initial s) : Inv s := by
  obtain ⟨m, phase⟩ := s
  obtain ⟨rfl, m', rfl⟩ := h
  exact .init m'

/-- A call leaves the phase alone and makes no task running. -/
theorem Inv.call {s : System cfg} (h : Inv s) {c : Call cfg} {v : Value} {m : Machine cfg}
    (hc : s.machine.exec c = some (v, m)) : Inv ⟨m, s.phase⟩ := by
  have hs := Machine.exec_sched hc
  refine ⟨hs ▸ Effect.apply_wellFormed h.wellFormed _, fun i hi hr => ?_, fun left t hp => ?_⟩
  · simp only [hs] at hi hr
    have hst : ((s.machine.effect c).apply s.machine.sched).status i =
        (.running, ((s.machine.effect c).apply s.machine.sched).taskList i |>.blockReason) :=
      Prod.ext hr rfl
    by_cases hlt : i < s.machine.sched.taskCount
    · rcases Effect.apply_status s.machine.sched (s.machine.effect c) i with he | he
      · exact h.running i hlt (congrArg Prod.fst (he.symm.trans hst))
      · exact absurd hr he.not_running
    · have := (Effect.apply_created _ _ (not_lt.mp hlt) hi).2
      simp [hst] at this
  · obtain ⟨hlt, hcur⟩ := h.task left t hp
    simp only [hs]
    exact ⟨hlt.trans_le (Effect.taskCount_le _ _), by rw [Effect.apply_currentTaskIndex, hcur]⟩

theorem Inv.not_running {s : System cfg} (h : Inv s) (hp : ∀ left t, s.phase ≠ .task left t) :
    ∀ i < s.machine.sched.taskCount, (s.machine.sched.taskList i).state ≠ .running := by
  intro i hi hr
  obtain ⟨left, he⟩ := h.running i hi hr
  exact hp left i he

/-- Outside task functions nothing runs, so it suffices that no state became running. -/
theorem Inv.of_not_running {s : System cfg} (hw : s.machine.sched.WellFormed)
    (hr : ∀ i < s.machine.sched.taskCount, (s.machine.sched.taskList i).state ≠ .running)
    (hp : ∀ left t, s.phase ≠ .task left t) : Inv s :=
  ⟨hw, fun i hi h => absurd h (hr i hi), fun left t h => absurd h (hp left t)⟩

theorem Inv.decides {s : System cfg} (h : Inv s) {left : ℕ} (hp : s.phase = .decide left) :
    s.machine.sched.Decides s.machine.activeContext
      (s.machine.sched.schedulerRunDecide s.machine.activeContext) :=
  h.wellFormed.decides _ (h.not_running (by simp [hp]))

/-- The task that returns is put back to READY if it is still running, and no other
task runs. -/
theorem Inv.taskReturned {s : System cfg} (h : Inv s) {left t : ℕ} (hp : s.phase = .task left t) :
    Inv ⟨{ s.machine with sched := s.machine.sched.taskReturned t }, .cycleTop left⟩ := by
  refine .of_not_running (h.wellFormed.taskReturned t) (fun i hi hr => ?_) (by simp)
  simp only [Sched.taskReturned_taskCount] at hi
  have hst : (s.machine.sched.taskReturned t).status i =
    (.running, (s.machine.sched.taskReturned t).taskList i |>.blockReason) := Prod.ext hr rfl
  rcases s.machine.sched.taskReturned_status t i with he | ⟨-, -, he⟩
  · have hri : (s.machine.sched.taskList i).state = .running :=
      congrArg Prod.fst (he.symm.trans hst)
    obtain ⟨l, hl⟩ := h.running i hi hri
    obtain ⟨-, rfl⟩ := Phase.task.inj (hp.symm.trans hl)
    have : (s.machine.sched.taskReturned t).status t = (.ready, .none) := by
      rw [Sched.taskReturned, if_pos hri, Sched.setTaskState_status, if_pos ⟨rfl, hi⟩]
      rfl
    simp [hst] at this
  · simp [hst] at he

theorem Inv.step {s s' : System cfg} {a : Action cfg} {o : Observation cfg} (h : Inv s)
    (hs : step s a = some (o, s')) : Inv s' := by
  cases step_cases hs with
  | init _ => exact .init _
  | run hp => exact .of_not_running h.wellFormed (h.not_running (by simp [hp])) (by simp)
  | call _ hc => exact h.call hc
  | callbackReturned hp =>
      exact .of_not_running h.wellFormed (h.not_running (by simp [hp])) (by simp)
  | taskReturned hp => exact h.taskReturned hp
  | runDone hp => exact .of_not_running h.wellFormed (h.not_running (by simp [hp])) (by simp)
  | tick hp =>
      refine .of_not_running h.wellFormed.timerUpdateSleep (fun i hi hr => ?_) (by simp)
      simp only [Sched.timerUpdateSleep_taskCount] at hi
      have hnr := h.not_running (by simp [hp]) i hi
      rcases s.machine.sched.timerUpdateSleep_status i with he | ⟨-, he⟩
      · exact hnr ((congrArg Prod.fst he).symm.trans hr)
      · cases hr.symm.trans (congrArg Prod.fst he)
  | slotSkipped hp _ =>
      exact .of_not_running h.wellFormed (h.not_running (by simp [hp])) (by simp)
  | callbackCalled hp _ =>
      exact .of_not_running h.wellFormed (h.not_running (by simp [hp])) (by simp)
  | passDone hp _ =>
      exact .of_not_running h.wellFormed (h.not_running (by simp [hp])) (by simp)
  | idle hp hd =>
      obtain ⟨-, rfl, rfl⟩ := Sched.Decides.idles (hd ▸ h.decides hp)
      refine .of_not_running (h.wellFormed.resetSlice _) (fun i hi hr => ?_) (by simp)
      have he := Sched.resetSlice_status s.machine.sched s.machine.sched.rtosCurrentTask i
      exact h.not_running (by simp [hp]) i (by simpa using hi)
        ((congrArg Prod.fst he).symm.trans hr)
  | @taskCalled left t b sched active hp hd =>
      have r := Sched.Decides.runs h.wellFormed (hd ▸ h.decides hp)
      refine ⟨r.wellFormed, fun i hi hr => ?_, fun l u hl => ?_⟩
      · by_cases hit : i = t
        · exact ⟨left, by rw [hit]⟩
        · have he := r.status i
          rw [if_neg hit] at he
          refine absurd ((congrArg Prod.fst he).symm.trans hr) ?_
          exact h.not_running (by simp [hp]) i (by simpa [r.taskCount] using hi)
      · cases hl
        exact ⟨r.taskCount ▸ (h.wellFormed.mem_queue.mp r.chosen).1, r.current⟩

theorem Reachable.inv {s : System cfg} (h : Reachable s) : Inv s :=
  h.invariant (fun _ => Initial.inv) fun _ _ _ _ hu hs => hu.step hs

/-- The state changes a kernel call makes one after the other. -/
def Sched.setTaskStates (s : Sched cfg) (changes : List (ℤ × TaskState × BlockReason)) :
    Sched cfg :=
  changes.foldl (fun s c => s.schedulerSetTaskState c.1 c.2.1 c.2.2) s

theorem Sched.Shape.setTaskStates {s : Sched cfg} (h : s.Shape)
    (changes : List (ℤ × TaskState × BlockReason)) :
    (s.setTaskStates changes).Shape ∧ (s.setTaskStates changes).taskCount = s.taskCount := by
  induction changes generalizing s with
  | nil => exact ⟨h, rfl⟩
  | cons c changes ih =>
      obtain ⟨hs, hc⟩ := ih (h.setTaskState c.1 c.2.1 c.2.2)
      exact ⟨hs, hc.trans (by simp)⟩

theorem Sched.Shape.remove_length_lt {s : Sched cfg} (h : s.Shape) {i : ℕ}
    (hi : i < s.taskCount) : (s.readyQueueRemove i).readyQueue.length < cfg.rtosMaxTasks := by
  have he := h.queueFits.enqueue_removed hi
  push Not at he
  exact he.1

theorem Sched.WellFormed.readyCount_eq {s : Sched cfg} (h : s.WellFormed) :
    s.rtosReadyCount = (List.range s.taskCount).countP s.isReady := by
  have hp : s.readyQueue.Perm ((List.range s.taskCount).filter s.isReady) := by
    refine (List.perm_ext_iff_of_nodup h.nodup (List.nodup_range.filter _)).mpr fun i => ?_
    simp [h.mem_queue, Sched.isReady]
  rw [List.countP_eq_length_filter]
  exact hp.length_eq

/-- Queue, states and block reasons agree, at one moment between two kernel calls. -/
structure Consistent (s : System cfg) : Prop where
  nodup : s.machine.sched.readyQueue.Nodup
  queue : ∀ i, i ∈ s.machine.sched.readyQueue ↔
    i < s.machine.sched.taskCount ∧ (s.machine.sched.taskList i).state = .ready
  /-- Whatever states a call sets on its way, `ready_queue_enqueue` never finds the queue
  full when it is handed the task that was just removed. -/
  room : ∀ changes, ∀ i < s.machine.sched.taskCount,
    ((s.machine.sched.setTaskStates changes).readyQueueRemove i).readyQueue.length <
      cfg.rtosMaxTasks
  /-- Nor when it is handed a new task. -/
  roomForNew : s.machine.sched.taskCount < cfg.rtosMaxTasks →
    s.machine.sched.readyQueue.length < cfg.rtosMaxTasks
  readyCount : s.machine.sched.rtosReadyCount =
    (List.range s.machine.sched.taskCount).countP s.machine.sched.isReady
  running : ∀ i < s.machine.sched.taskCount, (s.machine.sched.taskList i).state = .running →
    s.machine.sched.currentTaskIndex = i
  between : (∀ left t, s.phase ≠ .task left t) →
    ∀ i < s.machine.sched.taskCount, (s.machine.sched.taskList i).state ≠ .running
  reason : ∀ i < s.machine.sched.taskCount,
    ((s.machine.sched.taskList i).blockReason ≠ .none ↔
      (s.machine.sched.taskList i).state = .blocked)

theorem kernel_consistent {s : System cfg} (h : Reachable s) : Consistent s where
  nodup := h.inv.wellFormed.nodup
  queue _ := h.inv.wellFormed.mem_queue
  room changes i hi := by
    obtain ⟨hs, hc⟩ := h.inv.wellFormed.toShape.setTaskStates changes
    exact hs.remove_length_lt (hc ▸ hi)
  roomForNew hlt := h.inv.wellFormed.queue_length.trans_lt hlt
  readyCount := h.inv.wellFormed.readyCount_eq
  running i hi hr := by
    obtain ⟨left, hp⟩ := h.inv.running i hi hr
    exact (h.inv.task left i hp).2
  between hp := h.inv.not_running hp
  reason i hi := (h.inv.wellFormed.agrees i).reason hi

/-- Two tasks of equal priority, the first one suspended by the second in its own run. -/
def suspendRun : List (Action Config.default) :=
  [.call (.task (.create 1 0x1000#64)), .call (.task (.create 1 0x2000#64)), .run 2] ++
    cycleActions _ ++ [.ret] ++ cycleActions _ ++ [.call (.task (.suspend 1))]

theorem kernel_consistent_suspendRun :
    (System.after _ suspendRun).2.machine.sched.status 0 = (.suspended, .none) ∧
      (System.after _ suspendRun).2.machine.sched.status 1 = (.running, .none) ∧
        Consistent (System.after _ suspendRun).2 :=
  ⟨by decide +kernel, by decide +kernel, kernel_consistent (System.after_reachable suspendRun)⟩

end MiniRtos
