import MiniRtos.KernelInvariant

/-!
# When there is a current task

`rtos_current_task` is `NULL` from `rtos_init` until the scheduler first calls a task
function, and never afterwards. The five calls that name the current task dereference
it on each of their paths, so they are defined exactly from the first dispatch on; the
timer pass of the first cycle, and of every idle cycle after it, comes earlier.
-/
namespace MiniRtos
open TransitionSystem
variable {cfg : Config}

/-- Calls that read a field of the current task's control block. -/
def SyncCall.readsCurrent : SyncCall → Bool
  | .semWait _ | .mutexLock _ | .mutexUnlock _ | .queueSend _ _ | .queueReceive _ => true
  | _ => false

/-- A task function has been called since the last `rtos_init`. -/
def dispatched : History cfg → Bool
  | [] => false
  | e :: tr =>
      match e.act, e.obs with
      | .init, _ => false
      | _, .taskCalled _ _ => true
      | _, _ => dispatched tr

/-- No path of the five calls dereferences a `NULL` task, in a callback or in a task
function. -/
def NeverNull (cfg : Config) : Prop :=
  ∀ (v : System cfg) (c : SyncCall), Reachable v → v.phase.application → v.phase ≠ .outside →
    c.readsCurrent → (v.machine.exec (.sync c)).isSome

/-- Every path dereferences the task. -/
theorem SyncCall.exec_isSome (s : Sched cfg) (o : Objects) {c : SyncCall} (hc : c.readsCurrent) :
    (c.exec s o).isSome = s.rtosCurrentTask.isSome := by
  cases c with
  | semWait i | queueSend i value | queueReceive i =>
      simp only [exec, Sched.rtosSemWait, Sched.rtosQueueSend, Sched.rtosQueueReceive]
      split_ifs <;> simp
  | mutexLock i | mutexUnlock i =>
      simp only [exec, Sched.rtosMutexLock, Sched.rtosMutexUnlock]
      split_ifs <;> simp
  | _ => simp [readsCurrent] at hc

theorem Machine.exec_sync_isSome (m : Machine cfg) {c : SyncCall} (hc : c.readsCurrent) :
    (m.exec (.sync c)).isSome = m.sched.rtosCurrentTask.isSome := by
  simp only [exec, Option.isSome_map]
  exact c.exec_isSome _ _ hc

section Steps
variable {u w : System cfg} {a : Action cfg} {o : Observation cfg}

/-- The current index is written by `rtos_init` and by a switch only. -/
theorem StepCases.currentTaskIndex (h : StepCases u a o w) (hu : Inv u) (ha : a ≠ .init)
    (ho : ∀ b t, o ≠ .taskCalled b t) :
    w.machine.sched.currentTaskIndex = u.machine.sched.currentTaskIndex := by
  cases h with
  | init => exact absurd rfl ha
  | taskCalled => exact absurd rfl (ho _ _)
  | call _ hexec => rw [Machine.exec_sched hexec, Effect.apply_currentTaskIndex]
  | idle hp hd =>
      obtain ⟨-, rfl, -⟩ := Sched.Decides.idles (hd ▸ hu.decides hp)
      simp
  | _ => simp

theorem StepCases.current_called {b : Sched.Branch} {t : ℕ}
    (h : StepCases u a (.taskCalled b t) w) (hu : Inv u) :
    w.machine.sched.currentTaskIndex = t := by
  cases h with
  | taskCalled hp hd => exact (Sched.Decides.runs hu.wellFormed (hd ▸ hu.decides hp)).current

end Steps

/-- The index says whether there was a dispatch: it is `-1` or that of a task. -/
theorem currentTaskIndex_nonneg_iff {s v : System cfg} {tr : History cfg} (hs : Initial s)
    (h : Run step s tr v) : Inv v ∧ (dispatched tr ↔ 0 ≤ v.machine.sched.currentTaskIndex) := by
  induction h with
  | nil =>
      refine ⟨hs.inv, ?_⟩
      obtain ⟨-, m, hm⟩ := hs
      simp [dispatched, hm, Machine.rtosInit]
  | @snoc u v tr a o _ hstep ih =>
      obtain ⟨hu, hiff⟩ := ih
      refine ⟨hu.step hstep, ?_⟩
      have hc := step_cases hstep
      by_cases ha : a = .init
      · subst ha
        cases hc with
        | init => simp [dispatched, Machine.rtosInit]
      by_cases ho : ∃ b t, o = .taskCalled b t
      · obtain ⟨b, t, rfl⟩ := ho
        have hd : dispatched (⟨u, a, .taskCalled b t, v⟩ :: tr : History cfg) = true := by
          cases a <;> simp_all [dispatched]
        simp [hd, hc.current_called hu]
      · push Not at ho
        have hd : dispatched (⟨u, a, o, v⟩ :: tr : History cfg) = dispatched tr := by
          cases a <;> cases o <;> simp_all [dispatched]
        rw [hd, hiff, hc.currentTaskIndex hu ha ho]

theorem rtosCurrentTask_isSome_iff {s v : System cfg} {tr : History cfg} (hs : Initial s)
    (h : Run step s tr v) : v.machine.sched.rtosCurrentTask.isSome ↔ dispatched tr := by
  obtain ⟨hv, hiff⟩ := currentTaskIndex_nonneg_iff hs h
  have hlt := hv.wellFormed.current_lt
  rw [hiff, Sched.rtosCurrentTask]
  split_ifs with hr
  · simp only [Option.isSome_none, Bool.false_eq_true, false_iff]
    omega
  · simp only [Option.isSome_some, true_iff]
    omega

/-- The five calls are defined from the first dispatch after `rtos_init` on, so always
in a task function. -/
theorem sync_defined_iff {s v : System cfg} {tr : History cfg} {c : SyncCall} (hs : Initial s)
    (h : Run step s tr v) (hc : c.readsCurrent) :
    ((v.machine.exec (.sync c)).isSome ↔ dispatched tr) ∧ (v.phase.isTask → dispatched tr) := by
  have hcur := rtosCurrentTask_isSome_iff hs h
  refine ⟨by rw [v.machine.exec_sync_isSome hc, hcur], fun hp => ?_⟩
  obtain ⟨left, t, hp⟩ := Phase.isTask_iff.mp hp
  obtain ⟨hv, -⟩ := currentTaskIndex_nonneg_iff hs h
  obtain ⟨hlt, hidx⟩ := hv.task left t hp
  rw [← hcur, v.machine.sched.rtosCurrentTask_eq_some.mpr ⟨hidx, hlt⟩]
  rfl

/-- A periodic timer of one tick, whose callback is called in the first cycle. -/
def firstCallbackRun : List (Action Config.default) :=
  [.call (.task (.create 1 0x1000#64)),
    .call (.timer (.softCreate .periodic 1#32 0x5000#64 0#64)),
    .call (.timer (.softStart (some ⟨0, by decide⟩))), .run 2, .advance, .advance]

/-- From that callback to the next one, over the execution of the task. -/
def nextCallback : List (Action Config.default) :=
  [.ret] ++ List.replicate 9 .advance ++ [.ret, .advance, .advance]

/-- In the second cycle the same callback can wait on a semaphore. -/
theorem sync_defined_iff_secondCycle :
    let r := System.after _ (firstCallbackRun ++ nextCallback)
    r.2.phase = .callback 0 ⟨0, by decide⟩ ∧ (r.2.machine.exec (.sync (.semWait 0))).isSome ∧
      ((r.2.machine.exec (.sync (.semWait 0))).isSome ↔ dispatched r.1) :=
  ⟨by decide +kernel, by decide +kernel,
    (sync_defined_iff (System.boot_initial _) (run_played _ _) rfl).1⟩

theorem null_dereferenced : ¬ NeverNull .default := by
  intro h
  have hdef := h _ (.semWait 0) (System.after_reachable firstCallbackRun) (by decide +kernel)
    (by decide +kernel) rfl
  exact absurd hdef (by decide +kernel)

end MiniRtos
