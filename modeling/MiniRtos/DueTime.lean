import MiniRtos.SleepDuration

/-!
# When a task is due

A task that waits for nothing but time is READY, or asleep with a number of ticks to go. The
tick brings it nearer, the decision of a cycle leaves it where it is unless it calls the task,
and so does the function of another task that only sleeps and uses kernel objects: what is
woken there is a task that waits for an object.
-/
namespace MiniRtos
variable {cfg : Config}

/-- The tick that the task is READY in is `n` ticks away. -/
inductive TCB.Due (b : TCB) : ℕ → Prop
  | ready : b.state = .ready → b.blockReason = .none → Due b 0
  | asleep {n : ℕ} : b.state = .blocked → b.blockReason = .sleep → b.sleepTicks = n + 1 →
      Due b (n + 1)

namespace TCB.Due
variable {b : TCB} {n : ℕ}

theorem afterTick (h : b.Due n) : b.afterTick.Due (n - 1) := by
  cases h with
  | ready hs hr =>
      rw [TCB.afterTick, if_pos (.inl (by simp [hs]))]
      exact .ready hs hr
  | @asleep n hs hr hn =>
      rw [TCB.afterTick, if_neg (by simp [hs, hr])]
      cases n with
      | zero =>
          rw [if_pos (by simp [hn])]
          exact .ready rfl rfl
      | succ n =>
          rw [if_neg (by push_cast at hn; omega)]
          exact .asleep hs hr (by push_cast at hn ⊢; omega)

theorem eq_zero_iff (h : b.Due n) : n = 0 ↔ b.state = .ready := by
  cases h with
  | ready hs => simp [hs]
  | asleep hs => simp [hs]

theorem blockReason (h : b.Due n) : b.blockReason = .none ∨ b.blockReason = .sleep := by
  cases h with
  | ready _ hr => exact .inl hr
  | asleep _ hr => exact .inr hr

end TCB.Due

/-- The effect concerns the calling task, or a task that waits for an object. -/
def Effect.SparesDue : Effect → Prop
  | .none | .sleep _ | .park _ _ => True
  | .unblock r => r ≠ .none ∧ r ≠ .sleep
  | _ => False

namespace Sched
variable {s s' : Sched cfg} {i n : ℕ}

theorem due_timerUpdateSleep (h : (s.taskList i).Due n) (hi : i < s.taskCount) :
    (s.timerUpdateSleep.taskList i).Due (n - 1) := by
  rw [timerUpdateSleep_taskList hi]
  exact h.afterTick

theorem due_resetSlice (h : (s.taskList i).Due n) (c : Option ℕ) :
    ((s.resetSlice c).taskList i).Due n := by
  obtain ⟨slice, hslice⟩ := s.resetSlice_taskList c i
  rw [hslice]
  cases h with
  | ready hs hr => exact .ready hs hr
  | asleep hs hr hn => exact .asleep hs hr hn

section Decision
variable {active active' : CPUContext} {b : Branch} {t : ℕ}

theorem Decides.due_called (d : s.Decides active (some (b, t), s', active')) (hw : s.WellFormed)
    (h : (s.taskList t).Due n) : n = 0 :=
  h.eq_zero_iff.mpr (hw.mem_queue.mp (d.runs hw).chosen).2

theorem Decides.due_of_ne (d : s.Decides active (some (b, t), s', active')) (hw : s.WellFormed)
    (h : (s.taskList i).Due n) (hit : i ≠ t) : (s'.taskList i).Due n := by
  have hst := (d.runs hw).status i
  rw [if_neg hit] at hst
  obtain ⟨hstate, hreason⟩ := Prod.mk.inj hst
  cases h with
  | ready hs hr => exact .ready (hstate.trans hs) (hreason.trans hr)
  | asleep hs hr hn =>
      refine .asleep (hstate.trans hs) (hreason.trans hr) ?_
      rw [d.field hw TCB.sleepTicks (fun _ _ => rfl) (fun _ _ => rfl) (by simp [hs])]
      exact hn

end Decision

section Function
variable {t : ℕ} {es : List Effect}

theorem taskList_of_sparesDue (hes : ∀ e ∈ es, e.SparesDue) (h : (s.taskList i).Due n)
    (hi : i < s.taskCount) (hcur : s.currentTaskIndex ≠ i) :
    (es.foldl Effect.apply s).taskList i = s.taskList i := by
  induction es generalizing s with
  | nil => rfl
  | cons e es ih =>
      have he := hes e (by simp)
      have hsame : (e.apply s).taskList i = s.taskList i := by
        refine e.apply_taskList_of_not_target hi fun ht => ?_
        cases e with
        | none => cases ht
        | sleep | park => exact hcur (List.mem_singleton.mp ht).symm
        | unblock r =>
            obtain ⟨j, hj, hji⟩ := List.mem_map.mp ht
            obtain rfl : j = i := by exact_mod_cast hji
            have hwaits := (mem_blockedOn.mp (List.argmax_mem (Option.mem_toList.mp hj))).2
            have hr : (s.taskList j).blockReason = r := congrArg Prod.snd hwaits
            rcases h.blockReason with hn | hn
            · exact he.1 (hr.symm.trans hn)
            · exact he.2 (hr.symm.trans hn)
        | create | suspend | resume | wake => exact he
      have hcount : (e.apply s).taskCount = s.taskCount := by
        refine Effect.apply_taskCount s fun p f hc => ?_
        subst hc
        exact he
      rw [List.foldl_cons, ih (fun e he => hes e (by simp [he])) (hsame ▸ h) (hcount ▸ hi)
        (by rwa [Effect.apply_currentTaskIndex]), hsame]

theorem foldl_sparesDue_rtosCurrentTask (hes : ∀ e ∈ es, e.SparesDue)
    (ht : s.rtosCurrentTask = some t) : (es.foldl Effect.apply s).rtosCurrentTask = some t := by
  induction es generalizing s with
  | nil => exact ht
  | cons e es ih =>
      refine ih (fun e he => hes e (by simp [he])) ?_
      obtain ⟨hcur, hlt⟩ := s.rtosCurrentTask_eq_some.mp ht
      refine (e.apply s).rtosCurrentTask_eq_some.mpr ⟨?_, ?_⟩
      · rwa [Effect.apply_currentTaskIndex]
      · rwa [Effect.apply_taskCount s fun p f hc => ?_]
        subst hc
        exact hes (.create p f) (by simp)

/-- The function of another task has returned. -/
theorem due_returned (es : List Effect) (hes : ∀ e ∈ es, e.SparesDue) (h : (s.taskList i).Due n)
    (hi : i < s.taskCount) (ht : s.currentTaskIndex = t) (hit : i ≠ t) :
    (((es.foldl Effect.apply s).taskReturned t).taskList i).Due n := by
  have hkept := taskList_of_sparesDue hes h hi (by omega)
  have hreturned : ((es.foldl Effect.apply s).taskReturned t).taskList i =
      (es.foldl Effect.apply s).taskList i := by
    unfold taskReturned
    split_ifs
    · rw [setTaskState_of_ne _ (Nat.cast_injective.ne hit)]
    · rfl
  rwa [hreturned, hkept]

/-- The function of a task has returned that went to sleep at its end. -/
theorem due_slept (es : List Effect) (hes : ∀ e ∈ es, e.SparesDue)
    (ht : s.rtosCurrentTask = some t) (n : ℕ) :
    (((Effect.apply (es.foldl Effect.apply s) (.sleep (n + 1))).taskReturned t).taskList t).Due
      (n + 1) := by
  have hslept := (sleeps_of_call (foldl_sparesDue_rtosCurrentTask hes ht) (n + 1)).taskReturned
  obtain ⟨hs, hr⟩ := Prod.mk.inj hslept.status
  exact .asleep hs hr hslept.sleepTicks

end Function

end Sched

end MiniRtos
