import MiniRtos.StatusChange

/-!
# The tasks a call acts on

An effect hands `scheduler_set_task_state` a list of indices that is fixed before it
starts. Every other control block, and the place of every other task in the queue, is
left as it was.
-/
namespace MiniRtos
open TransitionSystem
variable {cfg : Config}

namespace Effect

/-- The indices whose state an effect sets, in range or not. -/
def targets (s : Sched cfg) : Effect → List ℤ
  | .none => []
  | .create _ _ => [s.taskCount]
  | .sleep _ | .park _ _ => [s.currentTaskIndex]
  | .suspend i | .resume i => [i]
  | .unblock r => ((s.blockedOn r).argmax s.prio).toList.map (↑)
  | .wake ts => ts

variable {s : Sched cfg}

/-- What creation, a stored sleep count and the state changes of the targets preserve,
the effect preserves. -/
theorem apply_targets {P : Sched cfg → Prop} (e : Effect) (h : P s)
    (hcreate : ∀ p f, e = .create p f → P (s.rtosCreateTask p f).2)
    (hsleep : ∀ (t : ℕ) (n : ℤ), (t : ℤ) ∈ e.targets s →
      P (s.modifyTask t fun b => { b with sleepTicks := n }))
    (hset : ∀ u i st r, i ∈ e.targets s → P u → P (u.schedulerSetTaskState i st r)) :
    P (e.apply s) := by
  cases e with
  | none => exact h
  | create p f => exact hcreate p f rfl
  | sleep n =>
      simp only [apply, Sched.rtosTaskSleep]
      split
      · exact h
      · next t ht =>
        have hcur := (s.rtosCurrentTask_eq_some.mp ht).1
        exact hset _ _ _ _ (List.mem_singleton.mpr rfl)
          (hsleep t n (List.mem_singleton.mpr hcur.symm))
  | park r _ => exact hset _ _ _ _ (List.mem_singleton.mpr rfl) h
  | suspend i => exact hset _ _ _ _ (List.mem_singleton.mpr rfl) h
  | resume i => exact hset _ _ _ _ (List.mem_singleton.mpr rfl) h
  | unblock r =>
      simp only [apply, Sched.schedulerUnblockOne, Sched.unblockScan_eq]
      split
      · exact h
      · next b hb => exact hset _ _ _ _ (by simp [targets, hb]) h
  | wake ts =>
      simp only [apply]
      have hall : ∀ i ∈ ts, ∀ u st r, P u → P (u.schedulerSetTaskState i st r) :=
        fun i hi u st r hu => hset u i st r hi hu
      clear hcreate hsleep hset
      induction ts generalizing s with
      | nil => exact h
      | cons i ts ih =>
          exact ih (hall i (by simp) _ _ _ h) fun j hj => hall j (by simp [hj])

theorem apply_taskList_of_not_target (e : Effect) {t : ℕ} (ht : t < s.taskCount)
    (h : (t : ℤ) ∉ e.targets s) : (e.apply s).taskList t = s.taskList t := by
  refine e.apply_targets (P := fun u => u.taskList t = s.taskList t) rfl ?_ ?_ ?_
  · intro p f _
    rw [Sched.rtosCreateTask_sched]
    split_ifs
    · rfl
    · rw [Sched.setTaskState_of_ne _ (by omega), s.addTask_of_ne p f (by omega)]
  · intro t' n ht'
    exact s.modifyTask_of_ne _ fun he => h (he ▸ ht')
  · intro u i st r hi hu
    rw [u.setTaskState_of_ne (fun he => h (he ▸ hi)), hu]

/-- A target in range gets the status that `Changes` lists. -/
theorem changes_of_target {e : Effect} {t : ℕ} (ht : t < s.taskCount)
    (h : (t : ℤ) ∈ e.targets s) : ∃ st, e.Changes s t st := by
  cases e with
  | none => simp [targets] at h
  | create p f => exact ⟨_, .create (by simpa [targets] using h)⟩
  | sleep n | park r hr =>
      have hcur : s.rtosCurrentTask = some t :=
        s.rtosCurrentTask_eq_some.mpr ⟨(List.mem_singleton.mp h).symm, ht⟩
      first | exact ⟨_, .sleep hcur⟩ | exact ⟨_, .park hcur⟩
  | suspend i | resume i =>
      obtain rfl : t = i := by simpa [targets] using h
      first | exact ⟨_, .suspend⟩ | exact ⟨_, .resume⟩
  | unblock r =>
      cases hb : (s.blockedOn r).argmax s.prio with
      | none => simp [targets, hb] at h
      | some b =>
          obtain rfl : t = b := by simpa [targets, hb] using h
          exact ⟨_, .unblock hb⟩
  | wake ts => exact ⟨_, .wake h⟩

end Effect

/-- A call does not set the state of task `t`. -/
def Machine.sparesTask (m : Machine cfg) (c : Call cfg) (t : ℕ) : Bool :=
  (t : ℤ) ∉ (m.effect c).targets m.sched

theorem Machine.exec_taskList {m m' : Machine cfg} {c : Call cfg} {v : Value} {t : ℕ}
    (h : m.exec c = some (v, m')) (ht : t < m.sched.taskCount) (hs : m.sparesTask c t) :
    m'.sched.taskList t = m.sched.taskList t := by
  rw [exec_sched h]
  exact Effect.apply_taskList_of_not_target _ ht (by simpa [sparesTask] using hs)

/-- A call that sets the state of task `t` is one of the listed ones. -/
theorem Machine.statusChange_of_target {m : Machine cfg} {c : Call cfg} {t : ℕ}
    (ht : t < m.sched.taskCount) (h : ¬ m.sparesTask c t) : ∃ st, m.StatusChange t c st := by
  obtain ⟨st, hst⟩ := Effect.changes_of_target ht (by simpa [sparesTask] using h)
  exact ⟨st, statusChange_of_changes hst⟩

namespace Sched
variable {s s' : Sched cfg} {active active' : CPUContext}

/-- A dispatch leaves the other fields of a task alone that is not READY. -/
theorem Decides.field {α : Type*} (h : s.WellFormed) {r : Option (Branch × ℕ)}
    (d : s.Decides active (r, s', active')) (g : TCB → α)
    (hg : ∀ (b : TCB) (c : CPUContext), g { b with context := c } = g b)
    (hg' : ∀ (b : TCB) (n : BitVec 32), g { b with sliceTicksUsed := n } = g b) {t : ℕ}
    (ht : (s.taskList t).state ≠ .ready) : g (s'.taskList t) = g (s.taskList t) := by
  have hne : ∀ j : ℕ, (s.taskList j).state = .ready → (t : ℤ) ≠ j := by
    intro j hj he
    obtain rfl : t = j := by exact_mod_cast he
    exact ht hj
  generalize hres : (r, s', active') = res at d
  cases d with
  | idle =>
      simp only [Prod.mk.injEq] at hres
      obtain ⟨-, rfl, -⟩ := hres
      exact s.resetSlice_field _ g hg' t
  | @switched best b hb guard =>
      simp only [Prod.mk.injEq] at hres
      obtain ⟨-, hs⟩ := hres
      rw [show s' = _ from congrArg Prod.fst hs, doContextSwitch_eq]
      have hready := (h.mem_queue.mp (List.argmax_mem hb)).2
      change g (((s.switchTable active s.rtosCurrentTask best).schedulerSetTaskState best .running
        .none).taskList t) = _
      rw [setTaskState_of_ne _ (hne best hready)]
      exact s.switchTable_field active _ best g (fun b => hg b _) (fun b => hg' b _) t
  | @continued c best hc hst =>
      simp only [Prod.mk.injEq] at hres
      obtain ⟨-, rfl, -⟩ := hres
      rw [continueCurrent, setTaskState_of_ne _ (hne c hst)]
      exact s.modifyTask_field g (hg' _ _) t

end Sched

end MiniRtos
