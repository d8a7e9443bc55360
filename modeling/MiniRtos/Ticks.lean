import MiniRtos.EffectTargets

/-!
# Ticks

A cycle begins with `timer_tick` and the sleep loop, which is one step of the system.
The step is described by what it does to one control block, and time is the number of
such steps in a history.
-/
namespace MiniRtos
open TransitionSystem
variable {cfg : Config}

/-- The step is the tick a cycle begins with. -/
def isTick (e : Edge cfg) : Bool :=
  match e.src.phase, e.act with
  | .cycleTop (_ + 1), .advance => true
  | _, _ => false

theorem phase_of_isTick {e : Edge cfg} (h : isTick e) :
    ∃ left, e.src.phase = .cycleTop (left + 1) := by
  simp only [isTick] at h
  split at h
  · next left hp _ => exact ⟨left, hp⟩
  · cases h

/-- The number of cycles that began during a history. -/
def ticks (tr : History cfg) : ℕ := tr.countP isTick

@[simp] theorem ticks_nil : ticks ([] : History cfg) = 0 := rfl

theorem ticks_cons (e : Edge cfg) (tr : History cfg) :
    ticks (e :: tr) = ticks tr + if isTick e then 1 else 0 := by
  simp only [ticks, List.countP_cons]

/-- A control block after the pass of the sleep loop over it. -/
def TCB.afterTick (t : TCB) : TCB :=
  if t.state ≠ .blocked ∨ t.blockReason ≠ .sleep then t
  else if t.sleepTicks - 1 ≤ 0 then
    { t with sleepTicks := t.sleepTicks - 1 }.withState .ready .none
  else { t with sleepTicks := t.sleepTicks - 1 }

namespace Sched
variable {s : Sched cfg}

theorem updateSleepTask_taskList {i : ℕ} (hi : i < s.taskCount) :
    (s.updateSleepTask i).taskList = Function.update s.taskList i (s.taskList i).afterTick := by
  unfold updateSleepTask TCB.afterTick
  simp only [modifyTask_self]
  split_ifs with hb hz
  · rw [Function.update_eq_self]
  · rw [setTaskState_taskList _ (by simpa using hi), modifyTask_self]
    simp [modifyTask]
  · rfl

theorem timerUpdateSleep_of_no_blocked (h : ∀ i < s.taskCount, (s.taskList i).state ≠ .blocked) :
    s.timerUpdateSleep = s := by
  have hloop : ∀ l : List ℕ, (∀ i ∈ l, i < s.taskCount) → l.foldl updateSleepTask s = s := by
    intro l
    induction l with
    | nil => exact fun _ => rfl
    | cons i l ih =>
        intro hlt
        have hskip : s.updateSleepTask i = s := if_pos (.inl (h i (hlt i (by simp))))
        rw [List.foldl_cons, hskip]
        exact ih fun j hj => hlt j (by simp [hj])
  exact hloop _ fun i hi => List.mem_range.mp hi

/-- The loop passes over each task once. -/
theorem timerUpdateSleep_taskList {t : ℕ} (ht : t < s.taskCount) :
    s.timerUpdateSleep.taskList t = (s.taskList t).afterTick := by
  have hloop : ∀ (l : List ℕ) (u : Sched cfg), l.Nodup → (∀ i ∈ l, i < u.taskCount) →
      (l.foldl updateSleepTask u).taskList t =
        if t ∈ l then (u.taskList t).afterTick else u.taskList t := by
    intro l
    induction l with
    | nil => simp
    | cons i l ih =>
        intro u hnd hlt
        obtain ⟨hni, hnd⟩ := List.nodup_cons.mp hnd
        have hi : i < u.taskCount := hlt i (by simp)
        rw [List.foldl_cons, ih _ hnd (by simpa using fun j hj => hlt j (by simp [hj])),
          updateSleepTask_taskList hi]
        by_cases hti : t = i
        · subst hti
          simp [hni]
        · simp [hti]
  rw [timerUpdateSleep, hloop _ _ List.nodup_range (by simp)]
  simp [ht]

end Sched

section Steps
variable {u w : System cfg} {a : Action cfg} {o : Observation cfg}

theorem StepCases.of_isTick (h : StepCases u a o w) (ht : isTick (⟨u, a, o, w⟩ : Edge cfg)) :
    w.machine.sched = u.machine.sched.timerUpdateSleep ∧
      ∃ left, u.phase = .cycleTop (left + 1) ∧ w.phase = .softTimer left 0 := by
  cases h with
  | tick hp => exact ⟨rfl, _, hp, rfl⟩
  | init hp | run hp | callbackReturned hp | taskReturned hp | runDone hp | slotSkipped hp
  | callbackCalled hp | passDone hp | idle hp | taskCalled hp => simp [isTick, hp] at ht
  | call hp => simp [isTick] at ht

/-- Between ticks a task that is neither READY nor running keeps every field but its
context and slice, unless a call sets its state. -/
theorem StepCases.field {α : Type*} (h : StepCases u a o w) (hu : Inv u) (ha : a ≠ .init)
    (htick : ¬ isTick (⟨u, a, o, w⟩ : Edge cfg)) {t : ℕ} (ht : t < u.machine.sched.taskCount)
    (hst : (u.machine.sched.taskList t).state ≠ .ready ∧
      (u.machine.sched.taskList t).state ≠ .running)
    (hcall : ∀ c, a = .call c → u.machine.sparesTask c t) (g : TCB → α)
    (hg : ∀ (b : TCB) (c : CPUContext), g { b with context := c } = g b)
    (hg' : ∀ (b : TCB) (n : BitVec 32), g { b with sliceTicksUsed := n } = g b) :
    g (w.machine.sched.taskList t) = g (u.machine.sched.taskList t) := by
  cases h with
  | init => exact absurd rfl ha
  | tick hp => simp [isTick, hp] at htick
  | call _ hexec => rw [Machine.exec_taskList hexec ht (hcall _ rfl)]
  | @taskReturned left t' hp =>
      simp only [Sched.taskReturned]
      split_ifs with hr
      · rw [Sched.setTaskState_of_ne]
        intro he
        obtain rfl : t = t' := by exact_mod_cast he
        exact hst.2 hr
      · rfl
  | idle hp hd | taskCalled hp hd => exact (hd ▸ hu.decides hp).field hu.wellFormed g hg hg' hst.1
  | _ => rfl

end Steps

end MiniRtos
