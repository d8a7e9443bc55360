import MiniRtos.Suspension
import MiniRtos.Ticks

/-!
# How long a sleep lasts

A sleeping task is passed over by everything but the tick: the four wake-ups of the
kernel objects scan for other reasons, and the scheduler takes tasks from the ready
queue. So its counter goes down by one with each tick and by nothing else.
-/
namespace MiniRtos
open TransitionSystem
variable {cfg : Config}

/-- The step does not disturb the sleep of task `t`: it neither suspends it, nor blocks it
anew as the current task, nor wakes it through an entry in a waiter table. -/
def letsSleep (t : ℕ) (e : Edge cfg) : Bool :=
  match e.act with
  | .init => false
  | .call c =>
      c ≠ .task (.suspend (e.src.machine.sched.taskList t).taskId) &&
        !(e.src.machine.blocksCurrent c && e.src.machine.sched.rtosCurrentTask = some t) &&
          !selectsEntryOf t e
  | _ => true

/-- Task `t` sleeps for another `m` ticks. -/
structure Sched.Sleeps (s : Sched cfg) (t : ℕ) (m : ℤ) : Prop where
  lt : t < s.taskCount
  status : s.status t = (.blocked, .sleep)
  sleepTicks : (s.taskList t).sleepTicks = m

/-- Task `t` is awake again and can be scheduled. -/
structure Sched.Awoken (s : Sched cfg) (t : ℕ) : Prop where
  status : s.status t = (.ready, .none)
  sleepTicks : (s.taskList t).sleepTicks = 0
  queued : t ∈ s.readyQueue

section Steps
variable {u w : System cfg} {a : Action cfg} {o : Observation cfg} {t : ℕ} {m : ℤ}

/-- No call that lets task `t` sleep sets its state. -/
theorem spares_of_letsSleep {c : Call cfg} (hsl : u.machine.sched.Sleeps t m)
    (h : letsSleep t (⟨u, .call c, o, w⟩ : Edge cfg)) : u.machine.sparesTask c t := by
  simp only [letsSleep, Bool.and_eq_true, Bool.not_eq_true', decide_eq_true_eq,
    Bool.and_eq_false_iff, decide_eq_false_iff_not] at h
  obtain ⟨⟨hsus, hcur⟩, hsel⟩ := h
  have hblocks : u.machine.blocksCurrent c = true → u.machine.sched.rtosCurrentTask ≠ some t := by
    intro hb
    simpa [hb] using hcur
  by_contra hn
  obtain ⟨st, hst⟩ := Machine.statusChange_of_target hsl.lt hn
  have hstate : (u.machine.sched.taskList t).state = .blocked := congrArg Prod.fst hsl.status
  cases hst with
  | created h => exact absurd h hsl.lt.ne
  | slept h => exact hblocks rfl h
  | suspended hid => exact hsus (by rw [(Sched.taskIndexFromId_spec hid).2])
  | resumed _ hs => simp [hstate] at hs
  | parked _ _ he h => exact hblocks (by simp [Machine.blocksCurrent, Machine.effect, he]) h
  | unblocked _ hr _ hb =>
      have hwaits := (Sched.mem_blockedOn.mp (List.argmax_mem hb)).2
      exact hr (Prod.mk.inj (hwaits.symm.trans hsl.status)).2
  | waited he h => exact hblocks (by simp [Machine.blocksCurrent, he]) h
  | @woken i mask e hm he hte =>
      have hs : selectsEntryOf t (⟨u, .call (.event (.set (some i) mask)), o, w⟩ : Edge cfg) := by
        simp only [selectsEntryOf, Bool.and_eq_true, decide_eq_true_eq, List.any_eq_true]
        exact ⟨hm, e, he, hte⟩
      simp [hs] at hsel

/-- Between ticks a sleeper sleeps on, with the same count. -/
theorem Sched.Sleeps.between (hu : Inv u) (hs : step u a = some (o, w))
    (hsl : u.machine.sched.Sleeps t m) (hlets : letsSleep t (⟨u, a, o, w⟩ : Edge cfg))
    (htick : ¬ isTick (⟨u, a, o, w⟩ : Edge cfg)) : w.machine.sched.Sleeps t m := by
  have ha : a ≠ .init := by
    rintro rfl
    simp [letsSleep] at hlets
  have hstate : (u.machine.sched.taskList t).state = .blocked := congrArg Prod.fst hsl.status
  have hcall : ∀ c, a = .call c → u.machine.sparesTask c t := by
    rintro c rfl
    exact spares_of_letsSleep hsl hlets
  have hfield := (step_cases hs).field hu ha htick hsl.lt (by simp [hstate]) hcall
    (fun b => ((b.state, b.blockReason), b.sleepTicks)) (fun _ _ => rfl) (fun _ _ => rfl)
  obtain ⟨hst, hticks⟩ := Prod.mk.inj hfield
  constructor
  · exact hsl.lt.trans_le ((step_cases hs).taskCount hu ha).1
  · exact hst.trans hsl.status
  · exact hticks.trans hsl.sleepTicks

/-- A tick that is not the last one takes one off. -/
theorem Sched.Sleeps.tick (hs : step u a = some (o, w)) (hsl : u.machine.sched.Sleeps t m)
    (htick : isTick (⟨u, a, o, w⟩ : Edge cfg)) (hm : 2 ≤ m) :
    w.machine.sched.Sleeps t (m - 1) := by
  rw [((step_cases hs).of_isTick htick).1]
  obtain ⟨hst, hr⟩ := Prod.mk.inj hsl.status
  have hticks := hsl.sleepTicks
  have hlist : u.machine.sched.timerUpdateSleep.taskList t =
      { u.machine.sched.taskList t with sleepTicks := m - 1 } := by
    rw [Sched.timerUpdateSleep_taskList hsl.lt, TCB.afterTick, if_neg (by simp [hst, hr]),
      hticks, if_neg (by omega)]
  constructor
  · simpa using hsl.lt
  · rw [Sched.status, hlist]
    exact hsl.status
  · rw [hlist]

/-- The last tick wakes the task. -/
theorem Sched.Sleeps.lastTick (hw : Inv w) (hs : step u a = some (o, w))
    (hsl : u.machine.sched.Sleeps t 1) (htick : isTick (⟨u, a, o, w⟩ : Edge cfg)) :
    w.machine.sched.Awoken t := by
  have hsched := ((step_cases hs).of_isTick htick).1
  obtain ⟨hst, hr⟩ := Prod.mk.inj hsl.status
  have hticks := hsl.sleepTicks
  have hlist : w.machine.sched.taskList t =
      { u.machine.sched.taskList t with sleepTicks := 0 }.withState .ready .none := by
    rw [hsched, Sched.timerUpdateSleep_taskList hsl.lt, TCB.afterTick,
      if_neg (by simp [hst, hr]), hticks, if_pos (by omega)]
    rfl
  constructor
  · rw [Sched.status, hlist]
    rfl
  · rw [hlist]
    rfl
  · refine hw.wellFormed.mem_queue.mpr ⟨?_, by rw [hlist]; rfl⟩
    rw [hsched]
    simpa using hsl.lt

end Steps

/-- The function of a task that is asleep returns. -/
theorem Sched.Sleeps.taskReturned {s : Sched cfg} {t : ℕ} {n : ℤ} (h : s.Sleeps t n) :
    (s.taskReturned t).Sleeps t n := by
  have hsame : s.taskReturned t = s := if_neg (by simp [(Prod.mk.inj h.status).1])
  rwa [hsame]

/-- `rtos_task_sleep` puts the caller to sleep for what it asked for. -/
theorem Sched.sleeps_of_call {s : Sched cfg} {t : ℕ} (h : s.rtosCurrentTask = some t) (n : ℤ) :
    (s.rtosTaskSleep n).Sleeps t n := by
  obtain ⟨hcur, hlt⟩ := s.rtosCurrentTask_eq_some.mp h
  simp only [rtosTaskSleep, h, schedulerSetCurrentTaskState, modifyTask_currentTaskIndex, hcur]
  have hlt' : t < (s.modifyTask t fun b => { b with sleepTicks := n }).taskCount := hlt
  constructor
  · rw [setTaskState_taskCount]
    exact hlt'
  · rw [setTaskState_status, if_pos ⟨rfl, hlt'⟩]
    rfl
  · rw [setTaskState_self _ hlt', modifyTask_self]
    rfl

/-- Until the `n`-th tick the task sleeps, and that tick wakes it. -/
theorem Sched.Sleeps.run {s v : System cfg} {tr : History cfg} {t : ℕ} {n : ℤ} (hs : Inv s)
    (hsl : s.machine.sched.Sleeps t n) (h : Run MiniRtos.step s tr v)
    (hlets : ∀ e ∈ tr, letsSleep t e) : Inv v ∧
      (ticks tr < n → v.machine.sched.Sleeps t (n - ticks tr)) ∧
        ∀ e earlier, tr = e :: earlier → isTick e → ticks tr = n → v.machine.sched.Awoken t := by
  induction h with
  | nil =>
      refine ⟨hs, fun _ => ?_, fun e earlier he => absurd he (by simp)⟩
      simpa using hsl
  | @snoc u v tr a o _ hstep ih =>
      obtain ⟨hu, hbefore, -⟩ := ih fun e he => hlets e (by simp [he])
      have hv := hu.step hstep
      rw [ticks_cons]
      by_cases htick : isTick (⟨u, a, o, v⟩ : Edge cfg)
      · simp only [htick, if_true]
        refine ⟨hv, fun hlt => ?_, fun _ _ _ _ heq => ?_⟩
        · have hnext := (hbefore (by omega)).tick hstep htick (by omega)
          rwa [show n - ticks tr - 1 = n - (ticks tr + 1 : ℕ) by omega] at hnext
        · have hlast := hbefore (by omega)
          rw [show n - ticks tr = 1 by omega] at hlast
          exact hlast.lastTick hv hstep htick
      · simp only [htick, Bool.false_eq_true, if_false, Nat.add_zero]
        refine ⟨hv, fun hlt => ?_, fun e earlier he he' => ?_⟩
        · exact (hbefore hlt).between hu hstep (hlets _ (by simp)) htick
        · obtain ⟨rfl, -⟩ := List.cons.inj he
          exact absurd he' htick

/-- A task that calls `rtos_task_sleep` for `n` ticks is asleep until the `n`-th tick after
the call and wakes with it. -/
theorem sleep_lasts {s s₁ v : System cfg} {tr : History cfg} {o : Observation cfg}
    {left t : ℕ} {n : ℤ} (hs : Reachable s) (hp : s.phase = .task left t)
    (hstep : step s (.call (.task (.sleep n))) = some (o, s₁)) (h : Run step s₁ tr v)
    (hlets : ∀ e ∈ tr, letsSleep t e) :
    (ticks tr < n → v.machine.sched.status t = (.blocked, .sleep)) ∧
      ∀ e earlier, tr = e :: earlier → isTick e → ticks tr = n →
        v.machine.sched.status t = (.ready, .none) ∧
          (v.machine.sched.taskList t).sleepTicks = 0 ∧ t ∈ v.machine.sched.readyQueue := by
  obtain ⟨hlt, hcur⟩ := hs.inv.task left t hp
  have hsl : s₁.machine.sched.Sleeps t n := by
    cases step_cases hstep with
    | call _ hexec =>
        rw [Machine.exec_sched hexec]
        exact Sched.sleeps_of_call (s.machine.sched.rtosCurrentTask_eq_some.mpr ⟨hcur, hlt⟩) n
  obtain ⟨-, hasleep, hawake⟩ := hsl.run (hs.inv.step hstep) h hlets
  refine ⟨fun hk => (hasleep hk).status, fun e earlier he htick hk => ?_⟩
  have hwoken := hawake e earlier he htick hk
  exact ⟨hwoken.status, hwoken.sleepTicks, hwoken.queued⟩

/-- Two tasks, the first one running. -/
def sleeperRun : List (Action Config.default) :=
  [.call (.task (.create 2 0x1000#64)), .call (.task (.create 1 0x2000#64)), .run 2] ++
    cycleActions _

/-- It sleeps for two ticks: over the end of one `rtos_run`, to the first tick of the next. -/
theorem sleep_lasts_sleeperRun :
    let s := (System.after _ sleeperRun).2
    let r := played step (played step s [.call (.task (.sleep 2))]).2
      ([.ret] ++ cycleActions _ ++ [.ret, .advance, .run 1, .advance])
    ticks r.1 = 2 ∧ 0 ∈ r.2.machine.sched.readyQueue := by
  have hp : (System.after _ sleeperRun).2.phase = .task 1 0 := by decide +kernel
  refine ⟨by decide +kernel, ?_⟩
  have hwakes := (sleep_lasts (n := 2) (System.after_reachable sleeperRun) hp
    (step_eq_played (o := .returned .void) (by decide +kernel))
    (run_played _ ([.ret] ++ cycleActions _ ++ [.ret, .advance, .run 1, .advance]))
    (by decide +kernel)).2
  exact (hwakes (List.head _ (by decide +kernel)) _ (List.cons_head_tail _).symm
    (by decide +kernel) (by decide +kernel)).2.2

end MiniRtos
