import MiniRtos.QueueOrder
import MiniRtos.SchedulingDecision

/-!
# Equal priorities

Between READY tasks of the highest priority the order of the queue decides: the peek
returns the first of them. A slice that has expired is given up exactly if that is
another task, so if some peer stands before the current task. The task that ran last was
put back at the tail, but a peer that the tick or a callback wakes is put behind it.
-/
namespace MiniRtos
open TransitionSystem QueueOrder
variable {cfg : Config}

namespace Sched
variable {s s' : Sched cfg} {active active' : CPUContext}

/-- The tasks of the priority of `x` that stand before it in the ready queue. -/
def peersAhead (s : Sched cfg) (x : ℕ) : Finset ℕ :=
  (ahead x s.readyQueue).toFinset.filter fun j => s.prio j = s.prio x

theorem mem_peersAhead {x j : ℕ} :
    j ∈ s.peersAhead x ↔ j ∈ ahead x s.readyQueue ∧ s.prio j = s.prio x := by
  simp [peersAhead]

/-- The choice of the peek, if it is not `x`, is a peer ahead of `x`, provided that no
READY task has a higher priority than `x`. -/
theorem WellFormed.argmax_mem_peersAhead (h : s.WellFormed) {x best : ℕ}
    (hx : x ∈ s.readyTasks) (hmax : ∀ j ∈ s.readyTasks, s.prio j ≤ s.prio x)
    (hb : s.readyQueue.argmax s.prio = some best) (hne : best ≠ x) :
    best ∈ s.peersAhead x := by
  have hbest : best ∈ s.readyTasks := h.mem_queue_iff.mp (List.argmax_mem hb)
  have hxq : x ∈ s.readyQueue := h.mem_queue_iff.mpr hx
  have hle : s.prio best ≤ s.prio x := hmax best hbest
  have hge : s.prio x ≤ s.prio best := List.le_of_mem_argmax hxq hb
  exact mem_peersAhead.mpr ⟨argmax_mem_ahead hb hxq hle hne, le_antisymm hle hge⟩

/-- Nobody of its priority stands before the choice of the peek. -/
theorem peersAhead_argmax {x : ℕ} (hb : s.readyQueue.argmax s.prio = some x) :
    s.peersAhead x = ∅ := by
  refine Finset.eq_empty_iff_forall_notMem.mpr fun j hj => ?_
  obtain ⟨hahead, hprio⟩ := mem_peersAhead.mp hj
  have hle := List.index_of_argmax hb (mem_of_mem_ahead hahead) hprio.ge
  exact absurd (mem_ahead_iff.mp hahead) (not_lt.mpr hle)

/-- The current task is READY, its slice is used up, and peers but no better task are
READY too. -/
structure SliceExpired (s : Sched cfg) (c : ℕ) : Prop where
  current : s.rtosCurrentTask = some c
  ready : c ∈ s.readyTasks
  used : cfg.rtosTimeSliceTicks ≤ (s.taskList c).sliceTicksUsed.toNat
  maximal : ∀ j ∈ s.readyTasks, s.prio j ≤ s.prio c
  peer : ∃ j ∈ s.readyTasks, j ≠ c ∧ s.prio j = s.prio c

theorem Decides.expired_iff (h : s.WellFormed) {r : Option (Branch × ℕ)} {c : ℕ}
    (d : s.Decides active (r, s', active')) (hexp : s.SliceExpired c) :
    (∃ t, t ≠ c ∧ s.prio t = s.prio c ∧ r.map Prod.snd = some t) ↔
      (s.peersAhead c).Nonempty := by
  have hst : (s.taskList c).state = .ready := (mem_readyTasks.mp hexp.ready).2
  generalize hres : (r, s', active') = res at d
  cases d with
  | idle hq =>
      have hready := hexp.ready
      rw [h.readyTasks_eq_empty.mpr hq] at hready
      cases hready
  | @switched best _ hb guard =>
      obtain rfl : r = some (_, best) := congrArg Prod.fst hres
      cases guard with
      | firstTick hn => cases hexp.current.symm.trans hn
      | forced hc' hst' =>
          cases hexp.current.symm.trans hc'
          exact absurd hst hst'
      | preempted hc' _ hlt =>
          cases hexp.current.symm.trans hc'
          have := hexp.maximal best (h.mem_queue_iff.mp (List.argmax_mem hb))
          omega
      | sliceExpired hc' _ he _ hne =>
          cases hexp.current.symm.trans hc'
          constructor
          · intro _
            exact ⟨best, h.argmax_mem_peersAhead hexp.ready hexp.maximal hb hne⟩
          · intro _
            exact ⟨best, hne, he, rfl⟩
  | @continued c' best hc' _ hb _ hslice =>
      cases hexp.current.symm.trans hc'
      obtain rfl : r = some (.continued, c) := congrArg Prod.fst hres
      have hused := hexp.used
      obtain rfl : best = c := hslice.resolve_left (by omega)
      simp [peersAhead_argmax hb]

end Sched

/-- An expired slice yields to a peer. -/
def SlicesYield (cfg : Config) : Prop :=
  ∀ (n c : ℕ) (s v : System cfg) (tr : History cfg) (e : Edge cfg), Reachable s →
    Cycle n s tr v → e ∈ tr → e.src.phase = .decide n → e.src.machine.sched.SliceExpired c →
      ∃ t, t ≠ c ∧ e.src.machine.sched.prio t = e.src.machine.sched.prio c ∧ taskCalls tr = [t]

/-- A cycle in which the slice of the current task has expired runs a peer exactly if
one stands before the current task in the ready queue. -/
theorem slice_yields_iff {n c : ℕ} {s v : System cfg} {tr : History cfg} {e : Edge cfg}
    (hs : Reachable s) (h : Cycle n s tr v) (he : e ∈ tr) (hp : e.src.phase = .decide n)
    (hexp : e.src.machine.sched.SliceExpired c) :
    (∃ t, t ≠ c ∧ e.src.machine.sched.prio t = e.src.machine.sched.prio c ∧
        taskCalls tr = [t]) ↔ (e.src.machine.sched.peersAhead c).Nonempty := by
  obtain ⟨hreach, hstep⟩ := hs.edge h.run he
  have hinv : Inv e.src := Reachable.inv hreach
  obtain ⟨r, hd, ho⟩ := (step_cases hstep).decides hinv hp
  have hcalls : taskCalls [e] = (r.map Prod.snd).toList := by
    cases r <;> simp [taskCalls, ho]
  rw [h.taskCalls_eq he hp, hcalls, ← hd.expired_iff hinv.wellFormed hexp]
  simp only [Option.toList_eq_singleton_iff]

/-- The cycle that comes after a list of actions, when the task returns at once. -/
def cycleAfter (as : List (Action Config.default)) : History Config.default × System .default :=
  played step (System.after _ as).2 (cycleActions _ ++ [.ret])

/-- In the second cycle of two equal tasks the other one is ahead and gets its turn. -/
theorem slice_yields_iff_secondCycle :
    ∃ e ∈ (cycleAfter secondCycle).1, ∃ t, t ≠ 0 ∧
      e.src.machine.sched.prio t = e.src.machine.sched.prio 0 ∧
        taskCalls (cycleAfter secondCycle).1 = [t] := by
  have hcycle : Cycle 0 (System.after _ secondCycle).2 (cycleAfter secondCycle).1
      (cycleAfter secondCycle).2 :=
    ⟨run_played _ _, by decide +kernel, by decide +kernel, by decide +kernel⟩
  obtain ⟨e, he, hp, hexp, hne⟩ : ∃ e ∈ (cycleAfter secondCycle).1, e.src.phase = .decide 0 ∧
      e.src.machine.sched.SliceExpired 0 ∧ (e.src.machine.sched.peersAhead 0).Nonempty :=
    ⟨(cycleAfter secondCycle).1.tail.head (by decide +kernel),
      List.mem_of_mem_tail (List.head_mem _), by decide +kernel,
      ⟨by decide +kernel, by decide +kernel, by decide +kernel, by decide +kernel,
        1, by decide +kernel, by decide, by decide +kernel⟩, by decide +kernel⟩
  exact ⟨e, he, (slice_yields_iff (System.after_reachable secondCycle) hcycle he hp hexp).mpr hne⟩

/-- The second of two equal tasks sleeps for two ticks, and the first one runs alone. -/
def lateWakeRun : List (Action Config.default) :=
  [.call (.task (.create 1 0x1000#64)), .call (.task (.create 1 0x2000#64)), .run 4] ++
    cycleActions _ ++ [.ret] ++ cycleActions _ ++ [.call (.task (.sleep 2)), .ret] ++
    cycleActions _ ++ [.ret]

/-- The tick wakes it, behind the first one, which runs on with its slice used up. -/
theorem slices_not_yielded : ¬ SlicesYield .default := by
  intro h
  have hcycle : Cycle 0 (System.after _ lateWakeRun).2 (cycleAfter lateWakeRun).1
      (cycleAfter lateWakeRun).2 :=
    ⟨run_played _ _, by decide +kernel, by decide +kernel, by decide +kernel⟩
  obtain ⟨e, he, hp, hexp⟩ : ∃ e ∈ (cycleAfter lateWakeRun).1, e.src.phase = .decide 0 ∧
      e.src.machine.sched.SliceExpired 0 :=
    ⟨(cycleAfter lateWakeRun).1.tail.head (by decide +kernel),
      List.mem_of_mem_tail (List.head_mem _), by decide +kernel,
      ⟨by decide +kernel, by decide +kernel, by decide +kernel, by decide +kernel,
        1, by decide +kernel, by decide, by decide +kernel⟩⟩
  obtain ⟨t, hne, -, hcalls⟩ := h _ _ _ _ _ e (System.after_reachable lateWakeRun) hcycle he hp hexp
  have hzero : taskCalls (cycleAfter lateWakeRun).1 = [0] := by decide +kernel
  rw [hcalls] at hzero
  exact hne (List.singleton_inj.mp hzero)

end MiniRtos
