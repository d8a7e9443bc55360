import MiniRtos.KernelInvariant

/-!
# Which task a cycle runs

A cycle of `scheduler_run` is the part of a run from the top of the loop body to the
next time the loop is at its top. It passes the decision exactly once, and only the
decision calls a task function, so what a cycle runs is read off the decision. By the
kernel invariant the queue there is the set of READY tasks.
-/
namespace MiniRtos
open TransitionSystem
variable {cfg : Config}

namespace Sched

/-- The tasks the scheduler may choose from. -/
def readyTasks (s : Sched cfg) : Finset ℕ :=
  (Finset.range s.taskCount).filter fun i => (s.taskList i).state = .ready

theorem mem_readyTasks {s : Sched cfg} {i : ℕ} :
    i ∈ s.readyTasks ↔ i < s.taskCount ∧ (s.taskList i).state = .ready := by
  simp [readyTasks]

theorem WellFormed.mem_queue_iff {s : Sched cfg} (h : s.WellFormed) {i : ℕ} :
    i ∈ s.readyQueue ↔ i ∈ s.readyTasks :=
  h.mem_queue.trans mem_readyTasks.symm

theorem WellFormed.readyTasks_eq_empty {s : Sched cfg} (h : s.WellFormed) :
    s.readyTasks = ∅ ↔ s.readyQueue = [] := by
  rw [Finset.eq_empty_iff_forall_notMem, List.eq_nil_iff_forall_not_mem]
  exact forall_congr' fun i => not_congr h.mem_queue_iff.symm

end Sched

namespace Phase

/-- In the cycle after which `n` are left, up to its decision. -/
def beforeDecision (n : ℕ) : Phase cfg → Bool
  | .cycleTop left => left = n + 1
  | .softTimer left _ | .callback left _ | .decide left => left = n
  | _ => false

/-- In the same cycle, in the task function it called. -/
def inTask (n : ℕ) : Phase cfg → Bool
  | .task left _ => left = n
  | _ => false

end Phase

structure Cycle (n : ℕ) (s : System cfg) (tr : History cfg) (v : System cfg) : Prop where
  run : Run step s tr v
  begins : s.phase = .cycleTop (n + 1)
  ends : v.phase = .cycleTop n
  inside : ∀ e ∈ tr, e.src.phase.beforeDecision n ∨ e.src.phase.inTask n

/-- The tasks whose functions the scheduler calls, the first call first. -/
def taskCalls (tr : History cfg) : List ℕ :=
  tr.reverse.filterMap fun e =>
    match e.obs with
    | .taskCalled _ t => some t
    | _ => none

theorem taskCalls_append (later earlier : History cfg) :
    taskCalls (later ++ earlier) = taskCalls earlier ++ taskCalls later := by
  simp [taskCalls]

theorem taskCalls_eq_nil {tr : History cfg} (h : ∀ e ∈ tr, ∀ b t, e.obs ≠ .taskCalled b t) :
    taskCalls tr = [] := by
  refine List.filterMap_eq_nil_iff.mpr fun e he => ?_
  cases ho : e.obs with
  | taskCalled b t => exact absurd ho (h e (List.mem_reverse.mp he) b t)
  | _ => rfl

section Steps
variable {u w : System cfg} {a : Action cfg} {o : Observation cfg}

theorem StepCases.beforeDecision (h : StepCases u a o w) {n : ℕ}
    (hp : u.phase.beforeDecision n) :
    u.phase ≠ .decide n ∧ w.phase.beforeDecision n ∨
      u.phase = .decide n ∧ (w.phase = .cycleTop n ∨ w.phase.inTask n) := by
  cases h with
  | call =>
      left
      refine ⟨fun hd => ?_, hp⟩
      simp_all [Phase.application]
  | idle hd =>
      right
      simp only [hd, Phase.beforeDecision, decide_eq_true_eq] at hp ⊢
      simp [hp]
  | taskCalled hd =>
      right
      simp only [hd, Phase.beforeDecision, decide_eq_true_eq] at hp ⊢
      simp [hp, Phase.inTask]
  | _ => simp_all [Phase.beforeDecision]

theorem StepCases.inTask (h : StepCases u a o w) {n : ℕ} (hp : u.phase.inTask n) :
    w.phase = .cycleTop n ∨ w.phase.inTask n := by
  cases h with
  | call => exact .inr hp
  | _ => simp_all [Phase.inTask]

/-- Task functions are called by the decision only. -/
theorem StepCases.taskCalled_phase {b : Sched.Branch} {t : ℕ}
    (h : StepCases u a (.taskCalled b t) w) : ∃ left, u.phase = .decide left := by
  cases h with
  | taskCalled hd => exact ⟨_, hd⟩

end Steps

/-- Past its decision a cycle is in the task function until it ends. -/
theorem Phase.inTask_of_inside {p : Phase cfg} {n : ℕ} (h : p = .cycleTop n ∨ p.inTask n)
    (hin : p.beforeDecision n ∨ p.inTask n) : p.inTask n := by
  rcases h with rfl | h
  · simpa [Phase.beforeDecision] using hin
  · exact h

/-- One decision lies among the edges, and only one. -/
def PassesDecision (n : ℕ) (tr : History cfg) : Prop :=
  ∃ later e earlier, tr = later ++ e :: earlier ∧ e.src.phase = .decide n ∧
    ∀ d ∈ later ++ earlier, d.src.phase ≠ .decide n

/-- Every cycle passes its decision once. -/
theorem Cycle.decision {n : ℕ} {s v : System cfg} {tr : History cfg} (h : Cycle n s tr v) :
    PassesDecision n tr := by
  have hinv : v.phase.beforeDecision n ∧ (∀ e ∈ tr, e.src.phase ≠ .decide n) ∨
      (v.phase = .cycleTop n ∨ v.phase.inTask n) ∧ PassesDecision n tr := by
    refine h.run.history_invariant
      (P := fun tr u => u.phase.beforeDecision n ∧ (∀ e ∈ tr, e.src.phase ≠ .decide n) ∨
        (u.phase = .cycleTop n ∨ u.phase.inTask n) ∧ PassesDecision n tr)
      (.inl ⟨by simp [h.begins, Phase.beforeDecision], by simp⟩) (.of_forall h.inside) ?_
    rintro tr u a o w (⟨hb, hnone⟩ | ⟨hpast, later, e, earlier, rfl, he, hrest⟩) hin hs
    · rcases (step_cases hs).beforeDecision hb with ⟨hne, hw⟩ | ⟨hd, hw⟩
      · exact .inl ⟨hw, by simpa using ⟨hne, hnone⟩⟩
      · exact .inr ⟨hw, [], _, tr, rfl, hd, hnone⟩
    · have ht : u.phase.inTask n := Phase.inTask_of_inside hpast hin
      have hnd : u.phase ≠ .decide n := fun hd => by simp [hd, Phase.inTask] at ht
      refine .inr ⟨(step_cases hs).inTask ht, _ :: later, e, earlier, rfl, he, ?_⟩
      simpa using ⟨hnd, by simpa using hrest⟩
  rcases hinv with ⟨hb, -⟩ | ⟨-, hd⟩
  · simp [h.ends, Phase.beforeDecision] at hb
  · exact hd

/-- What a cycle calls is what its decision calls. -/
theorem Cycle.taskCalls_eq {n : ℕ} {s v : System cfg} {tr : History cfg}
    (h : Cycle n s tr v) {e : Edge cfg} (he : e ∈ tr) (hp : e.src.phase = .decide n) :
    taskCalls tr = taskCalls [e] := by
  obtain ⟨later, e', earlier, rfl, -, hrest⟩ := h.decision
  have hnone : ∀ part : History cfg, part ⊆ later ++ earlier → taskCalls part = [] := by
    intro part hsub
    refine taskCalls_eq_nil fun d hd b t ho => ?_
    have hmem : d ∈ later ++ e' :: earlier := by
      have := hsub hd
      simp only [List.mem_append, List.mem_cons] at this ⊢
      tauto
    obtain ⟨left, hleft⟩ := (step_cases (ho ▸ (h.run.edge hmem).2)).taskCalled_phase
    have hin := h.inside d hmem
    simp only [hleft, Phase.beforeDecision, Phase.inTask, decide_eq_true_eq, Bool.false_eq_true,
      or_false] at hin
    exact hrest d (hsub hd) (hin ▸ hleft)
  have hee : e = e' := by
    by_contra hne
    refine hrest e ?_ hp
    simp only [List.mem_append, List.mem_cons] at he ⊢
    tauto
  rw [hee, taskCalls_append, show e' :: earlier = [e'] ++ earlier from rfl, taskCalls_append,
    hnone later (by simp), hnone earlier (by simp)]
  simp

namespace Sched
variable {s s' : Sched cfg} {active active' : CPUContext}

theorem Decides.none_iff (h : s.WellFormed) {r : Option (Branch × ℕ)}
    (d : s.Decides active (r, s', active')) : r = none ↔ s.readyTasks = ∅ := by
  rw [h.readyTasks_eq_empty]
  cases r with
  | none => simpa using (d.idles).1
  | some bt =>
      obtain ⟨b, t⟩ := bt
      have hm := (d.runs h).chosen
      simpa using List.ne_nil_of_mem hm

/-- A current task that may go on does, and no registers are copied. -/
theorem Decides.continues (h : s.WellFormed) {r : Option (Branch × ℕ)}
    (d : s.Decides active (r, s', active')) {c : ℕ} (hc : s.rtosCurrentTask = some c)
    (hr : c ∈ s.readyTasks) (hmax : ∀ j ∈ s.readyTasks, s.prio j ≤ s.prio c)
    (hslice : (s.taskList c).sliceTicksUsed.toNat < cfg.rtosTimeSliceTicks) :
    r = some (.continued, c) ∧ active' = active ∧
      ∀ i, (s'.taskList i).context = (s.taskList i).context := by
  have hst : (s.taskList c).state = .ready := (mem_readyTasks.mp hr).2
  generalize hres : (r, s', active') = res at d
  cases d with
  | idle hq =>
      rw [h.readyTasks_eq_empty.mpr hq] at hr
      cases hr
  | @switched best b hb guard =>
      have hle : s.prio best ≤ s.prio c := hmax best (h.mem_queue_iff.mp (List.argmax_mem hb))
      cases guard with
      | firstTick hn => cases hc.symm.trans hn
      | forced hc' hst' =>
          cases hc.symm.trans hc'
          exact absurd hst hst'
      | preempted hc' _ hlt =>
          cases hc.symm.trans hc'
          omega
      | sliceExpired hc' _ _ hexp _ =>
          cases hc.symm.trans hc'
          omega
  | continued hc' =>
      cases hc.symm.trans hc'
      simp only [Prod.mk.injEq] at hres
      obtain ⟨rfl, rfl, rfl⟩ := hres
      refine ⟨rfl, rfl, fun i => ?_⟩
      exact ((setTaskState_sameTask _ _ _ _ i).context).trans
        (s.modifyTask_field TCB.context rfl i)

end Sched

theorem StepCases.decides {u w : System cfg} {a : Action cfg} {o : Observation cfg} {n : ℕ}
    (h : StepCases u a o w) (hu : Inv u) (hp : u.phase = .decide n) :
    ∃ r, u.machine.sched.Decides u.machine.activeContext
        (r, w.machine.sched, w.machine.activeContext) ∧
      o = (match r with | none => .idle | some (b, t) => .taskCalled b t) := by
  cases h with
  | idle hd he => exact ⟨none, he ▸ hu.decides hd, rfl⟩
  | @taskCalled left t b _ _ hd he => exact ⟨some (b, t), he ▸ hu.decides hd, rfl⟩
  | call ha => simp [hp, Phase.application] at ha
  | _ => simp_all

/-- What one cycle does, in terms of the READY tasks after `timer_update_sleep`. -/
structure CycleDecision (n : ℕ) (tr : History cfg) (e : Edge cfg) : Prop where
  idle : e.src.machine.sched.readyTasks = ∅ → taskCalls tr = []
  calls : e.src.machine.sched.readyTasks.Nonempty →
    ∃ t ∈ e.src.machine.sched.readyTasks, taskCalls tr = [t] ∧
      ∀ j ∈ e.src.machine.sched.readyTasks,
        e.src.machine.sched.prio j ≤ e.src.machine.sched.prio t
  continues : ∀ c ∈ e.src.machine.sched.readyTasks,
    e.src.machine.sched.rtosCurrentTask = some c →
    (∀ j ∈ e.src.machine.sched.readyTasks,
      e.src.machine.sched.prio j ≤ e.src.machine.sched.prio c) →
    (e.src.machine.sched.taskList c).sliceTicksUsed.toNat < cfg.rtosTimeSliceTicks →
    taskCalls tr = [c] ∧ e.obs = .taskCalled .continued c ∧
      e.dst.machine.activeContext = e.src.machine.activeContext ∧
        ∀ i, (e.dst.machine.sched.taskList i).context = (e.src.machine.sched.taskList i).context

theorem scheduling_decision {n : ℕ} {s v : System cfg} {tr : History cfg} (hs : Reachable s)
    (h : Cycle n s tr v) :
    (∃ e ∈ tr, e.src.phase = .decide n) ∧
      ∀ e ∈ tr, e.src.phase = .decide n → CycleDecision n tr e := by
  refine ⟨?_, fun e he hp => ?_⟩
  · obtain ⟨later, e, earlier, rfl, hp, -⟩ := h.decision
    exact ⟨e, by simp, hp⟩
  obtain ⟨hreach, hstep⟩ := hs.edge h.run he
  have hinv : Inv e.src := Reachable.inv hreach
  have hcalls := h.taskCalls_eq he hp
  obtain ⟨r, hd, ho⟩ := (step_cases hstep).decides hinv hp
  have hnone := hd.none_iff hinv.wellFormed
  refine ⟨fun hR => ?_, fun hR => ?_, fun c hc hcur hmax hslice => ?_⟩
  · rw [hcalls]
    simp only [hnone.mpr hR] at ho
    simp [taskCalls, ho]
  · cases r with
    | none => exact absurd (hnone.mp rfl) hR.ne_empty
    | some bt =>
        obtain ⟨b, t⟩ := bt
        have hruns := hd.runs hinv.wellFormed
        refine ⟨t, hinv.wellFormed.mem_queue_iff.mp hruns.chosen, ?_, fun j hj => ?_⟩
        · rw [hcalls]
          simp [taskCalls, ho]
        · exact hruns.maximal j (hinv.wellFormed.mem_queue_iff.mpr hj)
  · obtain ⟨rfl, hactive, hctx⟩ := hd.continues hinv.wellFormed hcur hc hmax hslice
    rw [hcalls]
    exact ⟨by simp [taskCalls, ho], ho, hactive, hctx⟩

/-- Two tasks of equal priority, at the top of the cycle after the first one ran. -/
def secondCycle : List (Action Config.default) :=
  [.call (.task (.create 1 0x1000#64)), .call (.task (.create 1 0x2000#64)), .run 2] ++
    cycleActions _ ++ [.ret]

theorem scheduling_decision_secondCycle :
    let s := (System.after _ secondCycle).2
    let r := played step s (cycleActions _ ++ [.ret])
    taskCalls r.1 = [1] ∧ (∃ e ∈ r.1, e.src.phase = .decide 0) ∧
      ∀ e ∈ r.1, e.src.phase = .decide 0 → CycleDecision 0 r.1 e :=
  ⟨by decide +kernel,
    scheduling_decision (System.after_reachable secondCycle)
      ⟨run_played _ _, by decide +kernel, by decide +kernel, by decide +kernel⟩⟩

end MiniRtos
