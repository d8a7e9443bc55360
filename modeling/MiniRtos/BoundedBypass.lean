import MiniRtos.PeerOrder
import MiniRtos.Ticks

/-!
# Bounded bypass among equals

A task of the highest priority that waits READY can be passed over by a peer only while
that peer is ahead of it in the queue or in the rest of a slice. Each cycle that runs
somebody else uses up one of these, and whoever blocks, wakes or is created meanwhile
comes back behind the waiting task. `bypassRank` counts what is left.
-/
namespace MiniRtos
open TransitionSystem QueueOrder
variable {cfg : Config}

namespace Sched
variable {s s' : Sched cfg} {active active' : CPUContext} {x : ℕ}

/-- The slice counter of a task as a number. -/
abbrev slice (s : Sched cfg) (i : ℕ) : ℕ := (s.taskList i).sliceTicksUsed.toNat

/-- The cycles that tasks of the priority of `x` can still use before it: a whole slice for
each peer ahead, and the rest of its slice for the current task if it is not among them. -/
def bypassRank (s : Sched cfg) (x : ℕ) : ℕ :=
  cfg.rtosTimeSliceTicks * (s.peersAhead x).card +
    match s.rtosCurrentTask with
    | none => 0
    | some c => if c ∈ s.peersAhead x then 0 else cfg.rtosTimeSliceTicks - s.slice c

/-- At the start the rank is at most that many slices and one. -/
theorem bypassRank_le (s : Sched cfg) (x : ℕ) :
    s.bypassRank x ≤ cfg.rtosTimeSliceTicks *
      (((s.peersAhead x).filter fun j => s.rtosCurrentTask ≠ some j).card + 1) := by
  unfold bypassRank
  rw [Nat.mul_add, Nat.mul_one]
  cases hc : s.rtosCurrentTask with
  | none => simp
  | some c =>
      have hfilter : ((s.peersAhead x).filter fun j => some c ≠ some j) =
          (s.peersAhead x).erase c := by
        ext j
        simp [and_comm, eq_comm]
      simp only [hfilter]
      by_cases hm : c ∈ s.peersAhead x
      · have hcard := Finset.card_erase_add_one hm
        simp only [if_pos hm, ← hcard, Nat.mul_add, Nat.mul_one, Nat.add_zero, le_refl]
      · rw [if_neg hm, Finset.erase_eq_of_notMem hm]
        omega

/-- What happens to other tasks leaves the place of `x` in the queue: those before it stay
in order, some of them leave, and nobody is put before it. -/
structure KeepsPlace (x : ℕ) (s s' : Sched cfg) : Prop where
  shape : s'.Shape
  taskCount : s.taskCount ≤ s'.taskCount
  current : s'.currentTaskIndex = s.currentTaskIndex
  queued : x ∈ s'.readyQueue
  ahead : ahead x s'.readyQueue ⊆ ahead x s.readyQueue
  prio : ∀ j < s.taskCount, s'.prio j = s.prio j
  slice : ∀ j < s.taskCount, s'.slice j = s.slice j

namespace KeepsPlace

theorem refl (h : s.Shape) (hx : x ∈ s.readyQueue) : KeepsPlace x s s where
  shape := h
  taskCount := le_rfl
  current := rfl
  queued := hx
  ahead := List.Subset.refl _
  prio _ _ := rfl
  slice _ _ := rfl

variable {u : Sched cfg}

theorem setTaskState (h : KeepsPlace x s u) {i : ℤ} (hi : i ≠ x) (st : TaskState)
    (r : BlockReason) : KeepsPlace x s (u.schedulerSetTaskState i st r) := by
  by_cases hr : i < 0 ∨ (u.taskCount : ℤ) ≤ i
  · rwa [u.setTaskState_out_of_range hr]
  obtain ⟨n, rfl⟩ : ∃ n : ℕ, i = n := ⟨i.toNat, by omega⟩
  have hnx : n ≠ x := by exact_mod_cast hi
  have hq := h.shape.setTaskState_readyQueue (i := n) (by omega) st r
  have hxq : x ∈ u.readyQueue.erase n := (List.mem_erase_of_ne hnx.symm).mpr h.queued
  constructor
  · exact h.shape.setTaskState n st r
  · rw [setTaskState_taskCount]
    exact h.taskCount
  · rw [setTaskState_currentTaskIndex]
    exact h.current
  · rw [hq]
    exact List.mem_append_left _ hxq
  · rw [hq, ahead_append hxq, ahead_erase hnx]
    exact List.Subset.trans List.erase_subset h.ahead
  · intro j hj
    exact ((u.setTaskState_sameTask n st r j).priority).trans (h.prio j hj)
  · intro j hj
    rw [Sched.slice, (u.setTaskState_sameTask n st r j).sliceTicksUsed]
    exact h.slice j hj

theorem sleepTicks (h : KeepsPlace x s u) (t : ℕ) (f : ℤ → ℤ) :
    KeepsPlace x s (u.modifyTask t fun b => { b with sleepTicks := f b.sleepTicks }) where
  shape := h.shape.modifyTask rfl
  taskCount := h.taskCount
  current := h.current
  queued := h.queued
  ahead := h.ahead
  prio j hj := (u.modifyTask_field TCB.priority rfl j).trans (h.prio j hj)
  slice j hj :=
    (u.modifyTask_field (fun b => b.sliceTicksUsed.toNat) rfl j).trans (h.slice j hj)

theorem rtosCreateTask (h : s.Shape) (hx : x ∈ s.readyQueue) (p : ℤ) (f : BitVec 64) :
    KeepsPlace x s (s.rtosCreateTask p f).2 := by
  rw [rtosCreateTask_sched]
  split_ifs with hc
  · exact .refl h hx
  have hxlt := h.bounded x hx
  have hadd : KeepsPlace x s (s.addTask p f) := by
    have hold : ∀ j < s.taskCount, (s.addTask p f).taskList j = s.taskList j := fun j hj =>
      s.addTask_of_ne p f hj.ne
    constructor
    · exact h.addTask (by omega) p f
    · exact Nat.le_succ _
    · rfl
    · exact hx
    · exact List.Subset.refl _
    · intro j hj
      rw [Sched.prio, hold j hj]
    · intro j hj
      rw [Sched.slice, hold j hj]
  exact hadd.setTaskState (by omega) _ _

/-- A call that spares `x` keeps its place. -/
theorem apply (h : s.Shape) (hx : x ∈ s.readyQueue) {e : Effect}
    (hspares : (x : ℤ) ∉ e.targets s) : KeepsPlace x s (e.apply s) := by
  refine e.apply_targets (P := KeepsPlace x s) (.refl h hx) ?_ ?_ ?_
  · intro p f _
    exact .rtosCreateTask h hx p f
  · intro t n _
    exact (refl h hx).sleepTicks t fun _ => n
  · intro u i st r hi hu
    exact hu.setTaskState (fun he => hspares (he ▸ hi)) st r

/-- The tick wakes sleepers, and a READY task is none. -/
theorem timerUpdateSleep (h : s.Shape) (hx : x ∈ s.readyQueue)
    (hst : (s.taskList x).state = .ready) : KeepsPlace x s s.timerUpdateSleep := by
  have hinv : KeepsPlace x s s.timerUpdateSleep ∧
      (s.timerUpdateSleep.taskList x).state = .ready := by
    refine timerUpdateSleep_induction
      (P := fun u => KeepsPlace x s u ∧ (u.taskList x).state = .ready) ⟨.refl h hx, hst⟩ ?_
    rintro u i ⟨hu, hux⟩
    unfold updateSleepTask
    simp only
    split_ifs with hb
    · exact ⟨hu, hux⟩
    all_goals
      have hix : x ≠ i := by
        rintro rfl
        exact hb (.inl (by simp [hux]))
      have hm := hu.sleepTicks i fun n => n - 1
    · refine ⟨hm.setTaskState (by omega) _ _, ?_⟩
      rw [setTaskState_of_ne _ (by omega), u.modifyTask_of_ne _ hix]
      exact hux
    · refine ⟨hm, ?_⟩
      rw [u.modifyTask_of_ne _ hix]
      exact hux
  exact hinv.1

theorem taskReturned (h : s.Shape) (hx : x ∈ s.readyQueue)
    (hst : (s.taskList x).state = .ready) (t : ℕ) : KeepsPlace x s (s.taskReturned t) := by
  unfold Sched.taskReturned
  split_ifs with hr
  · refine (refl h hx).setTaskState (fun he => ?_) _ _
    obtain rfl : t = x := by exact_mod_cast he
    simp [hst] at hr
  · exact .refl h hx

theorem rtosCurrentTask (h : KeepsPlace x s u) (hs : s.Shape) :
    u.rtosCurrentTask = s.rtosCurrentTask :=
  hs.rtosCurrentTask_congr h.taskCount h.current

theorem peersAhead (h : KeepsPlace x s u) (hs : s.Shape) (hx : x ∈ s.readyQueue) :
    u.peersAhead x ⊆ s.peersAhead x := by
  intro j hj
  obtain ⟨hahead, hprio⟩ := mem_peersAhead.mp hj
  have hjs := h.ahead hahead
  rw [h.prio x (hs.bounded x hx), h.prio j (hs.bounded j (mem_of_mem_ahead hjs))] at hprio
  exact mem_peersAhead.mpr ⟨hjs, hprio⟩

/-- A peer that leaves the queue while it is current gives its whole slice up for the
rest of it. -/
theorem bypassRank_le (h : KeepsPlace x s u) (hs : s.Shape) (hx : x ∈ s.readyQueue) :
    u.bypassRank x ≤ s.bypassRank x := by
  have hsub := h.peersAhead hs hx
  have hcard := Finset.card_le_card hsub
  unfold Sched.bypassRank
  rw [h.rtosCurrentTask hs]
  cases hc : s.rtosCurrentTask with
  | none => simpa using Nat.mul_le_mul_left _ hcard
  | some c =>
      simp only
      rw [h.slice c (s.rtosCurrentTask_eq_some.mp hc).2]
      by_cases hm : c ∈ s.peersAhead x
      · by_cases hm' : c ∈ u.peersAhead x
        · rw [if_pos hm, if_pos hm']
          simpa using Nat.mul_le_mul_left _ hcard
        · have hlt : (u.peersAhead x).card + 1 ≤ (s.peersAhead x).card :=
            Finset.card_lt_card ⟨hsub, fun hn => hm' (hn hm)⟩
          have hmul := Nat.mul_le_mul_left cfg.rtosTimeSliceTicks hlt
          rw [Nat.mul_add] at hmul
          rw [if_pos hm, if_neg hm']
          omega
      · rw [if_neg hm, if_neg fun hn => hm (hsub hn)]
        have hmul := Nat.mul_le_mul_left cfg.rtosTimeSliceTicks hcard
        omega

end KeepsPlace

section Dispatch
variable {b : Branch} {t : ℕ}

/-- The task that is called has left the queue. -/
theorem Decides.readyQueue (h : s.WellFormed) (d : s.Decides active (some (b, t), s', active')) :
    s'.readyQueue = s.readyQueue.erase t := by
  generalize hr : (some (b, t), s', active') = r at d
  cases d with
  | idle => simp at hr
  | @switched best _ hb =>
      simp only [doContextSwitch_eq, Prod.mk.injEq, Option.some.injEq] at hr
      obtain ⟨⟨-, rfl⟩, rfl, -⟩ := hr
      have hlt := (h.mem_queue.mp (List.argmax_mem hb)).1
      change ((s.switchTable active s.rtosCurrentTask t).schedulerSetTaskState t .running
        .none).readyQueue = _
      have hgone : t ∉ s.readyQueue.erase t := fun hm => (h.nodup.mem_erase_iff.mp hm).1 rfl
      rw [(h.toShape.switchTable active _ hlt).setTaskState_readyQueue (by simpa using hlt),
        switchTable_readyQueue, List.erase_of_not_mem hgone]
      simp
  | @continued c _ hc =>
      simp only [Prod.mk.injEq, Option.some.injEq] at hr
      obtain ⟨⟨-, rfl⟩, rfl, -⟩ := hr
      have hm : (s.modifyTask t fun b =>
          { b with sliceTicksUsed := b.sliceTicksUsed + 1#32 }).Shape := h.toShape.modifyTask rfl
      rw [continueCurrent, hm.setTaskState_readyQueue (s.rtosCurrentTask_eq_some.mp hc).2]
      simp

/-- How the function of `t` comes to be called, with its slice counter at that moment: `t`
was switched in and begins a slice, or it goes on as the current task. -/
inductive SliceStep (s : Sched cfg) (t : ℕ) (s' : Sched cfg) : Branch → Prop
  | begins {b : Branch} : s.readyQueue.argmax s.prio = some t → s.SwitchGuard t b →
      s'.slice t = 1 → SliceStep s t s' b
  | goesOn {best : ℕ} : s.rtosCurrentTask = some t → s.readyQueue.argmax s.prio = some best →
      (s.slice t < cfg.rtosTimeSliceTicks ∨ best = t) →
      (s'.taskList t).sliceTicksUsed = (s.taskList t).sliceTicksUsed + 1#32 →
      SliceStep s t s' .continued

theorem Decides.slice (d : s.Decides active (some (b, t), s', active')) :
    s.SliceStep t s' b ∧ ∀ j ≠ t, s'.slice j = s.slice j := by
  generalize hr : (some (b, t), s', active') = r at d
  cases d with
  | idle => simp at hr
  | @switched best _ hb guard =>
      simp only [doContextSwitch_eq, Prod.mk.injEq, Option.some.injEq] at hr
      obtain ⟨⟨rfl, rfl⟩, rfl, -⟩ := hr
      refine ⟨.begins hb guard ?_, fun j hj => ?_⟩
      · simp [Sched.slice, (setTaskState_sameTask _ _ _ _ t).sliceTicksUsed]
      · simp only [Sched.slice, (setTaskState_sameTask _ _ _ _ j).sliceTicksUsed]
        rw [modifyTask_of_ne _ _ hj]
        exact congrArg BitVec.toNat ((s.readyQueuePop t).saveOutgoing_field active _
          TCB.sliceTicksUsed (fun _ => rfl) j)
  | @continued c best hc _ hb _ hslice =>
      simp only [Prod.mk.injEq, Option.some.injEq] at hr
      obtain ⟨⟨rfl, rfl⟩, rfl, -⟩ := hr
      refine ⟨.goesOn hc hb hslice ?_, fun j hj => ?_⟩
      · rw [continueCurrent, (setTaskState_sameTask _ _ _ _ t).sliceTicksUsed, modifyTask_self]
      · rw [Sched.slice, continueCurrent, (setTaskState_sameTask _ _ _ _ j).sliceTicksUsed,
          modifyTask_of_ne _ _ hj]

theorem Decides.rtosCurrentTask (h : s.WellFormed)
    (d : s.Decides active (some (b, t), s', active')) : s'.rtosCurrentTask = some t := by
  have hruns := d.runs h
  have hlt : t < s'.taskCount := hruns.taskCount ▸ (h.mem_queue.mp hruns.chosen).1
  exact s'.rtosCurrentTask_eq_some.mpr ⟨hruns.current, hlt⟩

/-- The task that is called gives up its place ahead of `x`. -/
theorem Decides.peersAhead (h : s.WellFormed) (d : s.Decides active (some (b, t), s', active'))
    (htx : t ≠ x) : s'.peersAhead x = (s.peersAhead x).erase t := by
  have hruns := d.runs h
  ext j
  rw [Finset.mem_erase, mem_peersAhead, mem_peersAhead, d.readyQueue h, ahead_erase htx,
    (ahead_nodup h.nodup).mem_erase_iff, hruns.priority, hruns.priority, and_assoc]

/-- Calling a peer uses up a part of the rank: its place ahead of `x`, or a tick of its
slice. The counter of a task that is both current and ahead must not wrap. -/
theorem Decides.bypassRank_lt (h : s.WellFormed)
    (d : s.Decides active (some (b, t), s', active')) (hx : x ∈ s.readyTasks)
    (hmax : ∀ j ∈ s.readyTasks, s.prio j ≤ s.prio x) (htx : t ≠ x)
    (hwrap : ∀ c, s.rtosCurrentTask = some c → c ∈ s.peersAhead x → s.slice c + 1 < 2 ^ 32) :
    t ∉ s'.peersAhead x ∧ s'.rtosCurrentTask = some t ∧ s'.bypassRank x + 1 ≤ s.bypassRank x := by
  have hcur := d.rtosCurrentTask h
  have hpeers := d.peersAhead h htx
  have hnot : t ∉ s'.peersAhead x := by
    rw [hpeers]
    exact Finset.notMem_erase t _
  refine ⟨hnot, hcur, ?_⟩
  have hN := cfg.timeSlice_pos
  have hN' := cfg.timeSlice_uint
  have hrank : s'.bypassRank x = cfg.rtosTimeSliceTicks * ((s.peersAhead x).erase t).card +
      (cfg.rtosTimeSliceTicks - s'.slice t) := by
    rw [bypassRank, hcur, ← hpeers]
    simp only [if_neg hnot]
  rw [hrank]
  cases d.slice.1 with
  | begins hb _ hone =>
      have hm := h.argmax_mem_peersAhead hx hmax hb htx
      have hcard := Finset.card_erase_add_one hm
      rw [bypassRank, ← hcard, Nat.mul_add]
      omega
  | @goesOn best hc hb hslice hnext =>
      have hnext' : s'.slice t = (s.slice t + 1) % 2 ^ 32 := by
        rw [Sched.slice, hnext, BitVec.toNat_add]
        rfl
      by_cases hm : t ∈ s.peersAhead x
      · have hcard := Finset.card_erase_add_one hm
        have hno := hwrap t hc hm
        rw [Nat.mod_eq_of_lt hno] at hnext'
        rw [bypassRank, ← hcard, Nat.mul_add]
        omega
      · -- the current task is behind `x`, so it is not the choice of the peek
        have hbt : best ≠ t := by
          rintro rfl
          exact hm (h.argmax_mem_peersAhead hx hmax hb htx)
        have hused := hslice.resolve_right hbt
        rw [Nat.mod_eq_of_lt (by omega)] at hnext'
        rw [bypassRank, hc, Finset.erase_eq_of_notMem hm]
        simp only [if_neg hm]
        omega

end Dispatch

end Sched

/-- The step is the decision of a cycle. -/
def isDecision (e : Edge cfg) : Bool :=
  match e.src.phase with
  | .decide _ => true
  | _ => false

/-- The action is no call that sets the state of task `x`. -/
def Action.spares (m : Machine cfg) (x : ℕ) : Action cfg → Bool
  | .call c => m.sparesTask c x
  | _ => true

/-- A step of cycles that pass task `x` over: it stays READY and no call sets its state,
no READY task has a higher priority at the decision, and it is not the task called. -/
structure PassesOver (x : ℕ) (e : Edge cfg) : Prop where
  before : x ∈ e.src.machine.sched.readyTasks
  after : x ∈ e.dst.machine.sched.readyTasks
  untouched : e.act.spares e.src.machine x
  highest : isDecision e →
    ∀ j ∈ e.src.machine.sched.readyTasks, e.src.machine.sched.prio j ≤ e.src.machine.sched.prio x
  other : x ∉ taskCalls [e]

instance (x : ℕ) (e : Edge cfg) : Decidable (PassesOver x e) :=
  decidable_of_iff
    (x ∈ e.src.machine.sched.readyTasks ∧ x ∈ e.dst.machine.sched.readyTasks ∧
      e.act.spares e.src.machine x ∧
      (isDecision e → ∀ j ∈ e.src.machine.sched.readyTasks,
        e.src.machine.sched.prio j ≤ e.src.machine.sched.prio x) ∧ x ∉ taskCalls [e])
    ⟨fun ⟨h₁, h₂, h₃, h₄, h₅⟩ => ⟨h₁, h₂, h₃, h₄, h₅⟩,
      fun h => ⟨h.before, h.after, h.untouched, h.highest, h.other⟩⟩

section Steps
variable {u w : System cfg} {a : Action cfg} {o : Observation cfg} {x : ℕ}

theorem StepCases.keepsPlace (h : StepCases u a o w) (hu : Inv u)
    (hx : x ∈ u.machine.sched.readyTasks) (ha : a ≠ .init) (hp : ∀ left, u.phase ≠ .decide left)
    (hspares : a.spares u.machine x) :
    Sched.KeepsPlace x u.machine.sched w.machine.sched := by
  have hshape := hu.wellFormed.toShape
  have hxq : x ∈ u.machine.sched.readyQueue := hu.wellFormed.mem_queue_iff.mpr hx
  have hst := (Sched.mem_readyTasks.mp hx).2
  cases h with
  | init => exact absurd rfl ha
  | call _ hexec =>
      rw [Machine.exec_sched hexec]
      exact .apply hshape hxq (by simpa [Action.spares, Machine.sparesTask] using hspares)
  | taskReturned => exact .taskReturned hshape hxq hst _
  | tick => exact .timerUpdateSleep hshape hxq hst
  | idle hd | taskCalled hd => exact absurd hd (hp _)
  | _ => exact .refl hshape hxq

/-- A call gives a new task an unused slice and leaves the other counters alone. -/
theorem Effect.apply_slice (s : Sched cfg) (e : Effect) {j : ℕ}
    (hj : j < (e.apply s).taskCount) :
    j < s.taskCount ∧ (e.apply s).slice j = s.slice j ∨ (e.apply s).slice j = 0 := by
  by_cases hlt : j < s.taskCount
  · left
    exact ⟨hlt, congrArg BitVec.toNat (apply_sameTask s e hlt).sliceTicksUsed⟩
  · right
    have hnew := (apply_created s e (not_lt.mp hlt) hj).1
    cases e with
    | create p f =>
        simp only [apply, Sched.rtosCreateTask_sched] at hj ⊢
        split_ifs at hj ⊢
        · exact absurd hj hlt
        · rw [Sched.slice, (Sched.setTaskState_sameTask _ _ _ _ j).sliceTicksUsed, hnew]
          simp [Sched.addTask]
    | _ =>
        rw [apply_taskCount s (by simp)] at hj
        exact absurd hj hlt

/-- Outside the decision no slice counter grows. -/
theorem StepCases.slice (h : StepCases u a o w) (ha : a ≠ .init)
    (hp : ∀ left, u.phase ≠ .decide left) {j : ℕ} (hj : j < w.machine.sched.taskCount) :
    j < u.machine.sched.taskCount ∧ w.machine.sched.slice j = u.machine.sched.slice j ∨
      w.machine.sched.slice j = 0 := by
  cases h with
  | init => exact absurd rfl ha
  | call _ hexec =>
      rw [Machine.exec_sched hexec] at hj ⊢
      exact Effect.apply_slice _ _ hj
  | @taskReturned left t =>
      refine .inl ⟨by simpa using hj, ?_⟩
      exact congrArg BitVec.toNat (Sched.taskReturned_sameTask _ t j).sliceTicksUsed
  | tick =>
      refine .inl ⟨by simpa using hj, ?_⟩
      exact congrArg BitVec.toNat (Sched.timerUpdateSleep_sameTask _ j).sliceTicksUsed
  | idle hd | taskCalled hd => exact absurd hd (hp _)
  | _ => exact .inl ⟨hj, rfl⟩

end Steps

/-- The cycles begun since the last `rtos_init`. -/
def cyclesSinceInit : History cfg → ℕ
  | [] => 0
  | e :: tr => if e.act = .init then 0 else cyclesSinceInit tr + if isTick e then 1 else 0

/-- A cycle has begun and has not decided yet. -/
def Phase.undecided : Phase cfg → ℕ
  | .softTimer _ _ | .callback _ _ | .decide _ => 1
  | _ => 0

/-- Every cycle adds at most one to a slice counter. -/
structure SlicesBounded (tr : History cfg) (u : System cfg) : Prop where
  undecided : u.phase.undecided ≤ cyclesSinceInit tr
  slice : ∀ j < u.machine.sched.taskCount,
    u.machine.sched.slice j + u.phase.undecided ≤ cyclesSinceInit tr

theorem SlicesBounded.decide {tr : History cfg} {u w : System cfg} {o : Observation cfg}
    {left : ℕ} (h : SlicesBounded tr u) (hu : Inv u) (hp : u.phase = .decide left)
    (hs : step u .advance = some (o, w)) : SlicesBounded (⟨u, .advance, o, w⟩ :: tr) w := by
  have htick : isTick (⟨u, .advance, o, w⟩ : Edge cfg) = false := by simp [isTick, hp]
  have hslice := h.slice
  have hcycles : cyclesSinceInit (⟨u, .advance, o, w⟩ :: tr) = cyclesSinceInit tr := by
    simp [cyclesSinceInit, htick]
  simp only [hp, Phase.undecided] at hslice
  have hone : 1 ≤ cyclesSinceInit tr := by simpa [hp, Phase.undecided] using h.undecided
  have hund : w.phase.undecided = 0 := by
    cases step_cases hs <;> simp_all [Phase.undecided]
  constructor
  · omega
  rw [hcycles, hund]
  intro j hj
  obtain ⟨r, hd, -⟩ := (step_cases hs).decides hu hp
  cases r with
  | none =>
      obtain ⟨-, hsched, -⟩ := hd.idles
      rw [hsched] at hj ⊢
      have hj' := hslice j (by simpa using hj)
      cases hc : u.machine.sched.rtosCurrentTask with
      | none => simpa [Sched.resetSlice] using (Nat.le_succ _).trans hj'
      | some c =>
          simp only [Sched.resetSlice]
          by_cases hjc : j = c
          · simp [Sched.slice, hjc]
          · rw [Sched.slice, Sched.modifyTask_of_ne _ _ hjc]
            exact Nat.le_of_succ_le hj'
  | some bt =>
      obtain ⟨b, t⟩ := bt
      have hj' := hslice j ((hd.runs hu.wellFormed).taskCount ▸ hj)
      by_cases hjt : j = t
      · subst hjt
        cases hd.slice.1 with
        | begins _ _ hone' => omega
        | goesOn _ _ _ hnext =>
            rw [Sched.slice, hnext, BitVec.toNat_add]
            exact (Nat.mod_le _ _).trans hj'
      · rw [hd.slice.2 j hjt]
        omega

theorem SlicesBounded.run {s₀ s : System cfg} {tr : History cfg} (hs₀ : Initial s₀)
    (h : Run step s₀ tr s) : Inv s ∧ SlicesBounded tr s := by
  induction h with
  | nil =>
      refine ⟨hs₀.inv, ?_, ?_⟩
      · simp [hs₀.1, Phase.undecided]
      · obtain ⟨-, m, hm⟩ := hs₀
        simp [hm, Machine.rtosInit]
  | @snoc u w tr a o _ hs ih =>
      obtain ⟨hu, hb⟩ := ih
      refine ⟨hu.step hs, ?_⟩
      by_cases hp : ∃ left, u.phase = .decide left
      · obtain ⟨left, hp⟩ := hp
        have ha : a = .advance := by
          cases step_cases hs <;> simp_all [Phase.application]
        subst ha
        exact hb.decide hu hp hs
      push Not at hp
      by_cases ha : a = .init
      · subst ha
        cases step_cases hs with
        | init => exact ⟨by simp [Phase.undecided], by simp [Machine.rtosInit]⟩
      have hund : w.phase.undecided ≤
          u.phase.undecided + if isTick (⟨u, a, o, w⟩ : Edge cfg) then 1 else 0 := by
        cases step_cases hs <;> simp_all [Phase.undecided, isTick]
      have hmono := hb.undecided
      constructor
      · simp only [cyclesSinceInit, if_neg ha]
        omega
      · intro j hj
        simp only [cyclesSinceInit, if_neg ha]
        rcases (step_cases hs).slice ha hp hj with ⟨hlt, he⟩ | hz
        · have := hb.slice j hlt
          omega
        · omega

/-- While cycles pass `x` over, every step keeps the rank and every decision lowers it. -/
theorem PassesOver.bypassRank {u w : System cfg} {a : Action cfg} {o : Observation cfg} {x : ℕ}
    (h : PassesOver x ⟨u, a, o, w⟩) (hu : Inv u) (hs : step u a = some (o, w))
    (hwrap : ∀ c, u.machine.sched.rtosCurrentTask = some c →
      c ∈ u.machine.sched.peersAhead x → u.machine.sched.slice c + 1 < 2 ^ 32) :
    (∀ c, w.machine.sched.rtosCurrentTask = some c →
      c ∈ w.machine.sched.peersAhead x → w.machine.sched.slice c + 1 < 2 ^ 32) ∧
      (w.machine.sched.bypassRank x + if isDecision ⟨u, a, o, w⟩ then 1 else 0) ≤
        u.machine.sched.bypassRank x := by
  by_cases hp : ∃ left, u.phase = .decide left
  · obtain ⟨left, hp⟩ := hp
    obtain ⟨r, hd, ho⟩ := (step_cases hs).decides hu hp
    have hdec : isDecision (⟨u, a, o, w⟩ : Edge cfg) = true := by simp only [isDecision, hp]
    obtain ⟨b, t, rfl⟩ : ∃ b t, r = some (b, t) := by
      cases r with
      | none =>
          have hempty := (hd.none_iff hu.wellFormed).mp rfl
          exact absurd h.before (by simp [hempty])
      | some bt => exact ⟨bt.1, bt.2, rfl⟩
    have htx : t ≠ x := by
      have hother := h.other
      rintro rfl
      simp [taskCalls, ho] at hother
    obtain ⟨hnot, hcur, hlt⟩ := hd.bypassRank_lt hu.wellFormed h.before (h.highest hdec) htx hwrap
    refine ⟨fun c hc hm => ?_, ?_⟩
    · obtain rfl : t = c := Option.some.inj (hcur.symm.trans hc)
      exact absurd hm hnot
    · simpa [hdec] using hlt
  · push Not at hp
    have ha : a ≠ .init := by
      rintro rfl
      have hafter := h.after
      cases step_cases hs with
      | init => simp [Sched.mem_readyTasks, Machine.rtosInit] at hafter
    have hshape := hu.wellFormed.toShape
    have hxq : x ∈ u.machine.sched.readyQueue := hu.wellFormed.mem_queue_iff.mpr h.before
    have hplace := (step_cases hs).keepsPlace hu h.before ha hp h.untouched
    have hnd : isDecision (⟨u, a, o, w⟩ : Edge cfg) = false := by
      cases hq : u.phase with
      | decide left => exact absurd hq (hp left)
      | _ => simp only [isDecision, hq]
    refine ⟨fun c hc hm => ?_, ?_⟩
    · rw [hplace.rtosCurrentTask hshape] at hc
      rw [hplace.slice c (u.machine.sched.rtosCurrentTask_eq_some.mp hc).2]
      exact hwrap c hc (hplace.peersAhead hshape hxq hm)
    · simpa [hnd] using hplace.bypassRank_le hshape hxq

/-- From a decision on, at most `N` cycles for each peer ahead and `N` more can pass over a
task that waits READY with the highest priority. -/
theorem bounded_bypass {s₀ s v : System cfg} {tr₀ tr : History cfg} {left x : ℕ}
    (hs₀ : Initial s₀) (h₀ : Run step s₀ tr₀ s) (hcycles : cyclesSinceInit tr₀ < 2 ^ 32)
    (hp : s.phase = .decide left) (h : Run step s tr v) (hpass : ∀ e ∈ tr, PassesOver x e) :
    tr.countP isDecision ≤ cfg.rtosTimeSliceTicks *
      (((s.machine.sched.peersAhead x).filter
        fun j => s.machine.sched.rtosCurrentTask ≠ some j).card + 1) := by
  obtain ⟨hs, hb⟩ := SlicesBounded.run hs₀ h₀
  have hwrap : ∀ c, s.machine.sched.rtosCurrentTask = some c →
      c ∈ s.machine.sched.peersAhead x → s.machine.sched.slice c + 1 < 2 ^ 32 := by
    intro c hc _
    have := hb.slice c (s.machine.sched.rtosCurrentTask_eq_some.mp hc).2
    simp only [hp, Phase.undecided] at this
    omega
  have hcount := (h.countP_add_rank_le
    (P := fun u => Inv u ∧ ∀ c, u.machine.sched.rtosCurrentTask = some c →
      c ∈ u.machine.sched.peersAhead x → u.machine.sched.slice c + 1 < 2 ^ 32)
    isDecision (fun u => u.machine.sched.bypassRank x) ⟨hs, hwrap⟩ hpass
    fun u a o w hu hOk hstep => by
      obtain ⟨hw, hrank⟩ := hOk.bypassRank hu.1 hstep hu.2
      exact ⟨⟨hu.1.step hstep, hw⟩, hrank⟩).2
  have hle := s.machine.sched.bypassRank_le x
  omega

/-- Three tasks of equal priority at the first decision. -/
def threePeersRun : List (Action Config.default) :=
  [.call (.task (.create 1 0x1000#64)), .call (.task (.create 1 0x2000#64)),
    .call (.task (.create 1 0x3000#64)), .run 3] ++ List.replicate 10 .advance

/-- The last one is passed over twice, within the bound of three. -/
theorem bounded_bypass_threePeersRun :
    let s := (System.after _ threePeersRun).2
    let r := played step s ([.advance, .ret] ++ cycleActions _)
    r.1.countP isDecision = 2 ∧
      r.1.countP isDecision ≤ 1 * (((s.machine.sched.peersAhead 2).filter
        fun j => s.machine.sched.rtosCurrentTask ≠ some j).card + 1) := by
  have hp : (System.after _ threePeersRun).2.phase = .decide 2 := by decide +kernel
  constructor
  · decide +kernel
  · exact bounded_bypass (System.boot_initial _) (run_played _ threePeersRun) (by decide +kernel)
      hp (run_played _ _) (by decide +kernel)

end MiniRtos
