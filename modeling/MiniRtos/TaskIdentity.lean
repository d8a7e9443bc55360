import MiniRtos.EffectTargets
import MiniRtos.SchedulingDecision

/-!
# What an identifier stands for

A task is created with its identifier, priority, function and stack, and the kernel writes
them at no other time. So an identifier stands for the same task as long as `rtos_init` is
not called again, and each function that takes one answers for that task.
-/
namespace MiniRtos
open TransitionSystem
variable {cfg : Config}

/-- The fields that only the creation of the task writes. -/
def TCB.identity (b : TCB) : ℤ × ℤ × BitVec 64 × (ℕ → BitVec 64) × ℕ × ℕ :=
  (b.taskId, b.priority, b.taskFunction, b.stackMemory, b.stackSize, b.stackPointer)

namespace Sched
variable {s s' : Sched cfg}

theorem setTaskState_identity (s : Sched cfg) (i : ℤ) (st : TaskState) (r : BlockReason)
    (j : ℕ) : ((s.schedulerSetTaskState i st r).taskList j).identity = (s.taskList j).identity := by
  by_cases h : (j : ℤ) = i
  · subst h
    by_cases hr : j < s.taskCount
    · rw [s.setTaskState_self hr]
      rfl
    · rw [s.setTaskState_out_of_range (by omega)]
  · rw [s.setTaskState_of_ne h]

theorem timerUpdateSleep_identity (s : Sched cfg) (j : ℕ) :
    (s.timerUpdateSleep.taskList j).identity = (s.taskList j).identity := by
  refine timerUpdateSleep_induction
    (P := fun u => (u.taskList j).identity = (s.taskList j).identity) rfl fun u i hu => ?_
  have hm : ((u.modifyTask i fun t => { t with sleepTicks := t.sleepTicks - 1 }).taskList
      j).identity = (u.taskList j).identity := u.modifyTask_field TCB.identity rfl j
  rw [← hu]
  unfold updateSleepTask
  simp only
  split_ifs
  · rfl
  · rw [setTaskState_identity, hm]
  · exact hm

theorem taskReturned_identity (s : Sched cfg) (t j : ℕ) :
    ((s.taskReturned t).taskList j).identity = (s.taskList j).identity := by
  unfold taskReturned
  split_ifs
  · exact setTaskState_identity _ _ _ _ j
  · rfl

theorem Decides.identity {active active' : CPUContext} {r : Option (Branch × ℕ)}
    (d : s.Decides active (r, s', active')) (j : ℕ) :
    (s'.taskList j).identity = (s.taskList j).identity := by
  generalize hres : (r, s', active') = res at d
  cases d with
  | idle =>
      simp only [Prod.mk.injEq] at hres
      obtain ⟨-, rfl, -⟩ := hres
      exact s.resetSlice_field _ TCB.identity (fun _ _ => rfl) j
  | @switched best b hb guard =>
      simp only [Prod.mk.injEq] at hres
      obtain ⟨-, hs⟩ := hres
      rw [show s' = _ from congrArg Prod.fst hs, doContextSwitch_eq]
      exact (setTaskState_identity _ _ _ _ j).trans
        (s.switchTable_field active _ best TCB.identity (fun _ => rfl) (fun _ => rfl) j)
  | @continued c best hc hst =>
      simp only [Prod.mk.injEq] at hres
      obtain ⟨-, rfl, -⟩ := hres
      exact (setTaskState_identity _ _ _ _ j).trans (s.modifyTask_field TCB.identity rfl j)

/-- What a control block gets when its task is created. -/
def newIdentity (cfg : Config) (i : ℕ) (b : TCB) (priority : ℤ) (taskFunction : BitVec 64) :
    ℤ × ℤ × BitVec 64 × (ℕ → BitVec 64) × ℕ × ℕ :=
  (i + 1, priority, taskFunction, (initTaskStack cfg b).stackMemory, rtosStackWords cfg * 8,
    rtosStackWords cfg)

theorem rtosCreateTask_identity (s : Sched cfg) (p : ℤ) (f : BitVec 64) (j : ℕ) :
    (((s.rtosCreateTask p f).2).taskList j).identity =
      if cfg.rtosMaxTasks ≤ s.taskCount ∨ j ≠ s.taskCount then (s.taskList j).identity
      else newIdentity cfg j (s.taskList j) p f := by
  rw [rtosCreateTask_sched]
  by_cases hfull : cfg.rtosMaxTasks ≤ s.taskCount
  · simp [hfull]
  by_cases hj : j = s.taskCount
  · rw [if_neg hfull, setTaskState_identity, if_neg (by simp [hfull, hj])]
    simp [addTask, hj, modifyTask, TCB.identity, newIdentity, initTaskStack]
  · rw [if_neg hfull, setTaskState_identity, if_pos (.inr hj), s.addTask_of_ne p f hj]

end Sched

theorem Effect.apply_identity (s : Sched cfg) (e : Effect) {i : ℕ} (hi : i < s.taskCount) :
    ((e.apply s).taskList i).identity = (s.taskList i).identity := by
  refine e.apply_induction (P := fun u => (u.taskList i).identity = (s.taskList i).identity)
    rfl ?_ ?_ ?_
  · intro p f _
    rw [s.rtosCreateTask_identity, if_pos (.inr hi.ne)]
  · exact fun t n _ => s.modifyTask_field TCB.identity rfl i
  · exact fun u j st r hu => (u.setTaskState_identity j st r i).trans hu

section Steps
variable {u w : System cfg} {a : Action cfg} {o : Observation cfg}

/-- No step but `rtos_init` changes what identifies a task. -/
theorem StepCases.identity (h : StepCases u a o w) (hu : Inv u) (ha : a ≠ .init) {i : ℕ}
    (hi : i < u.machine.sched.taskCount) :
    (w.machine.sched.taskList i).identity = (u.machine.sched.taskList i).identity := by
  cases h with
  | init => exact absurd rfl ha
  | call _ hexec =>
      rw [Machine.exec_sched hexec]
      exact Effect.apply_identity _ _ hi
  | taskReturned => exact Sched.taskReturned_identity _ _ i
  | tick => exact Sched.timerUpdateSleep_identity _ i
  | idle hp hd | taskCalled hp hd => exact (hd ▸ hu.decides hp).identity i
  | _ => rfl

end Steps

/-- Every task of the table has what its creation gave it. -/
def Sched.Assigned (s : Sched cfg) : Prop :=
  ∀ i < s.taskCount, ∃ b p f, (s.taskList i).identity = Sched.newIdentity cfg i b p f

theorem Effect.apply_assigned {s : Sched cfg} (h : s.Assigned) (e : Effect) :
    (e.apply s).Assigned := by
  intro i hi
  by_cases hlt : i < s.taskCount
  · rw [Effect.apply_identity s e hlt]
    exact h i hlt
  cases e with
  | create p f =>
      obtain ⟨rfl, -⟩ := Effect.apply_created s _ (not_lt.mp hlt) hi
      have hroom : ¬ cfg.rtosMaxTasks ≤ s.taskCount := by
        intro hfull
        simp [Effect.apply, Sched.rtosCreateTask_sched, hfull] at hi
      refine ⟨s.taskList s.taskCount, p, f, ?_⟩
      rw [Effect.apply, s.rtosCreateTask_identity, if_neg (by simp [hroom])]
  | _ =>
      rw [Effect.apply_taskCount _ (by simp)] at hi
      exact absurd hi hlt

theorem StepCases.assigned {u w : System cfg} {a : Action cfg} {o : Observation cfg}
    (h : StepCases u a o w) (hu : Inv u) (hs : u.machine.sched.Assigned) :
    w.machine.sched.Assigned := by
  by_cases ha : a = .init
  · subst ha
    cases h with
    | init => exact fun i hi => absurd hi (by simp [Machine.rtosInit])
  by_cases hc : ∃ c, a = .call c
  · obtain ⟨c, rfl⟩ := hc
    cases h with
    | call _ hexec =>
        rw [Machine.exec_sched hexec]
        exact Effect.apply_assigned hs _
  · push Not at hc
    intro i hi
    rw [(h.taskCount hu ha).2 hc] at hi
    rw [h.identity hu ha hi]
    exact hs i hi

theorem Reachable.assigned {s : System cfg} (h : Reachable s) : s.machine.sched.Assigned := by
  have hinv : Inv s ∧ s.machine.sched.Assigned := by
    refine h.invariant (P := fun u => Inv u ∧ u.machine.sched.Assigned) ?_ ?_
    · rintro u hu
      obtain ⟨-, m, hm⟩ := id hu
      exact ⟨hu.inv, fun i hi => absurd hi (by simp [hm, Machine.rtosInit])⟩
    · exact fun u a o w hu hs => ⟨hu.1.step hs, (step_cases hs).assigned hu.1 hu.2⟩
  exact hinv.2

/-- What the functions that take an identifier answer for task `i`. -/
structure Sched.KnownAs (s : Sched cfg) (taskId : ℤ) (i : ℕ) : Prop where
  index : s.taskIndexFromId taskId = some i
  state : s.rtosGetTaskState taskId = (s.taskList i).state
  stackBase : s.rtosGetTaskStackBase taskId = some i
  stackPointer : s.rtosGetTaskStackPointer taskId = some (i, rtosStackWords cfg)
  stackSize : s.rtosGetTaskStackSize taskId = rtosStackWords cfg * 8
  stackMemory : ∀ j < rtosStackWords cfg, (s.taskList i).stackMemory j = 0#64

/-- What they answer for an identifier of no task. -/
structure Sched.Unknown (s : Sched cfg) (taskId : ℤ) : Prop where
  index : s.taskIndexFromId taskId = none
  state : s.rtosGetTaskState taskId = .suspended
  stackBase : s.rtosGetTaskStackBase taskId = none
  stackPointer : s.rtosGetTaskStackPointer taskId = none
  stackSize : s.rtosGetTaskStackSize taskId = 0

namespace Sched
variable {s : Sched cfg}

theorem Assigned.taskId (h : s.Assigned) {i : ℕ} (hi : i < s.taskCount) :
    (s.taskList i).taskId = i + 1 := by
  obtain ⟨b, p, f, hid⟩ := h i hi
  exact congrArg Prod.fst hid

theorem Assigned.knownAs (h : s.Assigned) {i : ℕ} (hi : i < s.taskCount) :
    s.KnownAs (i + 1) i := by
  obtain ⟨b, p, f, hid⟩ := h i hi
  simp only [TCB.identity, newIdentity, Prod.mk.injEq] at hid
  obtain ⟨-, -, -, hmemory, hsize, hpointer⟩ := hid
  have hindex : s.taskIndexFromId (i + 1) = some i := by
    rw [taskIndexFromId, List.find?_range_eq_some]
    refine ⟨by simp [h.taskId hi], List.mem_range.mpr hi, fun j hj => ?_⟩
    simp only [h.taskId (hj.trans hi), Bool.not_eq_true', decide_eq_false_iff_not]
    omega
  refine ⟨hindex, ?_, ?_, ?_, ?_, ?_⟩
  · simp [rtosGetTaskState, hindex]
  · simp [rtosGetTaskStackBase, hindex]
  · simp [rtosGetTaskStackPointer, hindex, hpointer]
  · simp [rtosGetTaskStackSize, hindex, hsize]
  · intro j hj
    simp [hmemory, initTaskStack, hj]

theorem Assigned.unknown (h : s.Assigned) {taskId : ℤ} (hid : taskId < 1 ∨ s.taskCount < taskId) :
    s.Unknown taskId := by
  have hindex : s.taskIndexFromId taskId = none := by
    rw [taskIndexFromId, List.find?_range_eq_none]
    intro i hi
    simp only [h.taskId hi, Bool.not_eq_true', decide_eq_false_iff_not]
    omega
  constructor <;>
    simp [rtosGetTaskState, rtosGetTaskStackBase, rtosGetTaskStackPointer,
      rtosGetTaskStackSize, hindex]

/-- The count that `rtos_ready_count` returns. -/
theorem WellFormed.readyCount (h : s.WellFormed) : s.rtosReadyCount = s.readyTasks.card := by
  have hqueue : s.readyQueue.toFinset = s.readyTasks :=
    Finset.ext fun i => List.mem_toFinset.trans h.mem_queue_iff
  rw [← hqueue, List.toFinset_card_of_nodup h.nodup]
  rfl

end Sched

/-- Between two calls of `rtos_init` identifiers stand for the same tasks. -/
theorem task_identity {s v : System cfg} {tr : History cfg} (hs : Reachable s)
    (h : Run step s tr v) (hi : ∀ e ∈ tr, e.act ≠ .init) :
    s.machine.sched.taskCount ≤ v.machine.sched.taskCount ∧
      (∀ i < s.machine.sched.taskCount,
        (v.machine.sched.taskList i).identity = (s.machine.sched.taskList i).identity) ∧
      (∀ i < v.machine.sched.taskCount, v.machine.sched.KnownAs (i + 1) i) ∧
      (∀ taskId : ℤ, taskId < 1 ∨ v.machine.sched.taskCount < taskId →
        v.machine.sched.Unknown taskId) ∧
      v.machine.sched.rtosReadyCount = v.machine.sched.readyTasks.card := by
  have hv : Reachable v := hs.extend h
  have hkept : Inv v ∧ s.machine.sched.taskCount ≤ v.machine.sched.taskCount ∧
      ∀ i < s.machine.sched.taskCount,
        (v.machine.sched.taskList i).identity = (s.machine.sched.taskList i).identity := by
    refine h.invariant_on (P := fun v => Inv v ∧
      s.machine.sched.taskCount ≤ v.machine.sched.taskCount ∧
      ∀ i < s.machine.sched.taskCount,
        (v.machine.sched.taskList i).identity = (s.machine.sched.taskList i).identity)
      ⟨hs.inv, le_rfl, fun _ _ => rfl⟩ hi ?_
    rintro u a o w ⟨hu, hle, hid⟩ ha hstep
    have hc := step_cases hstep
    refine ⟨hu.step hstep, hle.trans (hc.taskCount hu ha).1, fun i hlt => ?_⟩
    rw [hc.identity hu ha (hlt.trans_le hle), hid i hlt]
  exact ⟨hkept.2.1, hkept.2.2, fun i hlt => hv.assigned.knownAs hlt,
    fun taskId hid => hv.assigned.unknown hid, hv.inv.wellFormed.readyCount⟩

/-- A task that exists creates another one and goes to sleep. -/
def creatorRun : List (Action Config.default) :=
  [.run 1] ++ cycleActions _ ++
    [.call (.task (.create 7 0x2000#64)), .call (.task (.sleep 3)), .ret]

theorem task_identity_creatorRun :
    let s := (System.after _ [.call (.task (.create 2 0x1000#64))]).2
    let v := (played step s creatorRun).2
    v.machine.sched.rtosGetTaskState 1 = .blocked ∧
      (v.machine.sched.taskList 0).identity = (s.machine.sched.taskList 0).identity ∧
      v.machine.sched.KnownAs 2 1 ∧ v.machine.sched.Unknown 3 ∧
      v.machine.sched.rtosReadyCount = 1 := by
  obtain ⟨-, hid, hknown, hunknown, -⟩ := task_identity
    (System.after_reachable [.call (.task (.create 2 0x1000#64))]) (run_played _ creatorRun)
    (by decide +kernel)
  exact ⟨by decide +kernel, hid 0 (by decide +kernel), hknown 1 (by decide +kernel),
    hunknown 3 (by decide +kernel), by decide +kernel⟩

end MiniRtos
