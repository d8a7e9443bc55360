import MiniRtos.SignedArithmetic

/-!
# Which signed counters can overflow

The ready queue never holds more entries than there are tasks, and the pool, a message
queue and a waiter table have counters with bounds of their own, so their arithmetic stays
small. Nothing bounds the argument of `rtos_task_sleep` from below, nor the count of a
semaphore from above: these two are kept in range by what the program does.
-/
namespace MiniRtos
open TransitionSystem
variable {cfg : Config}

namespace Sched
variable {s : Sched cfg}

section ReadyCount

/-- Every value of the list is an `int`. -/
abbrev AllInt (l : List ℤ) : Prop := ∀ v ∈ l, IsInt v

theorem allInt_append {l l' : List ℤ} (h : AllInt l) (h' : AllInt l') : AllInt (l ++ l') := by
  intro v hv
  rcases List.mem_append.mp hv with hv | hv
  · exact h v hv
  · exact h' v hv

theorem allInt_nil : AllInt [] := fun _ hv => absurd hv List.not_mem_nil

theorem QueueFits.length_int (h : s.QueueFits) : (s.readyQueue.length : ℤ) < 2 ^ 31 := by
  have hle := h.queue_length
  have hcount := h.count_le
  have hmax := cfg.maxTasks_int
  omega

theorem QueueFits.removeArithmetic (h : s.QueueFits) (i : ℕ) :
    AllInt (s.removeArithmetic i) := by
  have hlength := h.length_int
  intro v hv
  unfold Sched.removeArithmetic at hv
  split_ifs at hv with hi
  · rw [List.mem_singleton.mp hv]
    constructor <;> omega
  · cases hv

theorem enqueueArithmetic_allInt (s : Sched cfg) (i : ℤ) : AllInt (s.enqueueArithmetic i) := by
  have hmax := cfg.maxTasks_int
  intro v hv
  unfold enqueueArithmetic at hv
  split_ifs at hv with h₁ h₂ h₃
  · cases hv
  · cases hv
  · cases hv
  · rw [List.mem_singleton.mp hv]
    obtain ⟨hroom, -⟩ := not_or.mp h₃
    constructor <;> omega

theorem QueueFits.setTaskStateArithmetic (h : s.QueueFits) (i : ℤ) (st : TaskState) :
    AllInt (s.setTaskStateArithmetic i st) := by
  unfold Sched.setTaskStateArithmetic
  split_ifs
  · exact allInt_nil
  · exact allInt_append (h.removeArithmetic _) (enqueueArithmetic_allInt _ _)
  · exact allInt_append (h.removeArithmetic _) allInt_nil

theorem QueueFits.peekArithmetic (h : s.QueueFits) : AllInt s.peekArithmetic := by
  have hlength := h.length_int
  have hle := List.countP_le_length (p := fun i => !s.isReady i) (l := s.readyQueue)
  intro v hv
  obtain ⟨k, hk, rfl⟩ := List.mem_map.mp hv
  have hlt := List.mem_range.mp hk
  constructor <;> omega

theorem Shape.switchArithmetic (h : s.Shape) (outgoing : Option ℕ) (best : ℕ) :
    AllInt (s.switchArithmetic outgoing best) := by
  have hswitch : ∀ (r : List ℤ) (u : Sched cfg), AllInt r → u.Shape →
      AllInt (r ++ u.removeArithmetic best ++
        (u.readyQueuePop best).setTaskStateArithmetic best .running) := by
    intro r u hr hu
    refine allInt_append (allInt_append hr (hu.queueFits.removeArithmetic best)) ?_
    exact (hu.readyQueuePop best).queueFits.setTaskStateArithmetic best .running
  unfold Sched.switchArithmetic
  cases outgoing with
  | none => exact hswitch _ _ allInt_nil h
  | some c =>
      by_cases hr : (s.taskList c).state = .running
      · have hrequeue : s.requeueOutgoing c = s.schedulerSetTaskState c .ready .none :=
          if_pos hr
        simp only [if_pos hr, hrequeue]
        exact hswitch _ _ (h.queueFits.setTaskStateArithmetic _ _) (h.setTaskState _ _ _)
      · simp only [if_neg hr]
        exact hswitch _ _ allInt_nil h

theorem WellFormed.decideArithmetic (h : s.WellFormed) : AllInt s.decideArithmetic := by
  refine allInt_append h.queueFits.peekArithmetic ?_
  rw [h.peek_eq]
  cases s.readyQueue.argmax s.prio with
  | none => exact allInt_nil
  | some best =>
      simp only
      cases s.rtosCurrentTask with
      | none => exact h.switchArithmetic none best
      | some c =>
          simp only
          split_ifs
          · exact h.switchArithmetic none best
          · exact h.switchArithmetic (some c) best
          · exact h.switchArithmetic (some c) best
          · exact h.queueFits.setTaskStateArithmetic _ _

theorem Shape.wakeLoopArithmetic (h : s.Shape) (ts : List ℤ) :
    AllInt (wakeLoopArithmetic ts s) := by
  induction ts generalizing s with
  | nil => exact allInt_nil
  | cons i ts ih =>
      exact allInt_append (h.queueFits.setTaskStateArithmetic i .ready)
        (ih (h.setTaskState i .ready .none))

theorem Shape.effectArithmetic (h : s.Shape) (e : Effect) : AllInt (e.arithmetic s) := by
  have hset := h.queueFits.setTaskStateArithmetic
  cases e with
  | none => exact allInt_nil
  | create p f =>
      simp only [Effect.arithmetic]
      split_ifs with hfull
      · exact allInt_nil
      · have hmax := cfg.maxTasks_int
        refine List.forall_mem_cons.mpr ⟨?_, List.forall_mem_cons.mpr ⟨?_, ?_⟩⟩
        · constructor <;> omega
        · constructor <;> omega
        · exact (h.addTask (not_le.mp hfull) p f).queueFits.setTaskStateArithmetic _ _
  | sleep n =>
      simp only [Effect.arithmetic]
      split_ifs
      · exact hset _ _
      · exact allInt_nil
  | park | suspend | resume => exact hset _ _
  | unblock r =>
      simp only [Effect.arithmetic, unblockOneArithmetic]
      cases s.unblockScan r with
      | none => exact allInt_nil
      | some best => exact hset _ _
  | wake ts => exact h.wakeLoopArithmetic ts

end ReadyCount

section SleepTicks

/-- The count of every task is an `int`. -/
def SleepTicksInt (s : Sched cfg) : Prop := ∀ i < s.taskCount, IsInt (s.taskList i).sleepTicks

theorem isInt_zero : IsInt 0 := by decide

theorem SleepTicksInt.congr {s' : Sched cfg} (h : s.SleepTicksInt)
    (hcount : s'.taskCount = s.taskCount)
    (hticks : ∀ i, (s'.taskList i).sleepTicks = (s.taskList i).sleepTicks) :
    s'.SleepTicksInt := by
  intro i hi
  rw [hticks i]
  exact h i (hcount ▸ hi)

theorem SleepTicksInt.modifyTask (h : s.SleepTicksInt) {i : ℕ} {f : TCB → TCB}
    (hf : (f (s.taskList i)).sleepTicks = (s.taskList i).sleepTicks) :
    (s.modifyTask i f).SleepTicksInt :=
  h.congr rfl fun j => s.modifyTask_field TCB.sleepTicks hf j

theorem SleepTicksInt.setTaskState (h : s.SleepTicksInt) (i : ℤ) (st : TaskState)
    (r : BlockReason) : (s.schedulerSetTaskState i st r).SleepTicksInt := by
  intro j hj
  rw [setTaskState_taskCount] at hj
  by_cases hji : (j : ℤ) = i
  · subst hji
    rw [s.setTaskState_self hj, TCB.withState]
    split_ifs
    · exact isInt_zero
    · exact h j hj
  · rw [s.setTaskState_of_ne hji]
    exact h j hj

theorem SleepTicksInt.addTask (h : s.SleepTicksInt) (p : ℤ) (f : BitVec 64) :
    (s.addTask p f).SleepTicksInt := by
  intro i hi
  by_cases hnew : i = s.taskCount
  · simpa [Sched.addTask, hnew, modifyTask] using isInt_zero
  · rw [s.addTask_of_ne p f hnew]
    exact h i (by simp only [Sched.addTask] at hi; omega)

/-- Only the argument of `rtos_task_sleep` is stored as it comes. -/
theorem SleepTicksInt.apply (h : s.SleepTicksInt) (e : Effect)
    (hsleep : ∀ n, e = .sleep n → IsInt n) : (e.apply s).SleepTicksInt := by
  refine e.apply_induction h ?_ ?_ ?_
  · intro p f _
    rw [rtosCreateTask_sched]
    split_ifs
    · exact h
    · exact (h.addTask p f).setTaskState _ _ _
  · intro t n he i hi
    by_cases hit : i = t
    · subst hit
      rw [modifyTask_self]
      exact hsleep n he
    · rw [s.modifyTask_of_ne _ hit]
      exact h i hi
  · intro u i st r hu
    exact hu.setTaskState i st r

theorem SleepTicksInt.decides (h : s.SleepTicksInt) {active active' : CPUContext}
    {r : Option (Branch × ℕ)} {s' : Sched cfg} (d : s.Decides active (r, s', active')) :
    s'.SleepTicksInt := by
  generalize hres : (r, s', active') = res at d
  cases d with
  | idle =>
      simp only [Prod.mk.injEq] at hres
      obtain ⟨-, rfl, -⟩ := hres
      exact h.congr (by simp) (s.resetSlice_field _ TCB.sleepTicks fun _ _ => rfl)
  | @switched best b hb guard =>
      obtain ⟨-, hs⟩ := Prod.mk.inj hres
      rw [show s' = _ from congrArg Prod.fst hs, doContextSwitch_eq]
      have htable : (s.switchTable active s.rtosCurrentTask best).SleepTicksInt :=
        h.congr (by simp) (s.switchTable_field active _ best TCB.sleepTicks
          (fun _ => rfl) fun _ => rfl)
      exact htable.setTaskState best .running .none
  | @continued c best =>
      obtain ⟨-, hs⟩ := Prod.mk.inj hres
      rw [show s' = _ from congrArg Prod.fst hs, continueCurrent]
      have hslice : (s.modifyTask c fun t =>
          { t with sliceTicksUsed := t.sliceTicksUsed + 1#32 }).SleepTicksInt := h.modifyTask rfl
      exact hslice.setTaskState c .running .none

/-- Task `i` sleeps, and its count can go down. -/
def Sleeper (s : Sched cfg) (i : ℕ) : Prop :=
  (s.taskList i).state = .blocked ∧ (s.taskList i).blockReason = .sleep

instance (i : ℕ) : Decidable (s.Sleeper i) := inferInstanceAs (Decidable (_ ∧ _))

theorem SleepTicksInt.timerUpdateSleep (h : s.SleepTicksInt)
    (hdown : ∀ i < s.taskCount, s.Sleeper i → IsInt ((s.taskList i).sleepTicks - 1)) :
    s.timerUpdateSleep.SleepTicksInt := by
  intro i hi
  rw [timerUpdateSleep_taskCount] at hi
  rw [timerUpdateSleep_taskList hi]
  unfold TCB.afterTick
  split_ifs with hb hz
  · exact h i hi
  · exact isInt_zero
  · push Not at hb
    exact hdown i hi hb

/-- The loop decrements the counts it finds, each once. -/
theorem Shape.sleepLoopArithmetic {l : List ℕ} (h : s.Shape) (hl : l.Nodup)
    (hlt : ∀ i ∈ l, i < s.taskCount)
    (hdown : ∀ i ∈ l, s.Sleeper i → IsInt ((s.taskList i).sleepTicks - 1)) :
    AllInt (sleepLoopArithmetic l s) := by
  induction l generalizing s with
  | nil => exact allInt_nil
  | cons i l ih =>
      obtain ⟨hni, hl⟩ := List.nodup_cons.mp hl
      have hi : i < s.taskCount := hlt i (by simp)
      have hm : (s.modifyTask i fun t => { t with sleepTicks := t.sleepTicks - 1 }).Shape :=
        h.modifyTask rfl
      refine allInt_append ?_ (ih ?_ hl ?_ ?_)
      · unfold updateSleepArithmetic
        split_ifs with hb
        · exact allInt_nil
        · push Not at hb
          refine List.forall_mem_cons.mpr ⟨hdown i (by simp) hb, ?_⟩
          split_ifs
          · exact hm.queueFits.setTaskStateArithmetic _ _
          · exact allInt_nil
      · unfold Sched.updateSleepTask
        simp only
        split_ifs
        · exact h
        · exact hm.setTaskState _ _ _
        · exact hm
      · intro j hj
        rw [updateSleepTask_taskCount]
        exact hlt j (by simp [hj])
      · intro j hj
        have hji : j ≠ i := fun he => hni (he ▸ hj)
        unfold Sleeper
        rw [updateSleepTask_taskList hi, Function.update_of_ne hji]
        exact hdown j (by simp [hj])

end SleepTicks

end Sched

end MiniRtos
