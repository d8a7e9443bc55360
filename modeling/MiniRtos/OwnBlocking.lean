import MiniRtos.CurrentTask
import MiniRtos.StatusChange

/-!
# Who a blocking call blocks

`scheduler_set_current_task_state` blocks the task whose index was stored last, and that
index outlives the execution of the task. While a task function runs it is the caller;
in a timer callback, or in the main program between two runs, it is the task that
happened to run last. Only such a call can block a task that did not ask for it.
-/
namespace MiniRtos
open TransitionSystem
variable {cfg : Config}

/-- The calls that can block. -/
def Call.mayBlock : Call cfg → Bool
  | .task (.sleep _) | .sync (.semWait _) | .sync (.mutexLock _) | .sync (.queueSend _ _)
  | .sync (.queueReceive _) | .event (.wait _ _) => true
  | _ => false

namespace Machine

/-- The reason with which the call would block the current task, if it has to block. -/
def blockingReason (m : Machine cfg) (c : Call cfg) : Option BlockReason :=
  match m.effect c with
  | .sleep _ => some .sleep
  | .park r _ => some r
  | _ => none

variable {m : Machine cfg} {t : ℕ} {c : Call cfg} {st : TaskState × BlockReason}

theorem StatusChange.blocks (h : m.StatusChange t c st) (hst : st.1 = .blocked) :
    m.blockingReason c = some st.2 ∧ m.sched.rtosCurrentTask = some t := by
  cases h with
  | slept hc => exact ⟨rfl, hc⟩
  | parked _ _ he hc => exact ⟨by simp only [blockingReason, effect, he], hc⟩
  | waited he hc => exact ⟨by simp only [blockingReason, he], hc⟩
  | _ => cases hst

/-- A call that has to block does block the current task, with that reason. -/
theorem status_of_blockingReason {m' : Machine cfg} {v : Value} {r : BlockReason}
    (h : m.exec c = some (v, m')) (hr : m.blockingReason c = some r)
    (ht : m.sched.rtosCurrentTask = some t) : m'.sched.status t = (.blocked, r) := by
  obtain ⟨hcur, hlt⟩ := m.sched.rtosCurrentTask_eq_some.mp ht
  rw [exec_sched h]
  simp only [blockingReason] at hr
  generalize m.effect c = e at hr
  cases e with
  | sleep n =>
      cases hr
      simp only [Effect.apply, Sched.rtosTaskSleep, ht, Sched.schedulerSetCurrentTaskState]
      rw [Sched.setTaskState_status, if_pos ⟨hcur.symm, hlt⟩]
      rfl
  | park r' _ =>
      cases hr
      simp only [Effect.apply, Sched.schedulerSetCurrentTaskState]
      rw [Sched.setTaskState_status, if_pos ⟨hcur.symm, hlt⟩]
      rfl
  | _ => cases hr

/-- Besides blocking, a call that can block only ever wakes a waiting task. -/
theorem StatusChange.wakes (h : m.StatusChange t c st) (hc : c.mayBlock) (hst : st.1 ≠ .blocked) :
    (m.sched.taskList t).state = .blocked ∧ st = (.ready, .none) := by
  cases h with
  | unblocked _ _ _ hb =>
      have hwaits := (Sched.mem_blockedOn.mp (List.argmax_mem hb)).2
      exact ⟨congrArg Prod.fst hwaits, rfl⟩
  | slept | parked | waited => exact absurd rfl hst
  | _ => simp [Call.mayBlock] at hc

end Machine

/-- The step blocks the task that ran last, or changes why it is blocked, though no task
function is executing. -/
def blocksLastTask (e : Edge cfg) : Bool :=
  match e.act, e.src.machine.sched.rtosCurrentTask with
  | .call c, some t =>
      !e.src.phase.isTask &&
        (e.src.machine.blockingReason c).any fun r => e.src.machine.sched.status t ≠ (.blocked, r)
  | _, _ => false

/-- The step blocks no task but the one whose function makes the call. -/
structure OwnCallsOnly (e : Edge cfg) : Prop where
  /-- Who enters BLOCKED, or is BLOCKED for another reason than before, is executing. -/
  blocked : ∀ t, (e.dst.machine.sched.taskList t).state = .blocked →
    e.dst.machine.sched.status t ≠ e.src.machine.sched.status t →
      (∃ c, e.act = .call c) ∧ ∃ left, e.src.phase = .task left t
  /-- A call by a timer callback leaves every task as it is, or wakes one that waits. -/
  callback : ∀ c left i, e.act = .call c → c.mayBlock → e.src.phase = .callback left i →
    ∀ t, e.dst.machine.sched.status t = e.src.machine.sched.status t ∨
      (e.src.machine.sched.taskList t).state = .blocked ∧
        e.dst.machine.sched.status t = (.ready, .none)

def OnlyOwnCallsBlock (cfg : Config) : Prop :=
  ∀ (s v : System cfg) (tr : History cfg), Reachable s → Run step s tr v →
    ∀ e ∈ tr, OwnCallsOnly e

section Steps
variable {u w : System cfg} {a : Action cfg} {o : Observation cfg}

/-- A task that is blocked anew is the current one, and a call does it. -/
theorem StepCases.blocked (h : StepCases u a o w) (hu : Inv u) {t : ℕ}
    (hb : (w.machine.sched.taskList t).state = .blocked)
    (hne : w.machine.sched.status t ≠ u.machine.sched.status t) :
    ∃ c, a = .call c ∧ u.machine.blockingReason c = some (w.machine.sched.status t).2 ∧
      u.machine.sched.rtosCurrentTask = some t := by
  cases h.status hu t with
  | kept he => exact absurd he hne
  | @called c ha hc => exact ⟨c, ha, hc.blocks hb⟩
  | awoken _ he | dispatched _ _ _ he | takenBack _ he =>
      cases hb.symm.trans (congrArg Prod.fst he)

theorem OwnCallsOnly.of_step (hu : Inv u) (hs : step u a = some (o, w))
    (hspares : ¬ blocksLastTask (⟨u, a, o, w⟩ : Edge cfg)) :
    OwnCallsOnly (⟨u, a, o, w⟩ : Edge cfg) := by
  have hblocked : ∀ t, (w.machine.sched.taskList t).state = .blocked →
      w.machine.sched.status t ≠ u.machine.sched.status t →
        (∃ c, a = .call c) ∧ ∃ left, u.phase = .task left t := by
    intro t hb hne
    obtain ⟨c, rfl, hr, hcur⟩ := (step_cases hs).blocked hu hb hne
    refine ⟨⟨c, rfl⟩, ?_⟩
    by_cases hp : u.phase.isTask
    · obtain ⟨left, t', hp⟩ := Phase.isTask_iff.mp hp
      obtain ⟨-, hidx⟩ := hu.task left t' hp
      have hidx' := (u.machine.sched.rtosCurrentTask_eq_some.mp hcur).1
      obtain rfl : t' = t := by omega
      exact ⟨left, hp⟩
    · refine absurd ?_ hspares
      have hst : w.machine.sched.status t = (.blocked, (w.machine.sched.status t).2) :=
        Prod.ext hb rfl
      simpa [blocksLastTask, hcur, hp, hr] using fun he => hne (hst.trans he.symm)
  constructor
  · exact hblocked
  · intro c left i ha hc hp t
    subst ha
    by_cases hne : w.machine.sched.status t = u.machine.sched.status t
    · exact .inl hne
    right
    have hnb : (w.machine.sched.taskList t).state ≠ .blocked := by
      intro hb
      obtain ⟨l, hl⟩ := (hblocked t hb hne).2
      cases hp.symm.trans hl
    cases step_cases hs with
    | call _ hexec =>
        have hsched := Machine.exec_sched hexec
        rcases Effect.apply_status u.machine.sched (u.machine.effect c) t with he | he
        · exact absurd (hsched ▸ he) hne
        · exact (Machine.statusChange_of_changes (hsched ▸ he)).wakes hc hnb

/-- A step keeps to its own task exactly if it does not block the one that ran last. -/
theorem ownCallsOnly_iff (hu : Inv u) (hs : step u a = some (o, w)) :
    OwnCallsOnly (⟨u, a, o, w⟩ : Edge cfg) ↔ ¬ blocksLastTask (⟨u, a, o, w⟩ : Edge cfg) := by
  constructor
  · intro h hlast
    cases step_cases hs with
    | @call c v m hp hexec =>
        simp only [blocksLastTask] at hlast
        split at hlast
        · next ha hcur =>
          obtain rfl := Action.call.inj ha
          simp only [Bool.and_eq_true, Bool.not_eq_true', Option.any_eq_true,
            decide_eq_true_eq] at hlast
          obtain ⟨hnt, r, hr, hne⟩ := hlast
          have hst := Machine.status_of_blockingReason hexec hr hcur
          obtain ⟨-, left, hpt⟩ := h.blocked _ (congrArg Prod.fst hst)
            (fun he => hne (he.symm.trans hst))
          simp only at hpt
          simp [hpt, Phase.isTask] at hnt
        · cases hlast
    | _ => simp [blocksLastTask] at hlast
  · exact .of_step hu hs

end Steps

/-- In a run without such a call every task is blocked by its own calls only, and any
step after it keeps to that exactly if it is no such call. -/
theorem own_calls_block_iff {s v : System cfg} {tr : History cfg} (hs : Reachable s)
    (h : Run step s tr v) (hspares : ∀ e ∈ tr, ¬ blocksLastTask e) :
    (∀ e ∈ tr, OwnCallsOnly e) ∧
      ∀ a o w, step v a = some (o, w) →
        (OwnCallsOnly (⟨v, a, o, w⟩ : Edge cfg) ↔ ¬ blocksLastTask (⟨v, a, o, w⟩ : Edge cfg)) := by
  constructor
  · intro e he
    obtain ⟨hreach, hstep⟩ := hs.edge h he
    exact .of_step (Reachable.inv hreach) hstep (hspares e he)
  · intro a o w hstep
    have hreach : Reachable v := hs.extend h
    exact ownCallsOnly_iff hreach.inv hstep

/-- Before the first dispatch a callback may sleep, since there is nobody to block. -/
theorem own_calls_block_iff_firstCycle :
    let s := (System.after _ firstCallbackRun).2
    let r := played step s (.call (.task (.sleep 5)) :: nextCallback)
    r.2.machine.sched.status 0 = (.ready, .none) ∧ ∀ e ∈ r.1, OwnCallsOnly e :=
  ⟨by decide +kernel,
    (own_calls_block_iff (System.after_reachable firstCallbackRun) (run_played _ _)
      (by decide +kernel)).1⟩

/-- In the second cycle the same call puts the task to sleep that ran in the first. -/
theorem others_blocked : ¬ OnlyOwnCallsBlock .default := by
  intro h
  let e : Edge Config.default := (played step (System.after _ (firstCallbackRun ++ nextCallback)).2
    [.call (.task (.sleep 5))]).1.head (by decide +kernel)
  have hown := h _ _ _ (System.after_reachable (firstCallbackRun ++ nextCallback))
    (run_played _ [.call (.task (.sleep 5))]) e (List.head_mem _)
  obtain ⟨left, hp⟩ := (hown.blocked 0 (by decide +kernel) (by decide +kernel)).2
  have hnt : e.src.phase.isTask = false := by decide +kernel
  simp [hp, Phase.isTask] at hnt

end MiniRtos
