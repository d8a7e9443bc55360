import MiniRtos.StatusChange

/-!
# What ends a suspension

A suspended task is neither a sleeper nor blocked for any reason, so the tick, the
scheduler and the four `unblock` reasons pass it by. The one operation that asks no
questions is `event_flags_set`: it makes READY whatever task an entry it selects names,
also an entry from before the suspension.
-/
namespace MiniRtos
open TransitionSystem
variable {cfg : Config}

/-- The step is one of those that should leave a suspended task `t` alone: the kernel's
own, a call by another task that does not resume `t`, or such a call from outside the
task functions that blocks nobody. -/
def sparesSuspended (t : ℕ) (e : Edge cfg) : Bool :=
  match e.act with
  | .init => false
  | .call c =>
      c ≠ .task (.resume (e.src.machine.sched.taskList t).taskId) &&
        match e.src.phase with
        | .task _ u => u ≠ t
        | _ => !e.src.machine.blocksCurrent c
  | _ => true

/-- The step is an `event_flags_set` that selects an entry naming task `t`. -/
def selectsEntryOf (t : ℕ) (e : Edge cfg) : Bool :=
  match e.act with
  | .call (.event (.set (some i) mask)) =>
      mask ≠ 0#32 &&
        (EventFlags.selected (e.src.machine.objects.eventFlags i).waiterCount
          ((e.src.machine.objects.eventFlags i).flags ||| mask)
          (e.src.machine.objects.eventFlags i).waiters).any fun w => w.taskIndex = t
  | _ => false

/-- Task `t` is suspended. -/
def Sched.Suspended (s : Sched cfg) (t : ℕ) : Prop :=
  t < s.taskCount ∧ (s.taskList t).state = .suspended

instance (s : Sched cfg) (t : ℕ) : Decidable (s.Suspended t) :=
  inferInstanceAs (Decidable (_ ∧ _))

/-- A suspension lasts until the task is resumed, and until then the task is not called. -/
def SuspensionsKept (cfg : Config) : Prop :=
  ∀ (s v : System cfg) (tr : History cfg) (t : ℕ), Reachable s → s.machine.sched.Suspended t →
    Run step s tr v → (∀ e ∈ tr, sparesSuspended t e) →
      v.machine.sched.Suspended t ∧ ∀ e ∈ tr, ∀ b, e.obs ≠ .taskCalled b t

section Steps
variable {u w : System cfg} {a : Action cfg} {o : Observation cfg} {t : ℕ}

/-- Calls that spare task `t` do not block it as the current task. -/
theorem not_current_of_spares (hu : Inv u) {c : Call cfg}
    (h : sparesSuspended t (⟨u, .call c, o, w⟩ : Edge cfg))
    (hb : u.machine.blocksCurrent c) : u.machine.sched.rtosCurrentTask ≠ some t := by
  simp only [sparesSuspended, hb, Bool.and_eq_true] at h
  cases hp : u.phase with
  | task left t' =>
      simp only [hp, ne_eq, decide_eq_true_eq] at h
      intro hcur
      have hcur' := ((Sched.rtosCurrentTask_eq_some _).mp hcur).1
      have := (hu.task left t' hp).2
      omega
  | _ => simp [hp] at h

theorem not_called_of_suspended (hu : Inv u) (hs : step u a = some (o, w))
    (hsus : u.machine.sched.Suspended t) (b : Sched.Branch) : o ≠ .taskCalled b t := by
  rintro rfl
  cases step_cases hs with
  | taskCalled hp hd =>
      have r := Sched.Decides.runs hu.wellFormed (hd ▸ hu.decides hp)
      have hready := (hu.wellFormed.mem_queue.mp r.chosen).2
      simp [hsus.2] at hready

/-- Every task a selected entry names is made READY. -/
theorem ready_of_selects (hs : step u a = some (o, w)) (hsus : u.machine.sched.Suspended t)
    (hsel : selectsEntryOf t (⟨u, a, o, w⟩ : Edge cfg)) :
    w.machine.sched.status t = (.ready, .none) := by
  simp only [selectsEntryOf] at hsel
  split at hsel
  · simp only [Bool.and_eq_true, decide_eq_true_eq, List.any_eq_true] at hsel
    obtain ⟨hm, e, he, hte⟩ := hsel
    cases step_cases hs with
    | call _ hexec =>
        rw [Machine.exec_sched hexec]
        simp only [Machine.effect, EventCall.effect, if_neg hm]
        rw [Sched.wake_status, if_pos ⟨List.mem_map.mpr ⟨e, he, hte⟩, hsus.1⟩]
  · simp at hsel

/-- Nothing else takes the task out of its suspension. -/
theorem suspended_of_not_selects (hu : Inv u) (hs : step u a = some (o, w))
    (hsus : u.machine.sched.Suspended t)
    (hspares : sparesSuspended t (⟨u, a, o, w⟩ : Edge cfg))
    (hsel : ¬ selectsEntryOf t (⟨u, a, o, w⟩ : Edge cfg)) :
    (w.machine.sched.taskList t).state = .suspended := by
  cases (step_cases hs).status hu t with
  | kept he => exact (congrArg Prod.fst he).trans hsus.2
  | awoken h₁ => simp [Sched.status, hsus.2] at h₁
  | dispatched _ _ h₁ => simp [hsus.2] at h₁
  | takenBack h₁ => simp [hsus.2] at h₁
  | @called c ha hc =>
      subst ha
      have hcur := not_current_of_spares hu hspares
      generalize hst : w.machine.sched.status t = st at hc
      cases hc with
      | created h => exact absurd h hsus.1.ne
      | slept h => exact absurd h (hcur rfl)
      | suspended _ => exact congrArg Prod.fst hst
      | resumed hid _ =>
          simp [sparesSuspended, (Sched.taskIndexFromId_spec hid).2] at hspares
      | parked _ _ he h =>
          exact absurd h (hcur (by simp [Machine.blocksCurrent, Machine.effect, he]))
      | unblocked _ _ _ hb =>
          have := (Sched.mem_blockedOn.mp (List.argmax_mem hb)).2
          simp [Sched.status, hsus.2] at this
      | waited he h => exact absurd h (hcur (by simp [Machine.blocksCurrent, he]))
      | @woken i mask e hm he hte =>
          refine absurd ?_ hsel
          simp only [selectsEntryOf, Bool.and_eq_true, decide_eq_true_eq, List.any_eq_true]
          exact ⟨hm, e, he, hte⟩

/-- One step ends a suspension exactly when it selects an entry of the task. -/
theorem suspended_step_iff (hu : Inv u) (hs : step u a = some (o, w))
    (hsus : u.machine.sched.Suspended t)
    (hspares : sparesSuspended t (⟨u, a, o, w⟩ : Edge cfg)) :
    w.machine.sched.Suspended t ↔ ¬ selectsEntryOf t (⟨u, a, o, w⟩ : Edge cfg) := by
  constructor
  · intro hkept hsel
    cases (congrArg Prod.fst (ready_of_selects hs hsus hsel)).symm.trans hkept.2
  · intro hsel
    have hi : a ≠ .init := by
      rintro rfl
      simp [sparesSuspended] at hspares
    exact ⟨hsus.1.trans_le ((step_cases hs).taskCount hu hi).1,
      suspended_of_not_selects hu hs hsus hspares hsel⟩

end Steps

/-- A suspension lasts as long as no `event_flags_set` selects an entry of the task, and
one that does ends it. -/
theorem suspension_kept_iff {s v : System cfg} {tr : History cfg} {t : ℕ} (hs : Reachable s)
    (hsus : s.machine.sched.Suspended t) (h : Run step s tr v)
    (hspares : ∀ e ∈ tr, sparesSuspended t e) (hsel : ∀ e ∈ tr, ¬ selectsEntryOf t e) :
    (v.machine.sched.Suspended t ∧ ∀ e ∈ tr, ∀ b, e.obs ≠ .taskCalled b t) ∧
      ∀ a o w, step v a = some (o, w) → sparesSuspended t (⟨v, a, o, w⟩ : Edge cfg) →
        (w.machine.sched.Suspended t ↔ ¬ selectsEntryOf t (⟨v, a, o, w⟩ : Edge cfg)) := by
  have hinv : (Inv v ∧ v.machine.sched.Suspended t) ∧ ∀ e ∈ tr, ∀ b, e.obs ≠ .taskCalled b t := by
    have hok : ∀ e ∈ tr, sparesSuspended t e ∧ ¬ selectsEntryOf t e :=
      fun e he => ⟨hspares e he, hsel e he⟩
    refine h.edge_invariant (P := fun v => Inv v ∧ v.machine.sched.Suspended t) ⟨hs.inv, hsus⟩ hok
      fun u a o w hu hok hs => ?_
    have hkept := (suspended_step_iff hu.1 hs hu.2 hok.1).mpr hok.2
    exact ⟨⟨hu.1.step hs, hkept⟩, not_called_of_suspended hu.1 hs hu.2⟩
  obtain ⟨⟨hv, hvsus⟩, hcalls⟩ := hinv
  exact ⟨⟨hvsus, hcalls⟩, fun a o w hs hspares => suspended_step_iff hv hs hvsus hspares⟩

/-- A task waits for flag 1, and the second task suspends it. -/
def staleEntryRun : List (Action Config.default) :=
  [.call (.event (.init (some 0))), .call (.task (.create 1 0x1000#64)),
    .call (.task (.create 1 0x2000#64)), .run 2] ++ cycleActions _ ++
    [.call (.event (.wait (some 0) 1#32)), .ret] ++ cycleActions _ ++
    [.call (.task (.suspend 1))]

/-- While it is suspended the others may set flags it did not wait for. -/
theorem suspension_kept_iff_otherFlag :
    let s := (System.after _ staleEntryRun).2
    let r := played step s [.call (.event (.set (some 0) 2#32)), .ret]
    r.2.machine.sched.Suspended 0 ∧ ∀ e ∈ r.1, ∀ b, e.obs ≠ .taskCalled b 0 :=
  (suspension_kept_iff (System.after_reachable staleEntryRun) (by decide +kernel)
    (run_played _ _) (by decide +kernel) (by decide +kernel)).1

/-- Setting the flag it waited for ends the suspension. -/
theorem suspensions_not_kept : ¬ SuspensionsKept .default := by
  intro h
  have hkept := h _ _ _ 0 (System.after_reachable staleEntryRun) (by decide +kernel)
    (run_played _ [.call (.event (.set (some 0) 1#32))]) (by decide +kernel)
  exact absurd hkept.1 (by decide +kernel)

end MiniRtos
