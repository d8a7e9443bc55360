import MiniRtos.KernelInvariant

/-!
# Who can change a task's state

`StatusChange` lists the calls that give a task a new state or block reason, with what
the call found; `StepCases.status` adds the kernel's own three ways, waking a sleeper,
dispatching, and taking a task back when its function returns. Claims that a state is
kept are case analyses over these.
-/
namespace MiniRtos
open TransitionSystem
variable {cfg : Config}

/-- Calls on semaphores, mutexes and queues park and unblock, for reasons of their own. -/
def Effect.OfSync : Effect → Prop
  | .none => True
  | .park r _ | .unblock r => r ≠ .event ∧ r ≠ .sleep
  | _ => False

theorem SyncCall.effect_ofSync (s : Sched cfg) (o : Objects) (c : SyncCall) :
    (c.effect s o).OfSync := by
  cases c with
  | semaphoreInit | mutexInit | queueInit => trivial
  | semSignal => exact ⟨by decide, by decide⟩
  | _ =>
      simp only [effect]
      split_ifs <;> simp [Effect.OfSync]

namespace Machine

/-- The call blocks the current task, whoever makes it. -/
def blocksCurrent (m : Machine cfg) (c : Call cfg) : Bool :=
  match m.effect c with
  | .sleep _ | .park _ _ => true
  | _ => false

/-- Call `c` gives task `t` the status. -/
inductive StatusChange (m : Machine cfg) (t : ℕ) : Call cfg → TaskState × BlockReason → Prop
  | created {p : ℤ} {f : BitVec 64} : t = m.sched.taskCount →
      StatusChange m t (.task (.create p f)) (.ready, .none)
  | slept {n : ℤ} : m.sched.rtosCurrentTask = some t →
      StatusChange m t (.task (.sleep n)) (.blocked, .sleep)
  | suspended {taskId : ℤ} : m.sched.taskIndexFromId taskId = some t →
      StatusChange m t (.task (.suspend taskId)) (.suspended, .none)
  | resumed {taskId : ℤ} : m.sched.taskIndexFromId taskId = some t →
      (m.sched.taskList t).state = .suspended →
      StatusChange m t (.task (.resume taskId)) (.ready, .none)
  | parked {c : SyncCall} {r : BlockReason} {h : r ≠ .none} : r ≠ .event → r ≠ .sleep →
      c.effect m.sched m.objects = .park r h → m.sched.rtosCurrentTask = some t →
      StatusChange m t (.sync c) (.blocked, r)
  | unblocked {c : SyncCall} {r : BlockReason} : r ≠ .event → r ≠ .sleep →
      c.effect m.sched m.objects = .unblock r →
      (m.sched.blockedOn r).argmax m.sched.prio = some t →
      StatusChange m t (.sync c) (.ready, .none)
  | waited {i : ℕ} {mask : BitVec 32} {h : BlockReason.event ≠ .none} :
      m.effect (.event (.wait (some i) mask)) = .park .event h →
      m.sched.rtosCurrentTask = some t →
      StatusChange m t (.event (.wait (some i) mask)) (.blocked, .event)
  | woken {i : ℕ} {mask : BitVec 32} {w : EventWaiter} : mask ≠ 0#32 →
      w ∈ EventFlags.selected (m.objects.eventFlags i).waiterCount
        ((m.objects.eventFlags i).flags ||| mask) (m.objects.eventFlags i).waiters →
      w.taskIndex = t → StatusChange m t (.event (.set (some i) mask)) (.ready, .none)

variable {m : Machine cfg} {t : ℕ} {st : TaskState × BlockReason}

theorem statusChange_of_sync {c : SyncCall}
    (h : (c.effect m.sched m.objects).Changes m.sched t st) : m.StatusChange t (.sync c) st := by
  have hr := SyncCall.effect_ofSync m.sched m.objects c
  generalize he : c.effect m.sched m.objects = e at h hr
  cases h with
  | park hc => exact .parked hr.1 hr.2 he hc
  | unblock hb => exact .unblocked hr.1 hr.2 he hb
  | _ => exact hr.elim

theorem statusChange_of_task {c : TaskCall} (h : (c.effect m.sched).Changes m.sched t st) :
    m.StatusChange t (.task c) st := by
  cases c with
  | create p f =>
      cases h with
      | create hi => exact .created hi
  | sleep n =>
      cases h with
      | sleep hc => exact .slept hc
  | suspend taskId =>
      simp only [TaskCall.effect] at h
      split at h
      · cases h
      · next i hi =>
        cases h
        exact .suspended hi
  | resume taskId =>
      simp only [TaskCall.effect] at h
      split at h
      · cases h
      · next i hi =>
        split_ifs at h with hs
        · cases h
          exact .resumed hi hs
        · cases h
  | _ => cases h

theorem statusChange_of_event {c : EventCall}
    (h : (c.effect cfg m.objects).Changes m.sched t st) : m.StatusChange t (.event c) st := by
  cases c with
  | set ef mask =>
      cases ef with
      | none => cases h
      | some i =>
          simp only [EventCall.effect] at h
          split_ifs at h with hm
          · cases h
          · cases h with
            | wake ht =>
                obtain ⟨w, hw, hwt⟩ := List.mem_map.mp ht
                exact .woken hm hw hwt
  | wait ef mask =>
      cases ef with
      | none => cases h
      | some i =>
          by_cases hr : mask = 0#32 ∨ EventFlags.satisfied (m.objects.eventFlags i).flags mask ∨
              cfg.rtosEventMaxWaiters ≤ (m.objects.eventFlags i).waiterCount
          · simp only [EventCall.effect, if_pos hr] at h
            cases h
          · have he : m.effect (.event (.wait (some i) mask)) = .park .event (by decide) := by
              simp only [effect, EventCall.effect, if_neg hr]
            simp only [EventCall.effect, if_neg hr] at h
            cases h with
            | park hc => exact .waited he hc
  | _ => cases h

theorem statusChange_of_changes {c : Call cfg} (h : (m.effect c).Changes m.sched t st) :
    m.StatusChange t c st := by
  cases c with
  | task c => exact statusChange_of_task h
  | sync c => exact statusChange_of_sync h
  | event c => exact statusChange_of_event h
  | _ => cases h

end Machine

/-- The ways a step can treat the status of a task. -/
inductive StatusStep (u : System cfg) (a : Action cfg) (w : System cfg) (t : ℕ) : Prop
  | kept : w.machine.sched.status t = u.machine.sched.status t → StatusStep u a w t
  | called {c : Call cfg} : a = .call c →
      u.machine.StatusChange t c (w.machine.sched.status t) → StatusStep u a w t
  | awoken : u.machine.sched.status t = (.blocked, .sleep) →
      w.machine.sched.status t = (.ready, .none) → StatusStep u a w t
  | dispatched {left : ℕ} : u.phase = .decide left → w.phase = .task left t →
      (u.machine.sched.taskList t).state = .ready →
      w.machine.sched.status t = (.running, .none) → StatusStep u a w t
  | takenBack : (u.machine.sched.taskList t).state = .running →
      w.machine.sched.status t = (.ready, .none) → StatusStep u a w t

theorem StepCases.status {u w : System cfg} {a : Action cfg} {o : Observation cfg}
    (h : StepCases u a o w) (hu : Inv u) (t : ℕ) : StatusStep u a w t := by
  cases h with
  | call _ hc =>
      have hs := Machine.exec_sched hc
      rcases Effect.apply_status u.machine.sched (u.machine.effect _) t with he | he
      · exact .kept (by rw [hs, he])
      · exact .called rfl (by rw [hs]; exact Machine.statusChange_of_changes he)
  | tick =>
      rcases u.machine.sched.timerUpdateSleep_status t with he | ⟨h₁, h₂⟩
      · exact .kept he
      · exact .awoken h₁ h₂
  | @taskReturned left t' hp =>
      rcases u.machine.sched.taskReturned_status t' t with he | ⟨rfl, hr, he⟩
      · exact .kept he
      · exact .takenBack hr he
  | idle hp hd =>
      obtain ⟨-, rfl, -⟩ := Sched.Decides.idles (hd ▸ hu.decides hp)
      exact .kept (Sched.resetSlice_status _ _ t)
  | @taskCalled left t' b sched active hp hd =>
      have r := Sched.Decides.runs hu.wellFormed (hd ▸ hu.decides hp)
      have hst := r.status t
      by_cases ht : t = t'
      · rw [if_pos ht] at hst
        subst ht
        exact .dispatched hp rfl (hu.wellFormed.mem_queue.mp r.chosen).2 hst
      · rw [if_neg ht] at hst
        exact .kept hst
  | _ => exact .kept rfl

/-- The number of tasks: only a call can create one, and only `rtos_init` removes any. -/
theorem StepCases.taskCount {u w : System cfg} {a : Action cfg} {o : Observation cfg}
    (h : StepCases u a o w) (hu : Inv u) (ha : a ≠ .init) :
    u.machine.sched.taskCount ≤ w.machine.sched.taskCount ∧
      ((∀ c, a ≠ .call c) → w.machine.sched.taskCount = u.machine.sched.taskCount) := by
  cases h with
  | init => exact absurd rfl ha
  | call _ hc =>
      rw [Machine.exec_sched hc]
      exact ⟨Effect.taskCount_le _ _, fun hn => absurd rfl (hn _)⟩
  | idle hp hd =>
      obtain ⟨-, rfl, -⟩ := Sched.Decides.idles (hd ▸ hu.decides hp)
      simp
  | taskCalled hp hd =>
      have r := Sched.Decides.runs hu.wellFormed (hd ▸ hu.decides hp)
      exact ⟨r.taskCount.ge, fun _ => r.taskCount⟩
  | _ => simp

/-- A task that a step adds to the table is READY. -/
theorem StepCases.status_new {u w : System cfg} {a : Action cfg} {o : Observation cfg}
    (h : StepCases u a o w) (hu : Inv u) (ha : a ≠ .init) {t : ℕ}
    (ht : u.machine.sched.taskCount ≤ t) (hlt : t < w.machine.sched.taskCount) :
    w.machine.sched.status t = (.ready, .none) := by
  by_cases hc : ∃ c, a = .call c
  · obtain ⟨c, rfl⟩ := hc
    cases h with
    | call _ hexec =>
        rw [Machine.exec_sched hexec] at hlt ⊢
        exact (Effect.apply_created _ _ ht hlt).2
  · push Not at hc
    have := (h.taskCount hu ha).2 hc
    omega

namespace Sched
variable {s : Sched cfg}

theorem taskIndexFromId_spec {taskId : ℤ} {i : ℕ} (h : s.taskIndexFromId taskId = some i) :
    i < s.taskCount ∧ (s.taskList i).taskId = taskId := by
  have hm := List.mem_of_find?_eq_some h
  have hp := List.find?_some h
  exact ⟨List.mem_range.mp hm, by simpa using hp⟩

/-- An event wake makes exactly the listed tasks READY. -/
theorem wake_status (s : Sched cfg) (ts : List ℤ) (j : ℕ) :
    (Effect.apply s (.wake ts)).status j =
      if (j : ℤ) ∈ ts ∧ j < s.taskCount then (.ready, .none) else s.status j := by
  simp only [Effect.apply]
  induction ts generalizing s with
  | nil => simp
  | cons i ts ih =>
      rw [List.foldl_cons, ih, setTaskState_taskCount, setTaskState_status]
      by_cases hj : j < s.taskCount
      · by_cases hm : (j : ℤ) ∈ ts
        · simp [hj, hm]
        · by_cases hi : (j : ℤ) = i
          · simp [hj, hi]
          · simp [hj, hm, hi]
      · simp [hj]

end Sched

end MiniRtos
