import MiniRtos.BestWaiter
import MiniRtos.StatusChange

/-!
# Whom a release wakes

A control block records why a task is blocked and not on which object, so a release of
one object wakes the first among the tasks blocked for its reason on any object. It is a
waiter of that object exactly when one of those comes before all others.
-/
namespace MiniRtos
open TransitionSystem
variable {cfg : Config}

/-- The object on which task `t` was last refused and blocked for reason `r`. -/
def lastRefused (r : BlockReason) (t : ℕ) : History cfg → Option ℕ
  | [] => none
  | e :: tr =>
      match e.act, e.obs with
      | .call (.sync c), .returned v =>
          match c.awaits with
          | some (r', i) =>
              if r' = r ∧ v.refused ∧ e.src.machine.sched.rtosCurrentTask = some t then some i
              else lastRefused r t tr
          | none => lastRefused r t tr
      | _, _ => lastRefused r t tr

/-- Task `t` is blocked because its call on object `i` was refused. -/
def WaitsOn (tr : History cfg) (s : System cfg) (r : BlockReason) (i t : ℕ) : Prop :=
  t ∈ s.machine.sched.blockedOn r ∧ lastRefused r t tr = some i

instance (tr : History cfg) (s : System cfg) (r : BlockReason) (i t : ℕ) :
    Decidable (WaitsOn tr s r i t) :=
  inferInstanceAs (Decidable (_ ∧ _))

/-- The step is a signal, an unlock by the owner, or a successful send or receive, on
this object; with the reason for which its waiters are blocked. -/
def releases (e : Edge cfg) : Option (BlockReason × ℕ) :=
  match e.act, e.obs with
  | .call (.sync (.semSignal i)), _ => some (.semaphore, i)
  | .call (.sync (.mutexUnlock i)), _ =>
      if (e.src.machine.objects.mutexes i).locked &&
          e.src.machine.sched.ownsMutex (e.src.machine.objects.mutexes i) then
        some (.mutex, i)
      else none
  | .call (.sync (.queueSend i _)), .returned (.bool true) => some (.queueEmpty, i)
  | .call (.sync (.queueReceive i)), .returned (.received (some _)) => some (.queueFull, i)
  | _, _ => none

/-- The step makes task `t` READY. -/
def MadeReady (v w : System cfg) (t : ℕ) : Prop :=
  t < v.machine.sched.taskCount ∧ (v.machine.sched.taskList t).state ≠ .ready ∧
    (w.machine.sched.taskList t).state = .ready

/-- The one task a step makes READY waits on object `i`. -/
def WakesWaiter (tr : History cfg) (v w : System cfg) (r : BlockReason) (i : ℕ) : Prop :=
  ∃ t, WaitsOn tr v r i t ∧ ∀ u, MadeReady v w u ↔ u = t

/-- A release wakes a waiter of the same object if there is one. -/
def WakesReachWaiters (cfg : Config) : Prop :=
  ∀ (s v w : System cfg) (tr : History cfg) (a : Action cfg) (o : Observation cfg)
    (r : BlockReason) (i : ℕ), Initial s → Run step s tr v → step v a = some (o, w) →
      releases (⟨v, a, o, w⟩ : Edge cfg) = some (r, i) → (∃ t, WaitsOn tr v r i t) →
        WakesWaiter tr v w r i

/-- Some waiter of object `i` comes before every task that is blocked for the same reason
on another object: it has the higher priority, or the same one and the lower index. -/
def WaiterFirst (tr : History cfg) (s : System cfg) (r : BlockReason) (i : ℕ) : Prop :=
  ∃ t, WaitsOn tr s r i t ∧ ∀ u ∈ s.machine.sched.blockedOn r, ¬ WaitsOn tr s r i u →
    s.machine.sched.prio u < s.machine.sched.prio t ∨
      s.machine.sched.prio u = s.machine.sched.prio t ∧ t < u

section Steps
variable {v w : System cfg} {a : Action cfg} {o : Observation cfg} {r : BlockReason} {i : ℕ}

theorem SyncOutcome.release {c : SyncCall} {val : Value} {e : Effect} {objects : Objects}
    (h : SyncOutcome v.machine.sched v.machine.objects c val e objects)
    (hr : releases (⟨v, .call (.sync c), .returned val, w⟩ : Edge cfg) = some (r, i)) :
    e = .unblock r := by
  cases h with
  | mutexReleased hl hown =>
      simp only [releases, hl, hown, Bool.and_true, if_true, Option.some.injEq,
        Prod.mk.injEq] at hr
      rw [hr.1]
  | mutexIgnored hnot => simp [releases, hnot] at hr
  | semSignalled | queueSent | queueReceived =>
      simp only [releases, Option.some.injEq, Prod.mk.injEq] at hr
      rw [hr.1]
  | _ => simp [releases] at hr

/-- A release is an `unblock` for the reason of its waiters. -/
theorem releases_effect (hs : step v a = some (o, w))
    (h : releases (⟨v, a, o, w⟩ : Edge cfg) = some (r, i)) :
    w.machine.sched = v.machine.sched.schedulerUnblockOne r := by
  cases step_cases hs with
  | @call c val m _ hexec =>
      cases c with
      | sync c =>
          have he := (Machine.exec_sync hexec).release h
          rw [Machine.exec_sched hexec, he, Effect.apply]
      | _ => simp [releases] at h
  | _ => simp [releases] at h

/-- A release makes the first blocked task READY, and no other. -/
theorem madeReady_iff {best : ℕ} (hs : w.machine.sched = v.machine.sched.schedulerUnblockOne r)
    (hb : (v.machine.sched.blockedOn r).argmax v.machine.sched.prio = some best) (u : ℕ) :
    MadeReady v w u ↔ u = best := by
  obtain ⟨hlt, hst⟩ := Sched.mem_blockedOn.mp (List.argmax_mem hb)
  have hstate : (v.machine.sched.taskList best).state = .blocked := congrArg Prod.fst hst
  rw [Sched.schedulerUnblockOne, Sched.unblockScan_eq, hb] at hs
  simp only at hs
  unfold MadeReady
  rw [hs]
  by_cases hu : u = best
  · subst hu
    rw [Sched.setTaskState_self _ hlt]
    simp [hlt, hstate, TCB.withState]
  · rw [Sched.setTaskState_of_ne _ (by simpa using hu)]
    simp only [hu, iff_false, not_and]
    exact fun _ hne he => hne he

/-- A release reaches a waiter of its own object exactly when such a waiter comes first
among all tasks that are blocked for the same reason. -/
theorem wakes_waiter_iff {tr : History cfg} (hs : step v a = some (o, w))
    (hrel : releases (⟨v, a, o, w⟩ : Edge cfg) = some (r, i)) (hw : ∃ t, WaitsOn tr v r i t) :
    WakesWaiter tr v w r i ↔ WaiterFirst tr v r i := by
  obtain ⟨t₀, ht₀⟩ := hw
  obtain ⟨best, hb⟩ : ∃ best, (v.machine.sched.blockedOn r).argmax v.machine.sched.prio =
      some best := by
    refine Option.ne_none_iff_exists'.mp fun hnone => ?_
    rw [List.argmax_eq_none] at hnone
    simpa [hnone] using ht₀.1
  have hready := madeReady_iff (releases_effect hs hrel) hb
  have hbest : WakesWaiter tr v w r i ↔ WaitsOn tr v r i best := by
    constructor
    · rintro ⟨t, ht, hiff⟩
      exact (hready t).mp ((hiff t).mpr rfl) ▸ ht
    · exact fun h => ⟨best, h, hready⟩
  have hwaiter := Sched.bestWaiter_of_argmax hb
  rw [hbest]
  constructor
  · intro h
    refine ⟨best, h, fun u hu hnot => ?_⟩
    obtain ⟨hlt, hst⟩ := Sched.mem_blockedOn.mp hu
    rcases (hwaiter.highest u hlt hst).lt_or_eq with hprio | heq
    · exact .inl hprio
    · have hfirst := hwaiter.lowest u hlt hst heq
      have hne : best ≠ u := fun he => hnot (he ▸ h)
      exact .inr ⟨heq, by omega⟩
  · rintro ⟨t, ht, hfirst⟩
    by_contra hnot
    obtain ⟨hlt, hst⟩ := Sched.mem_blockedOn.mp ht.1
    have hle : v.machine.sched.prio t ≤ v.machine.sched.prio best := hwaiter.highest t hlt hst
    rcases hfirst best (List.argmax_mem hb) hnot with hprio | ⟨heq, hidx⟩
    · omega
    · have := hwaiter.lowest t hlt hst heq.symm
      omega

end Steps

/-- Two tasks wait on different semaphores, task 0 on the second one and task 1 on the
first one, and a third task runs. -/
def twoSemaphores : List (Action Config.default) :=
  [.call (.sync (.semaphoreInit 0 0)), .call (.sync (.semaphoreInit 1 0)),
    .call (.task (.create 2 0x1000#64)), .call (.task (.create 2 0x2000#64)),
    .call (.task (.create 1 0x3000#64)), .run 3] ++
    cycleActions _ ++ [.call (.sync (.semWait 1)), .ret] ++
    cycleActions _ ++ [.call (.sync (.semWait 0)), .ret] ++ cycleActions _

/-- A signal of the second semaphore reaches its waiter. -/
theorem wakes_waiter_iff_secondSemaphore :
    let r := System.after _ twoSemaphores
    WakesWaiter r.1 r.2 (played step r.2 [.call (.sync (.semSignal 1))]).2 .semaphore 1 :=
  (wakes_waiter_iff (step_eq_played (o := .returned .void) (by decide +kernel)) rfl
    ⟨0, by decide +kernel⟩).mpr ⟨0, by decide +kernel⟩

/-- A signal of the first semaphore wakes the task that waits on the second. -/
theorem wakes_miss_waiters : ¬ WakesReachWaiters .default := by
  intro h
  obtain ⟨t, ht, hiff⟩ := h _ _ _ _ _ _ .semaphore 0 (System.boot_initial _)
    (run_played _ twoSemaphores)
    (step_eq_played (a := .call (.sync (.semSignal 0))) (o := .returned .void)
      (by decide +kernel)) rfl ⟨1, by decide +kernel⟩
  have hwoken : MadeReady (System.after _ twoSemaphores).2
      (played step (System.after _ twoSemaphores).2 [.call (.sync (.semSignal 0))]).2 0 := by
    refine ⟨by decide +kernel, by decide +kernel, by decide +kernel⟩
  rw [← (hiff 0).mp hwoken] at ht
  exact absurd ht (by decide +kernel)

end MiniRtos
