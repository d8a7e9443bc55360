import MiniRtos.StatusChange
import MiniRtos.TokenCover

/-!
# No lost wake-up on a single object

A release wakes a task and hands nothing over: the task has to ask again, and another may
come first. While a task is still blocked, what is available is covered by tasks that
were refused, are no longer blocked and have not asked again. Semaphores, mutexes and
both ends of a queue are one argument about a resource.
-/
namespace MiniRtos
open TransitionSystem TokenCover
variable {cfg : Config}

inductive ObjectKind where
  | semaphore | mutex | queue
deriving DecidableEq

namespace SyncCall

def kind : SyncCall → ObjectKind
  | .semaphoreInit _ _ | .semWait _ | .semSignal _ => .semaphore
  | .mutexInit _ | .mutexLock _ | .mutexUnlock _ => .mutex
  | .queueInit _ | .queueSend _ _ | .queueReceive _ => .queue

def index : SyncCall → ℕ
  | .semaphoreInit i _ | .semWait i | .semSignal i
  | .mutexInit i | .mutexLock i | .mutexUnlock i
  | .queueInit i | .queueSend i _ | .queueReceive i => i

def initialises : SyncCall → Bool
  | .semaphoreInit _ _ | .mutexInit _ | .queueInit _ => true
  | _ => false

end SyncCall

/-- What tasks ask for: the tokens of a semaphore, a mutex, the items of a queue, and the
free slots of a queue. -/
inductive Resource where
  | semaphore (i : ℕ)
  | mutex (i : ℕ)
  | items (i : ℕ)
  | slots (i : ℕ)
deriving DecidableEq

namespace Resource

def kind : Resource → ObjectKind
  | .semaphore _ => .semaphore
  | .mutex _ => .mutex
  | .items _ | .slots _ => .queue

def index : Resource → ℕ
  | .semaphore i | .mutex i | .items i | .slots i => i

/-- The reason for which a refused task is blocked. -/
def reason : Resource → BlockReason
  | .semaphore _ => .semaphore
  | .mutex _ => .mutex
  | .items _ => .queueEmpty
  | .slots _ => .queueFull

/-- How much of it is left; an unlocked mutex counts as one. -/
def available (cfg : Config) (o : Objects) : Resource → ℤ
  | .semaphore i => (o.semaphores i).count
  | .mutex i => if (o.mutexes i).locked then 0 else 1
  | .items i => (o.queues i).count
  | .slots i => cfg.rtosQueueSize - (o.queues i).count

/-- The call asks for the resource. -/
def askedBy (r : Resource) (c : SyncCall) : Bool := c.awaits = some (r.reason, r.index)

end Resource

/-- What a call on a synchronisation object means for resource `r`. -/
inductive Resource.Use (cfg : Config) (r : Resource) (o : Objects) (c : SyncCall) (v : Value)
    (e : Effect) (o' : Objects) : Prop
  | refused : r.askedBy c → v.refused → r.available cfg o' ≤ 0 → Use cfg r o c v e o'
  | granted : r.askedBy c → v.refused = false → (∀ h, e ≠ .park r.reason h) →
      r.available cfg o' + 1 ≤ r.available cfg o ∨ r.available cfg o' ≤ 0 → Use cfg r o c v e o'
  | released : r.askedBy c = false → e = .unblock r.reason →
      r.available cfg o' ≤ r.available cfg o + 1 → Use cfg r o c v e o'
  | initialised : r.askedBy c = false → c.initialises → c.kind = r.kind → e = .none →
      Use cfg r o c v e o'
  | other : r.askedBy c = false → (∀ h, e ≠ .park r.reason h) →
      r.available cfg o' ≤ r.available cfg o → Use cfg r o c v e o'

section Uses
variable {s : Sched cfg} {o o' : Objects} {c : SyncCall} {v : Value} {e : Effect} {i : ℕ}

theorem SyncOutcome.semaphore_use (h : SyncOutcome s o c v e o')
    (hone : c.kind = .semaphore → c.index = i) : (Resource.semaphore i).Use cfg o c v e o' := by
  cases h with
  | semaphoreInit => exact .initialised rfl rfl rfl rfl
  | semTaken =>
      obtain rfl := hone rfl
      refine .granted (decide_eq_true rfl) rfl (by simp) (.inl ?_)
      simp only [Resource.available, Objects.setSemaphore, SyncCall.index, Function.update_self]
      omega
  | semRefused hc =>
      obtain rfl := hone rfl
      exact .refused (decide_eq_true rfl) rfl hc
  | semSignalled =>
      obtain rfl := hone rfl
      refine .released rfl rfl ?_
      simp only [Resource.available, Objects.setSemaphore, SyncCall.index, Function.update_self]
      omega
  | _ => exact .other rfl (by simp [Resource.reason]) le_rfl

theorem SyncOutcome.mutex_use (h : SyncOutcome s o c v e o')
    (hone : c.kind = .mutex → c.index = i) : (Resource.mutex i).Use cfg o c v e o' := by
  cases h with
  | mutexInit => exact .initialised rfl rfl rfl rfl
  | mutexTaken hl =>
      obtain rfl := hone rfl
      refine .granted (decide_eq_true rfl) rfl (by simp) (.inr ?_)
      simp [Resource.available, Objects.setMutex, SyncCall.index]
  | mutexHeld hl =>
      obtain rfl := hone rfl
      refine .granted (decide_eq_true rfl) rfl (by simp) (.inr ?_)
      simp [Resource.available, SyncCall.index, hl]
  | mutexRefused hl =>
      obtain rfl := hone rfl
      refine .refused (decide_eq_true rfl) rfl ?_
      simp [Resource.available, SyncCall.index, hl]
  | mutexReleased hl =>
      obtain rfl := hone rfl
      refine .released rfl rfl ?_
      simp [Resource.available, Objects.setMutex, SyncCall.index, hl]
  | _ => exact .other rfl (by simp [Resource.reason]) le_rfl

theorem SyncOutcome.items_use (h : SyncOutcome s o c v e o')
    (hone : c.kind = .queue → c.index = i) : (Resource.items i).Use cfg o c v e o' := by
  cases h with
  | queueInit => exact .initialised rfl rfl rfl rfl
  | queueSent =>
      obtain rfl := hone rfl
      refine .released rfl rfl ?_
      simp only [Resource.available, Objects.setQueue, SyncCall.index, Function.update_self]
      omega
  | queueReceived =>
      obtain rfl := hone rfl
      refine .granted (decide_eq_true rfl) rfl (by simp [Resource.reason]) (.inl ?_)
      simp only [Resource.available, Objects.setQueue, SyncCall.index, Function.update_self]
      omega
  | queueEmpty hc =>
      obtain rfl := hone rfl
      exact .refused (decide_eq_true rfl) rfl hc.le
  | _ => exact .other rfl (by simp [Resource.reason]) le_rfl

theorem SyncOutcome.slots_use (h : SyncOutcome s o c v e o')
    (hone : c.kind = .queue → c.index = i) : (Resource.slots i).Use cfg o c v e o' := by
  cases h with
  | queueInit => exact .initialised rfl rfl rfl rfl
  | queueSent =>
      obtain rfl := hone rfl
      refine .granted (decide_eq_true rfl) rfl (by simp [Resource.reason]) (.inl ?_)
      simp only [Resource.available, Objects.setQueue, SyncCall.index, Function.update_self]
      omega
  | queueFull hc =>
      obtain rfl := hone rfl
      refine .refused (decide_eq_true rfl) rfl ?_
      simp [Resource.available, SyncCall.index, hc]
  | queueReceived =>
      obtain rfl := hone rfl
      refine .released rfl rfl ?_
      simp only [Resource.available, Objects.setQueue, SyncCall.index, Function.update_self]
      omega
  | _ => exact .other rfl (by simp [Resource.reason]) le_rfl

/-- Every call is a refusal, a grant, a release or an initialisation of the one object of
its kind, or takes nothing from it. -/
theorem SyncOutcome.use (h : SyncOutcome s o c v e o') (r : Resource)
    (hone : c.kind = r.kind → c.index = r.index) : r.Use cfg o c v e o' := by
  cases r with
  | semaphore i => exact h.semaphore_use hone
  | mutex i => exact h.mutex_use hone
  | items i => exact h.items_use hone
  | slots i => exact h.slots_use hone

end Uses

section Histories
variable (r : Resource)

/-- The task whose function asks for the resource in this step, and whether it gets it. -/
def asked (e : Edge cfg) : Option (ℕ × Bool) :=
  match e.act, e.obs, e.src.phase with
  | .call (.sync c), .returned v, .task _ t =>
      if r.askedBy c then some (t, !v.refused) else none
  | _, _, _ => none

/-- Whether task `t` got the resource when it last asked, since the kernel was initialised. -/
def lastAnswer (t : ℕ) : History cfg → Option Bool
  | [] => none
  | e :: tr =>
      if e.act = .init then none
      else
        match asked r e with
        | some (u, got) => if u = t then some got else lastAnswer t tr
        | none => lastAnswer t tr

/-- The task function called last was refused in this run of it. -/
def refusedInRun : History cfg → Bool
  | [] => false
  | e :: tr =>
      match e.obs with
      | .taskCalled _ _ => false
      | _ => (asked r e).any (fun answer => !answer.2) || refusedInRun tr

/-- The step keeps to one object of the kind of `r`, initialises it while nobody is
blocked on it, and asks for `r` from a task function that was not refused in this run. -/
def usesOne (e : Edge cfg) (tr : History cfg) : Bool :=
  match e.act with
  | .call (.sync c) =>
      c.kind ≠ r.kind ||
        (c.index = r.index &&
          (!c.initialises || (e.src.machine.sched.blockedOn r.reason).isEmpty) &&
          (!r.askedBy c || (e.src.phase.isTask && !refusedInRun r tr)))
  | _ => true

/-- The tasks that were refused when they last asked and are not blocked for it now. -/
def pendingTasks (tr : History cfg) (s : System cfg) : Finset ℕ :=
  (Finset.range s.machine.sched.taskCount).filter fun t =>
    lastAnswer r t tr = some false ∧ t ∉ s.machine.sched.blockedOn r.reason

end Histories

/-- Blocked tasks were refused, and what is available is covered by pending ones. -/
structure Account (r : Resource) (tr : History cfg) (s : System cfg) : Prop where
  inv : Inv s
  refused : ∀ t ∈ s.machine.sched.blockedOn r.reason, lastAnswer r t tr = some false
  covered : Covered {t | t ∈ s.machine.sched.blockedOn r.reason} (pendingTasks r tr s)
    (r.available cfg s.machine.objects)
  running : ∀ left t, s.phase = .task left t → t ∈ s.machine.sched.blockedOn r.reason →
    refusedInRun r tr

namespace Resource

theorem reason_ne (r : Resource) : r.reason ≠ .event ∧ r.reason ≠ .sleep := by
  cases r <;> simp [reason]

theorem kind_of_askedBy {r : Resource} {c : SyncCall} (h : r.askedBy c) : c.kind = r.kind := by
  simp only [askedBy, decide_eq_true_eq] at h
  cases r <;> cases c <;> simp [SyncCall.awaits, reason, kind, SyncCall.kind] at h ⊢

theorem available_call (r : Resource) {m m' : Machine cfg} {c : Call cfg} {v : Value}
    (h : m.exec c = some (v, m')) (hc : ∀ c', c ≠ .sync c') :
    r.available cfg m'.objects = r.available cfg m.objects := by
  cases Machine.exec_cases h with
  | @sync c => exact absurd rfl (hc c)
  | @event c =>
      rw [c.exec_objects]
      cases r <;> rfl
  | _ => rfl

end Resource

section Steps
variable {r : Resource} {u w : System cfg} {a : Action cfg} {o : Observation cfg}
  {tr : History cfg} {t : ℕ}

theorem lastAnswer_of_not_asked (hi : a ≠ .init) (h : asked r (⟨u, a, o, w⟩ : Edge cfg) = none) :
    lastAnswer r t (⟨u, a, o, w⟩ :: tr) = lastAnswer r t tr := by
  simp only [lastAnswer, if_neg hi, h]

theorem lastAnswer_of_asked (hi : a ≠ .init) {t₀ : ℕ} {got : Bool}
    (h : asked r (⟨u, a, o, w⟩ : Edge cfg) = some (t₀, got)) :
    lastAnswer r t (⟨u, a, o, w⟩ :: tr) =
      if t₀ = t then some got else lastAnswer r t tr := by
  simp only [lastAnswer, if_neg hi, h]

/-- What the rules say of a call on a synchronisation object. -/
theorem usesOne_sync {c : SyncCall}
    (h : usesOne r (⟨u, .call (.sync c), o, w⟩ : Edge cfg) tr) (hk : c.kind = r.kind) :
    c.index = r.index ∧
      (c.initialises → u.machine.sched.blockedOn r.reason = []) ∧
        (r.askedBy c → u.phase.isTask ∧ refusedInRun r tr = false) := by
  simp only [usesOne, hk, ne_eq, not_true_eq_false, decide_false, Bool.false_or,
    Bool.and_eq_true, Bool.or_eq_true, Bool.not_eq_true', List.isEmpty_iff,
    decide_eq_true_eq] at h
  obtain ⟨⟨hidx, hinit⟩, hask⟩ := h
  refine ⟨hidx, fun hc => ?_, fun hc => ?_⟩
  · simpa [hc] using hinit
  · simpa [hc] using hask

theorem asked_of_askedBy {c : SyncCall} {v : Value} {left : ℕ} (hp : u.phase = .task left t)
    (h : r.askedBy c) :
    asked r (⟨u, .call (.sync c), .returned v, w⟩ : Edge cfg) = some (t, !v.refused) := by
  simp [asked, hp, h]

theorem asked_of_not_askedBy {c : SyncCall} (h : r.askedBy c = false) :
    asked r (⟨u, .call (.sync c), o, w⟩ : Edge cfg) = none := by
  unfold asked
  split
  · next c' v left t hc _ _ =>
    cases hc
    rw [h]
    rfl
  · rfl

/-- What a step within the rules does to the account of the resource. -/
inductive AccountStep (r : Resource) (tr : History cfg) (u : System cfg) (a : Action cfg)
    (o : Observation cfg) (w : System cfg) : Prop
  | refused {left t : ℕ} : u.phase = .task left t → asked r ⟨u, a, o, w⟩ = some (t, false) →
      r.available cfg w.machine.objects ≤ 0 → AccountStep r tr u a o w
  | granted {left t : ℕ} : u.phase = .task left t → asked r ⟨u, a, o, w⟩ = some (t, true) →
      refusedInRun r tr = false →
      r.available cfg w.machine.objects + 1 ≤ r.available cfg u.machine.objects ∨
        r.available cfg w.machine.objects ≤ 0 → AccountStep r tr u a o w
  | released : asked r ⟨u, a, o, w⟩ = none →
      w.machine.sched = u.machine.sched.schedulerUnblockOne r.reason →
      r.available cfg w.machine.objects ≤ r.available cfg u.machine.objects + 1 →
      AccountStep r tr u a o w
  | initialised : asked r ⟨u, a, o, w⟩ = none → u.machine.sched.blockedOn r.reason = [] →
      AccountStep r tr u a o w
  | other : asked r ⟨u, a, o, w⟩ = none →
      r.available cfg w.machine.objects ≤ r.available cfg u.machine.objects →
      AccountStep r tr u a o w

theorem StepCases.account (h : StepCases u a o w)
    (hok : usesOne r (⟨u, a, o, w⟩ : Edge cfg) tr) : AccountStep r tr u a o w := by
  by_cases hc : ∃ c, a = .call c
  swap
  · push Not at hc
    refine .other ?_ (by rw [h.objects hc])
    cases a with
    | call c => exact absurd rfl (hc c)
    | _ => rfl
  obtain ⟨c, rfl⟩ := hc
  cases h with
  | @call c v m _ hexec =>
      cases c with
      | sync c =>
          have hout := Machine.exec_sync hexec
          have hrules := usesOne_sync hok
          cases hout.use r fun hk => (hrules hk).1 with
          | refused hask hv havail =>
              obtain ⟨htask, -⟩ := (hrules (Resource.kind_of_askedBy hask)).2.2 hask
              obtain ⟨left, t, hp⟩ := Phase.isTask_iff.mp htask
              exact .refused hp (by rw [asked_of_askedBy hp hask, hv]; rfl) havail
          | granted hask hv _ havail =>
              obtain ⟨htask, hrun⟩ := (hrules (Resource.kind_of_askedBy hask)).2.2 hask
              obtain ⟨left, t, hp⟩ := Phase.isTask_iff.mp htask
              exact .granted hp (by rw [asked_of_askedBy hp hask, hv]; rfl) hrun havail
          | released hask heff havail =>
              refine .released (asked_of_not_askedBy hask) ?_ havail
              rw [Machine.exec_sched hexec, heff, Effect.apply]
          | initialised hask hinit hk _ =>
              exact .initialised (asked_of_not_askedBy hask) ((hrules hk).2.1 hinit)
          | other hask _ havail => exact .other (asked_of_not_askedBy hask) havail
      | _ => exact .other rfl (r.available_call hexec (by simp)).le

/-- A task becomes blocked for the resource only as the current task of a refused call. -/
theorem StepCases.blockedOn_resource (h : StepCases u a o w) (hu : Inv u) (hi : a ≠ .init)
    (ht : t ∈ w.machine.sched.blockedOn r.reason) :
    t ∈ u.machine.sched.blockedOn r.reason ∨
      ∃ c hr, a = .call (.sync c) ∧
        c.effect u.machine.sched u.machine.objects = .park r.reason hr ∧
          u.machine.sched.rtosCurrentTask = some t := by
  obtain ⟨hlt', hst⟩ := Sched.mem_blockedOn.mp ht
  have hlt : t < u.machine.sched.taskCount := by
    by_contra hge
    simp [h.status_new hu hi (not_lt.mp hge) hlt'] at hst
  cases h.status hu t with
  | kept he => exact .inl (Sched.mem_blockedOn.mpr ⟨hlt, he.symm.trans hst⟩)
  | awoken _ h₂ => simp [h₂] at hst
  | dispatched _ _ _ h₂ => simp [h₂] at hst
  | takenBack _ h₂ => simp [h₂] at hst
  | @called c ha hc =>
      rw [hst] at hc
      obtain ⟨hevent, hsleep⟩ := r.reason_ne
      generalize hr : r.reason = reason at hc ⊢
      cases hc with
      | slept => exact absurd hr hsleep
      | parked _ _ he hcur => exact .inr ⟨_, _, ha, he, hcur⟩
      | waited => exact absurd hr hevent

/-- Within the rules a task becomes blocked for the resource by being refused. -/
theorem StepCases.blockedOn_or_refused (h : StepCases u a o w) (hu : Inv u) (hi : a ≠ .init)
    (hok : usesOne r (⟨u, a, o, w⟩ : Edge cfg) tr)
    (ht : t ∈ w.machine.sched.blockedOn r.reason) :
    t ∈ u.machine.sched.blockedOn r.reason ∨
      asked r (⟨u, a, o, w⟩ : Edge cfg) = some (t, false) := by
  rcases h.blockedOn_resource hu hi ht with ht | ⟨c, hr, rfl, he, hcur⟩
  · exact .inl ht
  cases h with
  | call _ hexec =>
      have hout := Machine.exec_sync hexec
      have hrules := usesOne_sync hok
      rw [Machine.effect, he] at hout
      cases hout.use r fun hk => (hrules hk).1 with
      | refused hask hv _ =>
          obtain ⟨htask, -⟩ := (hrules (Resource.kind_of_askedBy hask)).2.2 hask
          obtain ⟨left, t', hp⟩ := Phase.isTask_iff.mp htask
          have htt : t' = t := by
            have := ((Sched.rtosCurrentTask_eq_some _).mp hcur).1
            have := (hu.task left t' hp).2
            omega
          right
          rw [asked_of_askedBy hp hask, hv, htt]
          rfl
      | granted _ _ hnot => exact absurd rfl (hnot _)
      | released _ heff => cases heff
      | initialised _ _ _ heff => cases heff
      | other _ hnot => exact absurd rfl (hnot _)

/-- A task stays pending over a step in which it does not ask, or is refused once more. -/
theorem pendingTasks_step (h : StepCases u a o w) (hu : Inv u) (hi : a ≠ .init)
    (hsub : t ∈ w.machine.sched.blockedOn r.reason → t ∈ u.machine.sched.blockedOn r.reason)
    (hlast : lastAnswer r t (⟨u, a, o, w⟩ :: tr) = lastAnswer r t tr)
    (ht : t ∈ pendingTasks r tr u) : t ∈ pendingTasks r (⟨u, a, o, w⟩ :: tr) w := by
  simp only [pendingTasks, Finset.mem_filter, Finset.mem_range] at ht ⊢
  exact ⟨ht.1.trans_le (h.taskCount hu hi).1, hlast.trans ht.2.1, fun hb => ht.2.2 (hsub hb)⟩

/-- The task a release wakes becomes pending. -/
theorem Account.pending_of_woken (h : Account r tr u) (hs : StepCases u a o w) (hi : a ≠ .init)
    (hn : asked r (⟨u, a, o, w⟩ : Edge cfg) = none)
    (hsched : w.machine.sched = u.machine.sched.schedulerUnblockOne r.reason)
    (hb : (u.machine.sched.blockedOn r.reason).argmax u.machine.sched.prio = some t) :
    t ∈ pendingTasks r (⟨u, a, o, w⟩ :: tr) w := by
  have hmem := List.argmax_mem hb
  obtain ⟨hlt, -⟩ := Sched.mem_blockedOn.mp hmem
  have hst : w.machine.sched.status t = (.ready, .none) := by
    rw [hsched, Sched.schedulerUnblockOne, Sched.unblockScan_eq, hb]
    simp [Sched.setTaskState_status, hlt]
  simp only [pendingTasks, Finset.mem_filter, Finset.mem_range]
  refine ⟨hlt.trans_le (hs.taskCount h.inv hi).1, ?_, fun hblocked => ?_⟩
  · rw [lastAnswer_of_not_asked hi hn]
    exact h.refused t hmem
  · simp [(Sched.mem_blockedOn.mp hblocked).2] at hst

/-- A task that is still executing while it is blocked has been refused in this run. -/
theorem Account.running_step (h : Account r tr u) (hs : StepCases u a o w) (hi : a ≠ .init)
    (hok : usesOne r (⟨u, a, o, w⟩ : Edge cfg) tr) {left : ℕ} (hp : w.phase = .task left t)
    (ht : t ∈ w.machine.sched.blockedOn r.reason) :
    refusedInRun r (⟨u, a, o, w⟩ :: tr) := by
  rcases hs.blockedOn_or_refused h.inv hi hok ht with hold | hasked
  · cases hs with
    | call => simp [refusedInRun, h.running left t hp hold]
    | taskCalled hq hd =>
        cases hp
        have hst := (Sched.Decides.runs h.inv.wellFormed (hd ▸ h.inv.decides hq)).status t
        rw [if_pos rfl, (Sched.mem_blockedOn.mp ht).2] at hst
        cases hst
    | _ => simp at hp
  · cases hs with
    | call => simp [refusedInRun, hasked]
    | _ => simp [asked] at hasked

/-- Who is blocked after the step was refused when it last asked. -/
theorem Account.refused_step (h : Account r tr u) (hs : StepCases u a o w) (hi : a ≠ .init)
    (hok : usesOne r (⟨u, a, o, w⟩ : Edge cfg) tr)
    (ht : t ∈ w.machine.sched.blockedOn r.reason) :
    lastAnswer r t (⟨u, a, o, w⟩ :: tr) = some false := by
  rcases hs.blockedOn_or_refused h.inv hi hok ht with hold | hasked
  · cases hs.account hok with
    | refused _ ha => simp [lastAnswer_of_asked hi ha, h.refused t hold]
    | @granted left t₀ hp ha hrun =>
        have hne : t₀ ≠ t := fun he => by
          simp [h.running left t₀ hp (he ▸ hold)] at hrun
        rw [lastAnswer_of_asked hi ha, if_neg hne]
        exact h.refused t hold
    | released hn | initialised hn | other hn =>
        rw [lastAnswer_of_not_asked hi hn]
        exact h.refused t hold
  · rw [lastAnswer_of_asked hi hasked, if_pos rfl]

theorem Account.covered_step (h : Account r tr u) (hs : StepCases u a o w) (hi : a ≠ .init)
    (hok : usesOne r (⟨u, a, o, w⟩ : Edge cfg) tr) :
    Covered {t | t ∈ w.machine.sched.blockedOn r.reason} (pendingTasks r (⟨u, a, o, w⟩ :: tr) w)
      (r.available cfg w.machine.objects) := by
  -- who does not ask stays pending, and only a refusal adds to the blocked tasks
  have hsub : (∀ t, asked r (⟨u, a, o, w⟩ : Edge cfg) ≠ some (t, false)) →
      ∀ t, t ∈ w.machine.sched.blockedOn r.reason → t ∈ u.machine.sched.blockedOn r.reason :=
    fun hn t ht => (hs.blockedOn_or_refused h.inv hi hok ht).resolve_right (hn t)
  have hkeep : asked r (⟨u, a, o, w⟩ : Edge cfg) = none →
      pendingTasks r tr u ⊆ pendingTasks r (⟨u, a, o, w⟩ :: tr) w := fun hn t ht =>
    pendingTasks_step hs h.inv hi (hsub (by simp [hn]) t) (lastAnswer_of_not_asked hi hn) ht
  cases hs.account hok with
  | refused _ _ havail => exact .of_nonpos havail
  | @granted _ t₀ _ ha _ havail =>
      rcases havail with havail | havail
      · refine h.covered.take (i := t₀) (hsub (by simp [ha])) (fun t ht => ?_) havail
        obtain ⟨hne, ht⟩ := Finset.mem_erase.mp ht
        refine pendingTasks_step hs h.inv hi (hsub (by simp [ha]) t) ?_ ht
        rw [lastAnswer_of_asked hi ha, if_neg (Ne.symm hne)]
      · exact .of_nonpos havail
  | released hn hsched havail =>
      cases hb : (u.machine.sched.blockedOn r.reason).argmax u.machine.sched.prio with
      | none =>
          rw [List.argmax_eq_none] at hb
          refine .of_empty (Set.eq_empty_of_forall_notMem fun t ht => ?_)
          simpa [hb] using hsub (by simp [hn]) t ht
      | some t₀ =>
          refine h.covered.give (i := t₀) (hsub (by simp [hn])) ?_ ?_ havail
          · simp [pendingTasks, List.argmax_mem hb]
          · exact Finset.insert_subset (h.pending_of_woken hs hi hn hsched hb) (hkeep hn)
  | initialised hn hb =>
      refine .of_empty (Set.eq_empty_of_forall_notMem fun t ht => ?_)
      simpa [hb] using hsub (by simp [hn]) t ht
  | other hn havail => exact h.covered.mono (hsub (by simp [hn])) (hkeep hn) havail

theorem Account.step (h : Account r tr u) (hs : StepCases u a o w)
    (hok : usesOne r (⟨u, a, o, w⟩ : Edge cfg) tr) (hw : Inv w) :
    Account r (⟨u, a, o, w⟩ :: tr) w := by
  by_cases hi : a = .init
  · subst hi
    cases hs with
    | init =>
        have hnone : (u.machine.rtosInit.sched.blockedOn r.reason) = [] := rfl
        exact ⟨hw, by simp [hnone], .of_empty (by simp [hnone]), by simp⟩
  · exact ⟨hw, fun t ht => h.refused_step hs hi hok ht, h.covered_step hs hi hok,
      fun left t hp ht => h.running_step hs hi hok hp ht⟩

end Steps

/-- While some task is blocked for the resource, what is available is no more than the
number of pending tasks. -/
theorem no_lost_wakeup (r : Resource) {s v : System cfg} {tr : History cfg} (hs : Initial s)
    (h : Run step s tr v) (hok : Disciplined (fun e tr => usesOne r e tr) tr)
    (hb : v.machine.sched.blockedOn r.reason ≠ []) :
    r.available cfg v.machine.objects ≤ (pendingTasks r tr v).card := by
  have hnone : s.machine.sched.blockedOn r.reason = [] := by
    obtain ⟨m, phase⟩ := s
    obtain ⟨rfl, m', rfl⟩ := hs
    rfl
  have hacc : Account r tr v := by
    refine h.history_invariant (P := fun tr v => Account r tr v) ?_ hok
      fun tr u a o w hu hok hs => hu.step (step_cases hs) hok (hu.inv.step hs)
    exact ⟨hs.inv, by simp [hnone], .of_empty (by simp [hnone]), by simp [hnone]⟩
  obtain ⟨t, ht⟩ := List.exists_mem_of_ne_nil _ hb
  exact hacc.covered ⟨t, ht⟩

/-- Two tasks wait on one semaphore, a third one signals it and then suspends the task
it has woken. -/
def signalRun : List (Action Config.default) :=
  [.call (.sync (.semaphoreInit 0 0)), .call (.task (.create 2 0x1000#64)),
    .call (.task (.create 2 0x2000#64)), .call (.task (.create 1 0x3000#64)), .run 3] ++
    cycleActions _ ++ [.call (.sync (.semWait 0)), .ret] ++
    cycleActions _ ++ [.call (.sync (.semWait 0)), .ret] ++
    cycleActions _ ++ [.call (.sync (.semSignal 0)), .call (.task (.suspend 1))]

theorem no_lost_wakeup_signalRun :
    let r := System.after _ signalRun
    r.2.machine.sched.blockedOn .semaphore = [1] ∧
      (Resource.semaphore 0).available .default r.2.machine.objects = 1 ∧
        (Resource.semaphore 0).available .default r.2.machine.objects ≤
          (pendingTasks (.semaphore 0) r.1 r.2).card :=
  ⟨by decide +kernel, by decide +kernel,
    no_lost_wakeup (.semaphore 0) (System.boot_initial _) (run_played _ signalRun)
      (by decide +kernel) (by decide +kernel)⟩

end MiniRtos
