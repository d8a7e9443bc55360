import MiniRtos.RunLength
import MiniRtos.SleepDuration
import MiniRtos.TaskIdentity

/-!
# Periodic tasks

A task whose function ends with a sleep of `p` ticks is executed in every `p`-th tick if
its priority is above that of every other task: it wakes in the tick it is due in, and the
decision of that tick chooses it. What the other tasks and the callbacks do to each other
has no influence, nor has the number of calls of `rtos_run` over which the ticks are spread.
-/
namespace MiniRtos
open TransitionSystem
variable {cfg : Config}

/-- The function of task `t` is executing. -/
def Phase.executes (t : ℕ) : Phase cfg → Bool
  | .task _ u => u = t
  | _ => false

/-- The current task goes to sleep for a number of ticks that satisfies `P`. -/
def sleepsFor (P : ℤ → Bool) : Action cfg → Bool
  | .call (.task (.sleep n)) => P n
  | _ => false

/-- In this execution of a task function the state of task `t` was last set by such a call. -/
def sleptLast (t : ℕ) (P : ℤ → Bool) : History cfg → Bool
  | [] => false
  | e :: tr =>
      match e.obs with
      | .taskCalled _ _ => false
      | _ => sleepsFor P e.act || letsSleep t e && sleptLast t P tr

/-- Task `t` goes to sleep like that before its function returns, and nobody disturbs its
sleep. -/
def sleepsBetween (t : ℕ) (P : ℤ → Bool) (e : Edge cfg) (tr : History cfg) : Bool :=
  if e.src.phase.executes t then e.act ≠ .ret || sleptLast t P tr else letsSleep t e

/-- Task `t` sleeps for `p` ticks between its executions, and no task of its priority or a
higher one is created. -/
def keepsPeriod (t : ℕ) (p : ℤ) (e : Edge cfg) (tr : History cfg) : Bool :=
  e.act ≠ .init &&
    (match e.act with
      | .call (.task (.create q _)) => q < e.src.machine.sched.prio t
      | _ => true) &&
    sleepsBetween t (· = p) e tr

/-- The ticks in which the function of task `t` was called, the first one first. -/
def startsOf (t : ℕ) : History cfg → List ℕ
  | [] => []
  | e :: tr =>
      match e.obs with
      | .taskCalled _ u => if u = t then startsOf t tr ++ [ticks tr] else startsOf t tr
      | _ => startsOf t tr

/-- Task `t` is above all other tasks. -/
structure Sched.Dominates (s : Sched cfg) (t : ℕ) : Prop where
  lt : t < s.taskCount
  prio : ∀ j < s.taskCount, j ≠ t → s.prio j < s.prio t

/-- What task `t` is doing after `k` ticks and `d` calls of its function. -/
inductive Standing (t : ℕ) (p : ℕ) (tr : History cfg) (u : System cfg) (k d : ℕ) : Prop
  | executing {left : ℕ} : u.phase = .task left t → k = p * d →
      (sleptLast t (· = p) tr → u.machine.sched.Sleeps t p) → Standing t p tr u k d
  | asleep {m : ℕ} : u.phase.executes t = false → u.machine.sched.Sleeps t m → 1 ≤ m →
      m + u.phase.undecided ≤ p → k + m = p * (d + 1) → Standing t p tr u k d
  | due : u.phase.executes t = false → u.phase.undecided = 1 →
      u.machine.sched.status t = (.ready, .none) → k = p * (d + 1) → Standing t p tr u k d

section Steps
variable {u w : System cfg} {a : Action cfg} {o : Observation cfg} {tr : History cfg} {t : ℕ}

theorem StepCases.prio (h : StepCases u a o w) (hu : Inv u) (ha : a ≠ .init) {i : ℕ}
    (hi : i < u.machine.sched.taskCount) : w.machine.sched.prio i = u.machine.sched.prio i :=
  congrArg (fun x => x.2.1) (h.identity hu ha hi)

theorem Machine.effect_create {m : Machine cfg} {c : Call cfg} {p : ℤ} {f : BitVec 64}
    (h : m.effect c = .create p f) : c = .task (.create p f) := by
  cases c with
  | task c =>
      cases c with
      | create p' f' =>
          cases h
          rfl
      | suspend taskId =>
          simp only [effect, TaskCall.effect] at h
          split at h <;> cases h
      | resume taskId =>
          simp only [effect, TaskCall.effect] at h
          split at h
          · cases h
          · split_ifs at h
      | _ => cases h
  | sync c =>
      have hsync := c.effect_ofSync m.sched m.objects
      rw [show c.effect m.sched m.objects = _ from h] at hsync
      exact hsync.elim
  | event c =>
      cases c with
      | set ef mask | wait ef mask =>
          cases ef with
          | none => cases h
          | some i =>
              simp only [effect, EventCall.effect] at h
              split_ifs at h
      | _ => cases h
  | _ => cases h

/-- A new task has the priority it was created with. -/
theorem StepCases.prio_new (h : StepCases u a o w) (hu : Inv u) (ha : a ≠ .init) {i : ℕ}
    (hi : u.machine.sched.taskCount ≤ i) (hlt : i < w.machine.sched.taskCount) :
    ∃ f, a = .call (.task (.create (w.machine.sched.prio i) f)) := by
  have hcall : ∃ c, a = .call c := by
    by_contra hn
    push Not at hn
    have := (h.taskCount hu ha).2 hn
    omega
  obtain ⟨c, rfl⟩ := hcall
  cases h with
  | call _ hexec =>
      have hsched := Machine.exec_sched hexec
      rw [hsched] at hlt ⊢
      have hcreate : ∃ p f, u.machine.effect c = .create p f := by
        by_contra hn
        push Not at hn
        rw [Effect.apply_taskCount _ hn] at hlt
        omega
      obtain ⟨p, f, he⟩ := hcreate
      rw [he] at hlt ⊢
      obtain ⟨rfl, -⟩ := Effect.apply_created _ _ hi hlt
      have hroom : ¬ cfg.rtosMaxTasks ≤ u.machine.sched.taskCount := by
        intro hfull
        simp [Effect.apply, Sched.rtosCreateTask_sched, hfull] at hlt
      have hid := u.machine.sched.rtosCreateTask_identity p f u.machine.sched.taskCount
      rw [if_neg (by simp [hroom])] at hid
      have hprio : ((u.machine.sched.rtosCreateTask p f).2).prio u.machine.sched.taskCount = p :=
        congrArg (fun x => x.2.1) hid
      exact ⟨f, by rw [Machine.effect_create he, Effect.apply, hprio]⟩

theorem Sched.Dominates.step (hd : u.machine.sched.Dominates t) (hu : Inv u)
    (h : StepCases u a o w) {p : ℤ} (hok : keepsPeriod t p (⟨u, a, o, w⟩ : Edge cfg) tr) :
    w.machine.sched.Dominates t := by
  simp only [keepsPeriod, Bool.and_eq_true, decide_eq_true_eq] at hok
  obtain ⟨⟨ha, hcreate⟩, -⟩ := hok
  have hcount := (h.taskCount hu ha).1
  refine ⟨hd.lt.trans_le hcount, fun j hj hjt => ?_⟩
  rw [h.prio hu ha hd.lt]
  by_cases hlt : j < u.machine.sched.taskCount
  · rw [h.prio hu ha hlt]
    exact hd.prio j hlt hjt
  · obtain ⟨f, rfl⟩ := h.prio_new hu ha (not_lt.mp hlt) hj
    simpa using hcreate

theorem startsOf_of_ne (h : ∀ b, o ≠ .taskCalled b t) :
    startsOf t (⟨u, a, o, w⟩ :: tr) = startsOf t tr := by
  cases o with
  | taskCalled b i =>
      have hne : i ≠ t := fun he => h b (he ▸ rfl)
      simp [startsOf, hne]
  | _ => rfl

theorem startsOf_called {b : Sched.Branch} :
    startsOf t (⟨u, a, .taskCalled b t, w⟩ :: tr) = startsOf t tr ++ [ticks tr] := by
  simp [startsOf]

/-- Nothing takes away from a task before the decision that it is READY. -/
theorem StepCases.ready_kept (h : StepCases u a o w) (hu : Inv u)
    (hst : u.machine.sched.status t = (.ready, .none))
    (hlets : letsSleep t (⟨u, a, o, w⟩ : Edge cfg)) (hp : ∀ left, u.phase ≠ .decide left) :
    w.machine.sched.status t = (.ready, .none) := by
  obtain ⟨hstate, -⟩ := Prod.mk.inj hst
  cases h.status hu t with
  | kept he => exact he.trans hst
  | awoken h₁ => simp [hst] at h₁
  | dispatched hd => exact absurd hd (hp _)
  | takenBack hr => simp [hstate] at hr
  | @called c ha hc =>
      subst ha
      simp only [letsSleep, Bool.and_eq_true, Bool.not_eq_true', decide_eq_true_eq,
        Bool.and_eq_false_iff, decide_eq_false_iff_not] at hlets
      obtain ⟨⟨hsus, hcur⟩, -⟩ := hlets
      have hblocks : u.machine.blocksCurrent c = true →
          u.machine.sched.rtosCurrentTask ≠ some t := by
        intro hb
        simpa [hb] using hcur
      generalize w.machine.sched.status t = st at hc ⊢
      cases hc with
      | created | resumed | unblocked | woken => rfl
      | slept hc => exact absurd hc (hblocks rfl)
      | suspended hid => exact absurd (by rw [(Sched.taskIndexFromId_spec hid).2]) hsus
      | parked _ _ he hc =>
          exact absurd hc (hblocks (by simp [Machine.blocksCurrent, Machine.effect, he]))
      | waited he hc => exact absurd hc (hblocks (by simp [Machine.blocksCurrent, he]))

/-- A task above all others that is READY is called by the next decision. -/
theorem Sched.Dominates.called (hd : u.machine.sched.Dominates t) (hu : Inv u)
    (h : StepCases u a o w) (hst : u.machine.sched.status t = (.ready, .none)) {left : ℕ}
    (hp : u.phase = .decide left) : ∃ b, o = .taskCalled b t ∧ w.phase = .task left t := by
  have hq : t ∈ u.machine.sched.readyQueue :=
    hu.wellFormed.mem_queue.mpr ⟨hd.lt, (Prod.mk.inj hst).1⟩
  cases h with
  | idle hp' hdec =>
      have hempty := (Sched.Decides.idles (hdec ▸ hu.decides hp')).1
      simp [hempty] at hq
  | @taskCalled left' t' b _ _ hp' hdec =>
      obtain rfl : left' = left := by
        rw [hp] at hp'
        cases hp'
        rfl
      have r := Sched.Decides.runs hu.wellFormed (hdec ▸ hu.decides hp')
      have hle := r.maximal t hq
      obtain rfl : t' = t := by
        by_contra hne
        have hlt := hd.prio t' (hu.wellFormed.mem_queue.mp r.chosen).1 hne
        omega
      exact ⟨b, rfl, rfl⟩
  | call happ => simp [hp, Phase.application] at happ
  | init hp' | run hp' | callbackReturned hp' | taskReturned hp' | runDone hp' | tick hp'
  | slotSkipped hp' | callbackCalled hp' | passDone hp' => simp [hp] at hp'

section Between
variable {P : ℤ → Bool} {left : ℕ}

/-- The rules for a step outside the function of the task. -/
theorem sleepsBetween_outside (h : sleepsBetween t P (⟨u, a, o, w⟩ : Edge cfg) tr)
    (hp : u.phase.executes t = false) : letsSleep t (⟨u, a, o, w⟩ : Edge cfg) := by
  simpa [sleepsBetween, hp] using h

theorem sleepsBetween_ret (h : sleepsBetween t P (⟨u, .ret, o, w⟩ : Edge cfg) tr)
    (hp : u.phase = .task left t) : sleptLast t P tr := by
  simpa [sleepsBetween, hp, Phase.executes] using h

/-- In its function the task may do anything before it goes to sleep. -/
theorem sleptLast_call {c : Call cfg} {v : Value} {m : Machine cfg} (hu : Inv u)
    (hexec : u.machine.exec c = some (v, m)) (hp : u.phase = .task left t)
    (hsl : sleptLast t P tr → ∃ n : ℤ, P n ∧ u.machine.sched.Sleeps t n)
    (hlast : sleptLast t P (⟨u, .call c, .returned v, ⟨m, u.phase⟩⟩ :: tr)) :
    ∃ n : ℤ, P n ∧ m.sched.Sleeps t n := by
  have hstep : MiniRtos.step u (.call c) = some (.returned v, ⟨m, u.phase⟩) := by
    simp [MiniRtos.step, hp, Phase.application, hexec]
  simp only [sleptLast, Bool.or_eq_true, Bool.and_eq_true] at hlast
  rcases hlast with hsleep | ⟨hlets, hlast⟩
  · unfold sleepsFor at hsleep
    split at hsleep
    · next n heq =>
        cases heq
        obtain ⟨hlt, hcur⟩ := hu.task left t hp
        rw [Machine.exec_sched hexec]
        exact ⟨n, hsleep,
          Sched.sleeps_of_call (u.machine.sched.rtosCurrentTask_eq_some.mpr ⟨hcur, hlt⟩) n⟩
    · cases hsleep
  · obtain ⟨n, hn, hslept⟩ := hsl hlast
    exact ⟨n, hn, hslept.between hu hstep hlets (by simp [isTick])⟩

end Between

theorem keepsPeriod_sleeps {p : ℤ} (h : keepsPeriod t p (⟨u, a, o, w⟩ : Edge cfg) tr) :
    sleepsBetween t (· = p) (⟨u, a, o, w⟩ : Edge cfg) tr := by
  simp only [keepsPeriod, Bool.and_eq_true] at h
  exact h.2

theorem StepCases.executes_of_ne (h : StepCases u a o w) (hp : u.phase.executes t = false)
    (ho : ∀ b, o ≠ .taskCalled b t) : w.phase.executes t = false := by
  cases h with
  | call => exact hp
  | taskCalled =>
      refine decide_eq_false fun he => ?_
      subst he
      exact ho _ rfl
  | _ => rfl

theorem Sched.Sleeps.not_called {m : ℤ} (hsl : u.machine.sched.Sleeps t m) (hu : Inv u)
    (h : StepCases u a o w) : ∀ b, o ≠ .taskCalled b t := by
  rintro b rfl
  cases h with
  | taskCalled hp hd =>
      have hchosen := (Sched.Decides.runs hu.wellFormed (hd ▸ hu.decides hp)).chosen
      have hready := (hu.wellFormed.mem_queue.mp hchosen).2
      simp [(Prod.mk.inj hsl.status).1] at hready

/-- A sleeper that is not disturbed has one tick less with each tick, until it is due. -/
theorem Standing.asleep_step {p m d : ℕ} (hu : Inv u) (hs : MiniRtos.step u a = some (o, w))
    (hx : u.phase.executes t = false) (hsl : u.machine.sched.Sleeps t m) (hm : 1 ≤ m)
    (hle : m + u.phase.undecided ≤ p) (hk : ticks tr + m = p * (d + 1))
    (hlets : letsSleep t (⟨u, a, o, w⟩ : Edge cfg)) :
    (∀ b, o ≠ .taskCalled b t) ∧
      Standing t p (⟨u, a, o, w⟩ :: tr) w (ticks (⟨u, a, o, w⟩ :: tr)) d := by
  have hc := step_cases hs
  have hund := hc.undecided
  have hno := hsl.not_called hu hc
  have hw := hc.executes_of_ne hx hno
  refine ⟨hno, ?_⟩
  rw [ticks_cons]
  by_cases htick : isTick (⟨u, a, o, w⟩ : Edge cfg)
  · rw [if_pos htick] at hund ⊢
    obtain ⟨-, left, hp, hp'⟩ := hc.of_isTick htick
    have hund' : w.phase.undecided = 1 := by simp [hp', Phase.undecided]
    have hund₀ : u.phase.undecided = 0 := by simp [hp, Phase.undecided]
    rcases Nat.lt_or_ge 1 m with hlt | hge
    · have hnext := hsl.tick hs htick (by omega)
      rw [show (m : ℤ) - 1 = ((m - 1 : ℕ) : ℤ) by omega] at hnext
      exact .asleep hw hnext (by omega) (by omega) (by omega)
    · obtain rfl : m = 1 := by omega
      exact .due hw hund' (hsl.lastTick (hu.step hs) hs htick).status hk
  · rw [if_neg htick] at hund ⊢
    exact .asleep hw (hsl.between hu hs hlets htick) hm (by omega) hk

/-- A task that is due is called by the decision of the cycle. -/
theorem Standing.due_step {p d : ℕ} (hu : Inv u) (hd : u.machine.sched.Dominates t)
    (hs : MiniRtos.step u a = some (o, w)) (hx : u.phase.executes t = false)
    (hund : u.phase.undecided = 1) (hst : u.machine.sched.status t = (.ready, .none))
    (hk : ticks tr = p * (d + 1)) (hlets : letsSleep t (⟨u, a, o, w⟩ : Edge cfg)) :
    ((∀ b, o ≠ .taskCalled b t) ∧
        Standing t p (⟨u, a, o, w⟩ :: tr) w (ticks (⟨u, a, o, w⟩ :: tr)) d) ∨
      (∃ b, o = .taskCalled b t) ∧
        Standing t p (⟨u, a, o, w⟩ :: tr) w (ticks (⟨u, a, o, w⟩ :: tr)) (d + 1) := by
  have hc := step_cases hs
  have hnotick : ¬ isTick (⟨u, a, o, w⟩ : Edge cfg) := by
    intro htick
    obtain ⟨-, left, hp, -⟩ := hc.of_isTick htick
    simp [hp, Phase.undecided] at hund
  rw [ticks_cons, if_neg hnotick, Nat.add_zero]
  by_cases hdec : ∃ left, u.phase = .decide left
  · obtain ⟨left, hp⟩ := hdec
    obtain ⟨b, rfl, hp'⟩ := hd.called hu hc hst hp
    exact .inr ⟨⟨b, rfl⟩, .executing hp' hk (by simp [sleptLast])⟩
  · push Not at hdec
    have hno : ∀ b, o ≠ .taskCalled b t := by
      rintro b rfl
      cases hc with
      | taskCalled hp => exact hdec _ hp
    have hund' := hc.undecided
    have hdecision : isDecision (⟨u, a, o, w⟩ : Edge cfg) = false := by
      simp only [isDecision]
    rw [hdecision, if_neg hnotick] at hund'
    exact .inl ⟨hno, .due (hc.executes_of_ne hx hno) (by simpa [hund] using hund')
      (hc.ready_kept hu hst hlets hdec) hk⟩

end Steps

/-- Task `t` has been called in every `p`-th tick so far. -/
structure OnTime (t p : ℕ) (tr : History cfg) (u : System cfg) : Prop where
  inv : Inv u
  dominates : u.machine.sched.Dominates t
  standing : Standing t p tr u (ticks tr) (startsOf t tr).length
  starts : startsOf t tr = (List.range (startsOf t tr).length).map fun i => p * (i + 1)

theorem OnTime.step {t p : ℕ} {tr : History cfg} {u w : System cfg} {a : Action cfg}
    {o : Observation cfg} (h : OnTime t p tr u) (hp : 1 ≤ p)
    (hok : keepsPeriod t p (⟨u, a, o, w⟩ : Edge cfg) tr) (hs : MiniRtos.step u a = some (o, w)) :
    OnTime t p (⟨u, a, o, w⟩ :: tr) w := by
  have hc := step_cases hs
  have hinv := h.inv.step hs
  have hdom := h.dominates.step h.inv hc hok
  have hstays : (∀ b, o ≠ .taskCalled b t) →
      Standing t p (⟨u, a, o, w⟩ :: tr) w (ticks (⟨u, a, o, w⟩ :: tr)) (startsOf t tr).length →
      OnTime t p (⟨u, a, o, w⟩ :: tr) w := by
    intro hno hst
    have hstarts : startsOf t (⟨u, a, o, w⟩ :: tr) = startsOf t tr := startsOf_of_ne hno
    exact ⟨hinv, hdom, by rwa [hstarts], by rw [hstarts]; exact h.starts⟩
  cases h.standing with
  | @executing left hphase hk hsl =>
      cases hc with
      | call _ hexec =>
          refine hstays (by simp) ?_
          rw [ticks_cons, if_neg (by simp [isTick])]
          refine .executing hphase hk fun hlast => ?_
          have hslept := sleptLast_call h.inv hexec hphase (fun hl => ⟨p, by simp, hsl hl⟩) hlast
          simpa using hslept
      | @taskReturned left' t' hp' =>
          obtain ⟨rfl, rfl⟩ := Phase.task.inj (hphase.symm.trans hp')
          refine hstays (by simp) ?_
          rw [ticks_cons, if_neg (by simp [isTick])]
          have hslept := hsl (sleepsBetween_ret (keepsPeriod_sleeps hok) hphase)
          refine .asleep rfl hslept.taskReturned hp (by simp [Phase.undecided]) ?_
          rw [hk, Nat.mul_succ, Nat.add_zero]
      | init hp' | run hp' | callbackReturned hp' | runDone hp' | tick hp' | slotSkipped hp'
      | callbackCalled hp' | passDone hp' | idle hp' | taskCalled hp' => simp [hphase] at hp'
  | asleep hx hsl hm hle hk =>
      obtain ⟨hno, hst⟩ := Standing.asleep_step h.inv hs hx hsl hm hle hk
        (sleepsBetween_outside (keepsPeriod_sleeps hok) hx)
      exact hstays hno hst
  | due hx hund hst hk =>
      rcases Standing.due_step h.inv h.dominates hs hx hund hst hk
          (sleepsBetween_outside (keepsPeriod_sleeps hok) hx)
        with ⟨hno, hst⟩ | ⟨⟨b, rfl⟩, hst⟩
      · exact hstays hno hst
      · have hstarts : startsOf t (⟨u, a, .taskCalled b t, w⟩ :: tr) =
            startsOf t tr ++ [ticks tr] :=
          startsOf_called
        refine ⟨hinv, hdom, ?_, ?_⟩
        · rw [hstarts, List.length_append]
          exact hst
        · rw [hstarts, List.length_append, List.length_singleton, List.range_succ, List.map_append,
            ← h.starts, hk]
          rfl

/-- A task above all others whose function goes to sleep for `p` ticks each time is called
again in the ticks `p`, `2 * p`, `3 * p` and so on after the one it is executing in. -/
theorem periodic_on_time {s v : System cfg} {tr : History cfg} {left t p : ℕ} (hs : Reachable s)
    (hphase : s.phase = .task left t) (hd : s.machine.sched.Dominates t) (hp : 1 ≤ p)
    (h : Run step s tr v) (hok : Disciplined (fun e tr => keepsPeriod t p e tr) tr) :
    startsOf t tr = (List.range ((ticks tr - v.phase.undecided) / p)).map fun i => p * (i + 1) := by
  have hstart : OnTime t p [] s := ⟨hs.inv, hd, .executing hphase rfl (by simp [sleptLast]), rfl⟩
  have hontime : OnTime t p tr v :=
    h.history_invariant (P := fun tr v => OnTime t p tr v) hstart hok
      fun tr u a o w hu hok hs => hu.step hp hok hs
  have hcount : (startsOf t tr).length = (ticks tr - v.phase.undecided) / p := by
    refine (Nat.div_eq_of_lt_le ?_ ?_).symm <;> rw [Nat.mul_comm]
    · cases hontime.standing with
      | executing hv hk => simp [hv, Phase.undecided, hk]
      | asleep _ _ _ hle hk | due _ hle _ hk =>
          rw [Nat.mul_succ] at hk
          omega
    · cases hontime.standing with
      | executing hv hk =>
          rw [Nat.mul_succ]
          omega
      | asleep _ _ _ _ hk | due _ _ _ hk =>
          rw [Nat.mul_succ] at hk ⊢
          omega
  rw [← hcount]
  exact hontime.starts

/-- The first of two tasks sleeps for two ticks, over the end of one `rtos_run`. -/
def periodRun : List (Action Config.default) :=
  [.call (.task (.sleep 2)), .ret] ++ cycleActions _ ++ [.ret, .advance, .run 1] ++
    cycleActions _

theorem periodic_on_time_periodRun :
    let s := (System.after _ sleeperRun).2
    let r := played step s periodRun
    r.2.phase = .task 0 0 ∧ startsOf 0 r.1 = [2] ∧
      startsOf 0 r.1 = (List.range ((ticks r.1 - r.2.phase.undecided) / 2)).map
        fun i => 2 * (i + 1) := by
  have hp : (System.after _ sleeperRun).2.phase = .task 1 0 := by decide +kernel
  have hd : (System.after _ sleeperRun).2.machine.sched.Dominates 0 :=
    ⟨by decide +kernel, by decide +kernel⟩
  exact ⟨by decide +kernel, by decide +kernel,
    periodic_on_time (System.after_reachable sleeperRun) hp hd (by omega)
      (run_played _ periodRun) (by decide +kernel)⟩

end MiniRtos
