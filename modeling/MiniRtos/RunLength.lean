import MiniRtos.BoundedBypass

/-!
# What one call of `rtos_run` amounts to

The kernel's part of a cycle has a length that does not depend on what the application
does: one tick, one pass over the pool of timers with at most one callback for each slot,
one decision, one return of the task called. A rank of the phase counts these steps, so a
call returns as soon as the functions it calls do, after exactly the cycles it was asked
for. Two calls in a row are one call for the sum.
-/
namespace MiniRtos
open TransitionSystem
variable {cfg : Config}

namespace Phase

/-- The cycles of the call of `rtos_run` that have not begun. -/
def cyclesToCome : Phase cfg → ℕ
  | .outside => 0
  | .cycleTop left | .softTimer left _ | .callback left _ | .decide left | .task left _ => left

/-- The steps of a cycle: the tick, the pass, the decision and the return. -/
def cycleLength (cfg : Config) : ℕ := 2 * cfg.rtosSoftTimerCount + 4

/-- How many steps, calls apart, the call of `rtos_run` has still to go. -/
def rank : Phase cfg → ℕ
  | .outside => 0
  | .cycleTop left => left * cycleLength cfg + 1
  | .softTimer left i => left * cycleLength cfg + 4 + 2 * (cfg.rtosSoftTimerCount - i)
  | .callback left i => left * cycleLength cfg + 3 + 2 * (cfg.rtosSoftTimerCount - i.val)
  | .decide left => left * cycleLength cfg + 3
  | .task left _ => left * cycleLength cfg + 2

end Phase

/-- The kernel goes on, or a function it called returns to it. -/
def isProgress (e : Edge cfg) : Bool := e.act = .advance ∨ e.act = .ret

section Steps
variable {u w : System cfg} {a : Action cfg} {o : Observation cfg}

theorem isProgress_advance : isProgress (⟨u, .advance, o, w⟩ : Edge cfg) = true :=
  decide_eq_true (.inl rfl)

theorem isProgress_ret : isProgress (⟨u, .ret, o, w⟩ : Edge cfg) = true :=
  decide_eq_true (.inr rfl)

theorem StepCases.rank (h : StepCases u a o w) (hp : u.phase ≠ .outside) :
    (w.phase.rank + if isProgress (⟨u, a, o, w⟩ : Edge cfg) then 1 else 0) ≤ u.phase.rank := by
  cases h with
  | init ho | run ho => exact absurd ho hp
  | call => simp [isProgress]
  | @tick left ho =>
      have hlength : Phase.cycleLength cfg = 2 * cfg.rtosSoftTimerCount + 4 := rfl
      rw [isProgress_advance, if_pos rfl, ho]
      simp only [Phase.rank, Nat.sub_zero, Nat.add_mul, Nat.one_mul]
      omega
  | @slotSkipped left i ho | @callbackCalled left i _ _ ho =>
      have hi := i.isLt
      rw [isProgress_advance, if_pos rfl, ho]
      simp only [Phase.rank]
      omega
  | @callbackReturned left i ho =>
      have hi := i.isLt
      rw [isProgress_ret, if_pos rfl, ho]
      simp only [Phase.rank]
      omega
  | passDone ho | idle ho | taskCalled ho | runDone ho =>
      rw [isProgress_advance, if_pos rfl, ho]
      simp only [Phase.rank]
      omega
  | taskReturned ho =>
      rw [isProgress_ret, if_pos rfl, ho]
      simp only [Phase.rank]
      omega

/-- A cycle that begins is one fewer to come. -/
theorem StepCases.cyclesToCome (h : StepCases u a o w) (hp : u.phase ≠ .outside) :
    (w.phase.cyclesToCome + if isTick (⟨u, a, o, w⟩ : Edge cfg) then 1 else 0) =
      u.phase.cyclesToCome := by
  cases h with
  | init ho | run ho => exact absurd ho hp
  | call => simp [isTick]
  | tick ho => simp [isTick, ho, Phase.cyclesToCome]
  | callbackReturned ho | taskReturned ho | runDone ho | slotSkipped ho | callbackCalled ho
  | passDone ho | idle ho | taskCalled ho => simp [isTick, ho, Phase.cyclesToCome]

/-- A cycle that begins decides later, and only once. -/
theorem StepCases.undecided (h : StepCases u a o w) :
    (w.phase.undecided + if isDecision (⟨u, a, o, w⟩ : Edge cfg) then 1 else 0) =
      u.phase.undecided + if isTick (⟨u, a, o, w⟩ : Edge cfg) then 1 else 0 := by
  cases h with
  | @call c v m hp =>
      have hd : isDecision (⟨u, .call c, .returned v, ⟨m, u.phase⟩⟩ : Edge cfg) = false := by
        simp only [isDecision]
        split
        · next left hl => simp [hl, Phase.application] at hp
        · rfl
      simp [hd, isTick]
  | init ho | run ho | callbackReturned ho | taskReturned ho | runDone ho | slotSkipped ho
  | callbackCalled ho | passDone ho | idle ho | taskCalled ho | tick ho =>
      simp [isTick, isDecision, ho, Phase.undecided]

theorem TimerCall.exec_kernelTick (t : TimerState cfg) (c : TimerCall cfg) :
    (c.exec t).2.kernelTick = t.kernelTick := by
  cases c with
  | softCreate mode p f x =>
      simp only [exec, TimerState.timerSoftCreate]
      split_ifs
      · rfl
      · rfl
      · split <;> rfl
  | softStart h | softStop h | softDelete h =>
      simp only [exec, TimerState.timerSoftStart, TimerState.timerSoftStop,
        TimerState.timerSoftDelete, TimerState.onSlotInUse]
      split
      · rfl
      · split_ifs <;> rfl
  | now => rfl

namespace TimerState
variable (t : TimerState cfg) (i : Fin cfg.rtosSoftTimerCount)

theorem timerUpdateSoftSlot_kernelTick :
    (t.timerUpdateSoftSlot i).2.kernelTick = t.kernelTick := by
  unfold timerUpdateSoftSlot
  split_ifs <;> rfl

theorem timerCallbackReturned_kernelTick :
    (t.timerCallbackReturned i).kernelTick = t.kernelTick := by
  unfold timerCallbackReturned
  split_ifs <;> rfl

end TimerState

/-- The kernel tick counts the cycles. -/
theorem StepCases.kernelTick (h : StepCases u a o w) (ha : a ≠ .init) :
    w.machine.timer.kernelTick = u.machine.timer.kernelTick +
      BitVec.ofNat 32 (if isTick (⟨u, a, o, w⟩ : Edge cfg) then 1 else 0) := by
  cases h with
  | init => exact absurd rfl ha
  | call _ hexec =>
      cases Machine.exec_cases hexec with
      | @timer c => simpa [isTick] using c.exec_kernelTick u.machine.timer
      | _ => simp [isTick]
  | tick ho => simp [isTick, ho, TimerState.timerTick]
  | @slotSkipped left i ho | @callbackCalled left i _ _ ho =>
      simpa [isTick, ho] using u.machine.timer.timerUpdateSoftSlot_kernelTick i
  | @callbackReturned left i ho =>
      simpa [isTick] using u.machine.timer.timerCallbackReturned_kernelTick i
  | run ho | taskReturned ho | runDone ho | passDone ho | idle ho | taskCalled ho =>
      simp [isTick, ho]

end Steps

/-- Inside `rtos_run` the kernel can go on, or what it called can return. -/
theorem System.exists_progress (u : System cfg) (hp : u.phase ≠ .outside) :
    (step u (if u.phase.application then .ret else .advance)).isSome = true := by
  cases ho : u.phase with
  | outside => exact absurd ho hp
  | cycleTop left => cases left <;> simp [Phase.application, step, System.advance, ho]
  | softTimer left i =>
      simp only [Phase.application, step, System.advance, ho]
      simp only [Bool.false_eq_true, if_false]
      split_ifs <;> rfl
  | callback left i => simp [Phase.application, step, System.ret, ho]
  | decide left =>
      simp only [Phase.application, step, System.advance, ho]
      simp only [Bool.false_eq_true, if_false]
      split <;> rfl
  | task left t => simp [Phase.application, step, System.ret, ho]

/-- A call of `rtos_run` so far: what it has done and what it has still to do. -/
structure RunLength (n : ℕ) (u : System cfg) (tr : History cfg) (v : System cfg) : Prop where
  steps : tr.countP isProgress + v.phase.rank ≤ n * Phase.cycleLength cfg + 1
  cycles : ticks tr + v.phase.cyclesToCome = n
  decisions : tr.countP isDecision + v.phase.undecided = ticks tr
  kernelTick : v.machine.timer.kernelTick =
    u.machine.timer.kernelTick + BitVec.ofNat 32 (ticks tr)

/-- A call of `rtos_run` never hangs by itself: it can always go on, it makes a bounded
number of steps besides the calls of the functions it called, and when it returns there
have been as many ticks, each with one decision, as it was asked for. -/
theorem rtos_run_length {s u v : System cfg} {n : ℤ} {o : Observation cfg} {tr : History cfg}
    (hs : step s (.run n) = some (o, u)) (h : Run step u tr v)
    (hin : ∀ e ∈ tr, e.src.phase ≠ .outside) :
    RunLength n.toNat u tr v ∧
      (v.phase ≠ .outside →
        (step v (if v.phase.application then .ret else .advance)).isSome = true) ∧
      (v.phase = .outside → ticks tr = n.toNat ∧ tr.countP isDecision = n.toNat) := by
  have hlength : RunLength n.toNat u tr v := by
    have hu : u.phase = .cycleTop n.toNat := by
      cases step_cases hs with
      | run => rfl
    refine h.history_invariant (P := fun tr v => RunLength n.toNat u tr v) ?_ (.of_forall hin) ?_
    · constructor <;> simp [hu, Phase.rank, Phase.cyclesToCome, Phase.undecided]
    · intro tr v a o w hv hout hstep
      have hc := step_cases hstep
      have hinit : a ≠ .init := by
        rintro rfl
        cases hc with
        | init ho => exact hout ho
      have hrank := hc.rank hout
      have hcome := hc.cyclesToCome hout
      have hund := hc.undecided
      have htick := hc.kernelTick hinit
      obtain ⟨hsteps, hticks, hdecisions, hkernel⟩ := hv
      constructor
      · rw [List.countP_cons]
        omega
      · rw [ticks_cons]
        omega
      · rw [ticks_cons, List.countP_cons]
        omega
      · rw [htick, hkernel, ticks_cons, BitVec.ofNat_add, BitVec.add_assoc]
  refine ⟨hlength, v.exists_progress, fun hv => ?_⟩
  have hticks := hlength.cycles
  have hdecisions := hlength.decisions
  simp only [hv, Phase.cyclesToCome, Phase.undecided] at hticks hdecisions
  omega

/-- A task runs, and then sleeps through the second of two cycles. -/
def idleRun : List (Action Config.default) :=
  cycleActions _ ++ [.call (.task (.sleep 5)), .ret] ++ cycleActions _ ++ [.advance]

theorem rtos_run_length_idleRun :
    let s := (System.after Config.default [.call (.task (.create 1 0x1000#64))]).2
    let u := (played step s [.run 2]).2
    let r := played step u idleRun
    r.2.phase = .outside ∧ RunLength 2 u r.1 r.2 ∧ ticks r.1 = 2 ∧
      r.1.countP isDecision = 2 := by
  have hs : step (System.after Config.default [.call (.task (.create 1 0x1000#64))]).2 (.run 2) =
      some (.silent, (played step (System.after Config.default
        [.call (.task (.create 1 0x1000#64))]).2 [.run 2]).2) :=
    step_eq_played (by decide +kernel)
  have h := rtos_run_length hs (run_played _ idleRun) (by decide +kernel)
  have hend : (played step (played step (System.after Config.default
      [.call (.task (.create 1 0x1000#64))]).2 [.run 2]).2 idleRun).2.phase = .outside := by
    decide +kernel
  exact ⟨hend, h.1, h.2.2 hend⟩

/-- The phase in a call that has `n` more cycles to run. -/
def Phase.extend (n : ℕ) : Phase cfg → Phase cfg
  | .outside => .outside
  | .cycleTop left => .cycleTop (left + n)
  | .softTimer left i => .softTimer (left + n) i
  | .callback left i => .callback (left + n) i
  | .decide left => .decide (left + n)
  | .task left t => .task (left + n) t

def System.extend (n : ℕ) (u : System cfg) : System cfg := ⟨u.machine, u.phase.extend n⟩

/-- The number of cycles to come is tested at the top of the loop only. -/
theorem step_extend (n : ℕ) {u : System cfg} (hp : u.phase ≠ .outside)
    (htop : u.phase ≠ .cycleTop 0) (a : Action cfg) :
    step (u.extend n) a = (step u a).map fun r => (r.1, r.2.extend n) := by
  obtain ⟨m, phase⟩ := u
  cases phase with
  | outside => exact absurd rfl hp
  | cycleTop left =>
      cases left with
      | zero => exact absurd rfl htop
      | succ left =>
          have hleft : left + 1 + n = left + n + 1 := by omega
          cases a <;>
            simp [step, System.extend, Phase.extend, System.advance, System.ret, hleft,
              Phase.application]
  | softTimer left i =>
      cases a with
      | advance =>
          simp only [step, System.extend, Phase.extend, System.advance]
          by_cases hi : i < cfg.rtosSoftTimerCount
          · rw [dif_pos hi, dif_pos hi]
            rw [apply_ite (Option.map _)]
            rfl
          · rw [dif_neg hi, dif_neg hi]
            rfl
      | _ => simp [step, System.extend, Phase.extend, System.ret, Phase.application]
  | callback left i =>
      cases a with
      | call c =>
          simp only [step, System.extend, Phase.extend, Phase.application, if_true,
            Option.map_map]
          rfl
      | _ => simp [step, System.extend, Phase.extend, System.ret, System.advance]
  | decide left =>
      cases a with
      | advance =>
          simp only [step, System.extend, Phase.extend, System.advance]
          split <;> rfl
      | _ => simp [step, System.extend, Phase.extend, System.ret, Phase.application]
  | task left t =>
      cases a with
      | call c =>
          simp only [step, System.extend, Phase.extend, Phase.application, if_true,
            Option.map_map]
          rfl
      | _ => simp [step, System.extend, Phase.extend, System.ret, System.advance]

/-- One whole call of `rtos_run`. -/
structure Called (n : ℕ) (s : System cfg) (tr : History cfg) (v : System cfg) : Prop where
  begins : step s (.run n) = some (.silent, ⟨s.machine, .cycleTop n⟩)
  run : Run step ⟨s.machine, .cycleTop n⟩ tr v
  inside : ∀ e ∈ tr, e.src.phase ≠ .outside
  ends : v.phase = .outside

theorem step_run {s : System cfg} (hs : s.phase = .outside) (n : ℕ) :
    step s (.run n) = some (.silent, ⟨s.machine, .cycleTop n⟩) := by
  simp [step, hs]

theorem Called.outside {n : ℕ} {s v : System cfg} {tr : History cfg} (h : Called n s tr v) :
    s.phase = .outside := by
  cases step_cases h.begins with
  | run ho => exact ho

/-- What happens in a call: every action with what came of it, but for the return. -/
def events (tr : History cfg) : List (Action cfg × Observation cfg) :=
  (tr.filter fun e => e.src.phase ≠ .cycleTop 0).map fun e => (e.act, e.obs)

theorem events_cons (e : Edge cfg) (tr : History cfg) :
    events (e :: tr) =
      (if e.src.phase = .cycleTop 0 then [] else [(e.act, e.obs)]) ++ events tr := by
  by_cases h : e.src.phase = .cycleTop 0 <;> simp [events, h]

/-- A run that is still in the first of two calls, or past it. -/
inductive Halfway (m n : ℕ) (s : System cfg) (tr : History cfg) (v : System cfg) : Prop
  | first {tr₁ : History cfg} {v₁ : System cfg} :
      Run step ⟨s.machine, .cycleTop m⟩ tr₁ v₁ → (∀ e ∈ tr₁, e.src.phase ≠ .outside) →
      v₁.phase ≠ .outside → v₁.phase ≠ .cycleTop 0 → v = v₁.extend n →
      events tr = events tr₁ → Halfway m n s tr v
  | second {tr₁ tr₂ : History cfg} {u : System cfg} : Called m s tr₁ u →
      Run step ⟨u.machine, .cycleTop n⟩ tr₂ v → (∀ e ∈ tr₂, e.src.phase ≠ .outside) →
      events tr = events tr₂ ++ events tr₁ → Halfway m n s tr v

section Halves
variable {m n : ℕ} {s : System cfg}

/-- The first call has just come to its last test. -/
theorem Halfway.of_top {tr tr₁ : History cfg} {v₁ : System cfg} (hs : s.phase = .outside)
    (h : Run step ⟨s.machine, .cycleTop m⟩ tr₁ v₁) (hin : ∀ e ∈ tr₁, e.src.phase ≠ .outside)
    (htop : v₁.phase = .cycleTop 0) (he : events tr = events tr₁) :
    Halfway m n s tr (v₁.extend n) := by
  obtain ⟨k, phase⟩ := v₁
  change phase = _ at htop
  subst htop
  have hreturn : step (⟨k, .cycleTop 0⟩ : System cfg) .advance = some (.silent, ⟨k, .outside⟩) :=
    rfl
  have hcalled : Called m s (⟨⟨k, .cycleTop 0⟩, .advance, .silent, ⟨k, .outside⟩⟩ :: tr₁)
      ⟨k, .outside⟩ :=
    ⟨step_run hs m, h.snoc hreturn, by simpa using hin, rfl⟩
  have hnext : Run step (⟨k, .cycleTop n⟩ : System cfg) [] (System.extend n ⟨k, .cycleTop 0⟩) := by
    simpa [System.extend, Phase.extend] using
      (Run.nil : Run step (⟨k, .cycleTop n⟩ : System cfg) [] _)
  refine .second hcalled hnext (by simp) ?_
  simpa [events] using he

theorem Halfway.step {tr : History cfg} {v w : System cfg} {a : Action cfg} {o : Observation cfg}
    (hs : s.phase = .outside) (h : Halfway m n s tr v) (hv : v.phase ≠ .outside)
    (hstep : MiniRtos.step v a = some (o, w)) : Halfway m n s (⟨v, a, o, w⟩ :: tr) w := by
  cases h with
  | @first tr₁ v₁ hr hin hout htop he hev =>
      subst he
      rw [step_extend n hout htop] at hstep
      obtain ⟨⟨o', w₁⟩, hstep₁, hw⟩ := Option.map_eq_some_iff.mp hstep
      obtain ⟨rfl, rfl⟩ := Prod.mk.inj hw
      have hr' := hr.snoc hstep₁
      have hin' : ∀ e ∈ (⟨v₁, a, o', w₁⟩ :: tr₁ : History cfg), e.src.phase ≠ .outside :=
        List.forall_mem_cons.mpr ⟨hout, hin⟩
      have hshown : (v₁.extend n).phase ≠ .cycleTop 0 := by
        simp only [System.extend, Phase.extend]
        split <;> simp_all
      have hev' : events (⟨v₁.extend n, a, o', w₁.extend n⟩ :: tr) =
          events (⟨v₁, a, o', w₁⟩ :: tr₁) := by
        rw [events_cons, events_cons, if_neg hshown, if_neg htop, hev]
      have hw₁ : w₁.phase ≠ .outside := by
        intro ho
        cases step_cases hstep₁ with
        | init h | run h => exact hout h
        | runDone h => exact htop h
        | call => exact hout ho
        | _ => cases ho
      by_cases htop' : w₁.phase = .cycleTop 0
      · exact .of_top hs hr' hin' htop' hev'
      · exact .first hr' hin' hw₁ htop' rfl hev'
  | @second tr₁ tr₂ u hc hr hin hev =>
      refine .second hc (hr.snoc hstep) (List.forall_mem_cons.mpr ⟨hv, hin⟩) ?_
      rw [events_cons, events_cons, hev, List.append_assoc]

/-- A first call is the beginning of a longer one. -/
theorem Run.extend {u v : System cfg} {tr : History cfg} (h : Run MiniRtos.step u tr v)
    (hin : ∀ e ∈ tr, e.src.phase ≠ .outside) (hv : v.phase ≠ .outside) :
    ∃ tr', Run MiniRtos.step (u.extend n) tr' (v.extend n) ∧
      (∀ e ∈ tr', e.src.phase ≠ .outside) ∧ events tr' = events tr := by
  induction h with
  | nil => exact ⟨[], .nil, by simp, rfl⟩
  | @snoc v w tr a o hr hs ih =>
      have hout := hin ⟨v, a, o, w⟩ (by simp)
      have htop : v.phase ≠ .cycleTop 0 := by
        intro ht
        cases step_cases hs with
        | runDone => exact hv rfl
        | init ho | run ho => exact hout ho
        | call hp => simp [ht, Phase.application] at hp
        | callbackReturned ho | taskReturned ho | tick ho | slotSkipped ho | callbackCalled ho
        | passDone ho | idle ho | taskCalled ho => simp [ht] at ho
      obtain ⟨tr', hr', hin', hev⟩ := ih (fun e he => hin e (by simp [he])) hout
      have hs' : MiniRtos.step (v.extend n) a = some (o, w.extend n) := by
        rw [step_extend n hout htop, hs]
        rfl
      have hout' : (v.extend n).phase ≠ .outside := by
        simp only [System.extend, Phase.extend]
        split <;> simp_all
      have htop' : (v.extend n).phase ≠ .cycleTop 0 := by
        simp only [System.extend, Phase.extend]
        split <;> simp_all
      refine ⟨_, hr'.snoc hs', List.forall_mem_cons.mpr ⟨hout', hin'⟩, ?_⟩
      rw [events_cons, events_cons, if_neg htop, if_neg htop', hev]

end Halves

end MiniRtos
