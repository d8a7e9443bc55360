import MiniRtos.ObjectsAlike

/-!
# `rtos_init` erases history

Two machines on which `rtos_init` was called are alike but for the live registers, whatever
was done to them before, and every step keeps them alike. The first task that is switched
in loads the registers from its own control block; from then on they agree too.
-/
namespace MiniRtos
open TransitionSystem
variable {cfg : Config}

/-- A task function is called. -/
def Observation.dispatches : Observation cfg → Bool
  | .taskCalled _ _ => true
  | _ => false

/-- What is left of an observation without the contents of the live registers. -/
def Observation.withoutRegisters : Observation cfg → Observation cfg
  | .returned (.context _) => .silent
  | o => o

/-- Sees everything, the live registers only after the first dispatch. -/
def afterDispatch (cfg : Config) : Observer (Observation cfg) Bool (Observation cfg) where
  start := false
  next live o := live || o.dispatches
  see live o := if live then o else o.withoutRegisters

theorem afterDispatch_mode (tr : History cfg) :
    (afterDispatch cfg).mode tr = tr.any fun e => e.obs.dispatches := by
  induction tr with
  | nil => rfl
  | cons e tr ih =>
      rw [Observer.mode, ih, List.any_cons, Bool.or_comm]
      rfl

structure Machine.Alike (m m' : Machine cfg) : Prop where
  timer : m'.timer = m.timer
  sched : m.sched.Alike m'.sched
  pool : m.pool.Alike m'.pool
  objects : m.objects.Alike cfg m'.objects

/-- The same moment of two executions; `live` says that there was a dispatch. -/
structure System.Alike (live : Bool) (u u' : System cfg) : Prop where
  phase : u'.phase = u.phase
  machine : u.machine.Alike u'.machine
  registers : live = true → u'.machine.activeContext = u.machine.activeContext

section Calls
variable {m m' : Machine cfg}

/-- One call on two machines that are alike. -/
structure Machine.SameCall (m m' : Machine cfg) (r r' : Value × Machine cfg) : Prop where
  machine : r.2.Alike r'.2
  seen : ∀ live : Bool, (live = true → m'.activeContext = m.activeContext) →
    (afterDispatch cfg).see live (.returned r'.1) = (afterDispatch cfg).see live (.returned r.1)
  registers : m'.activeContext = m.activeContext → r'.2.activeContext = r.2.activeContext

theorem Machine.SameCall.of_value {r r' : Value × Machine cfg} (hvalue : r'.1 = r.1)
    (hmachine : r.2.Alike r'.2)
    (hregisters : m'.activeContext = m.activeContext → r'.2.activeContext = r.2.activeContext) :
    m.SameCall m' r r' := ⟨hmachine, fun _ _ => by rw [hvalue], hregisters⟩

theorem Machine.exec_alike (h : m.Alike m') (c : Call cfg) :
    Option.Rel (m.SameCall m') (m.exec c) (m'.exec c) := by
  cases c with
  | task c =>
      obtain ⟨hvalue, hsched⟩ := c.exec_alike h.sched
      exact .some (.of_value hvalue ⟨h.timer, hsched, h.pool, h.objects⟩ id)
  | sync c =>
      refine rel_map (c.exec_alike h.sched h.objects) fun r r' _ hr => ?_
      exact .of_value hr.value ⟨h.timer, hr.sched, h.pool, hr.objects⟩ id
  | event c =>
      have hr := c.exec_alike h.sched h.objects
      exact .some (.of_value hr.value ⟨h.timer, hr.sched, h.pool, hr.objects⟩ id)
  | timer c =>
      simp only [exec, h.timer]
      exact .some (.of_value rfl ⟨rfl, h.sched, h.pool, h.objects⟩ id)
  | memory c =>
      refine rel_map (c.exec_alike h.pool) fun r r' _ hr => ?_
      exact .of_value hr.1 ⟨h.timer, h.sched, hr.2, h.objects⟩ id
  | context c =>
      cases c with
      | restore source =>
          refine .some (.of_value rfl ⟨h.timer, h.sched, h.pool, h.objects⟩ ?_)
          exact fun _ => rfl
      | active =>
          refine .some ⟨⟨h.timer, h.sched, h.pool, h.objects⟩, ?_, id⟩
          intro live hlive
          cases live with
          | false => rfl
          | true => rw [ContextCall.exec, ContextCall.exec, hlive rfl]

end Calls

/-- Two executions between two steps. Before the first dispatch no task is current. -/
structure RunAlike (live : Bool) (u u' : System cfg) : Prop where
  inv : Inv u
  inv' : Inv u'
  alike : System.Alike live u u'
  noCurrent : live = false → u.machine.sched.currentTaskIndex < 0

section Steps
variable {u u' : System cfg} {live : Bool}

/-- What a step leaves behind, the invariant apart. -/
def NextAlike (live : Bool) (w w' : System cfg) : Prop :=
  System.Alike live w w' ∧ (live = false → w.machine.sched.currentTaskIndex < 0)

theorem matches_quiet {r r' : Observation cfg × System cfg}
    (hobs : (afterDispatch cfg).see live r'.1 = (afterDispatch cfg).see live r.1)
    (hquiet : r.1.dispatches = false) (hquiet' : r'.1.dispatches = false)
    (hnext : NextAlike live r.2 r'.2) : (afterDispatch cfg).Matches NextAlike live r r' := by
  have hmode : (afterDispatch cfg).next live r.1 = live := by simp [afterDispatch, hquiet]
  have hmode' : (afterDispatch cfg).next live r'.1 = live := by simp [afterDispatch, hquiet']
  exact ⟨hobs, hmode'.trans hmode.symm, hmode.symm ▸ hnext⟩

theorem RunAlike.init (h : RunAlike live u u') :
    Option.Rel ((afterDispatch cfg).Matches NextAlike live) (step u .init) (step u' .init) := by
  simp only [step, h.alike.phase]
  split_ifs with hp
  · refine .some (matches_quiet rfl rfl rfl ⟨⟨rfl, ?_, h.alike.registers⟩, ?_⟩)
    · refine ⟨rfl, ⟨rfl, rfl, rfl, fun i hi => absurd hi (Nat.not_lt_zero i)⟩,
        .memoryInit _ _, h.alike.machine.objects⟩
    · exact fun _ => by simp [Machine.rtosInit]
  · exact .none

theorem RunAlike.run (h : RunAlike live u u') (n : ℤ) :
    Option.Rel ((afterDispatch cfg).Matches NextAlike live) (step u (.run n))
      (step u' (.run n)) := by
  simp only [step, h.alike.phase]
  split_ifs
  · exact .some (matches_quiet rfl rfl rfl ⟨⟨rfl, h.alike.machine, h.alike.registers⟩,
      h.noCurrent⟩)
  · exact .none

theorem RunAlike.call (h : RunAlike live u u') (c : Call cfg) :
    Option.Rel ((afterDispatch cfg).Matches NextAlike live) (step u (.call c))
      (step u' (.call c)) := by
  simp only [step, h.alike.phase]
  split_ifs
  · refine rel_map (Machine.exec_alike h.alike.machine c) fun r r' hexec hr => ?_
    refine matches_quiet (hr.seen live h.alike.registers) rfl rfl ⟨⟨rfl, hr.machine, ?_⟩, ?_⟩
    · exact fun hlive => hr.registers (h.alike.registers hlive)
    · intro hlive
      have hsched : r.2.sched = _ := Machine.exec_sched hexec
      rw [hsched, Effect.apply_currentTaskIndex]
      exact h.noCurrent hlive
  · exact .none

theorem RunAlike.ret (h : RunAlike live u u') :
    Option.Rel ((afterDispatch cfg).Matches NextAlike live) (step u .ret) (step u' .ret) := by
  have hm := h.alike.machine
  simp only [step, System.ret, h.alike.phase, hm.timer]
  cases hp : u.phase with
  | callback left i =>
      exact .some (matches_quiet rfl rfl rfl
        ⟨⟨rfl, ⟨rfl, hm.sched, hm.pool, hm.objects⟩, h.alike.registers⟩, h.noCurrent⟩)
  | task left t =>
      have ht := (h.inv.task left t hp).1
      refine .some (matches_quiet rfl rfl rfl ⟨⟨rfl, ?_, h.alike.registers⟩, ?_⟩)
      · exact ⟨rfl, hm.sched.taskReturned ht, hm.pool, hm.objects⟩
      · intro hlive
        rw [Sched.taskReturned_currentTaskIndex]
        exact h.noCurrent hlive
  | _ => exact .none

/-- The decision is the one step whose observation changes the mode. -/
theorem RunAlike.decide (h : RunAlike live u u') {left : ℕ} (hp : u.phase = .decide left) :
    Option.Rel ((afterDispatch cfg).Matches NextAlike live) (step u .advance)
      (step u' .advance) := by
  have hm := h.alike.machine
  have hactive : 0 ≤ u.machine.sched.currentTaskIndex →
      u'.machine.activeContext = u.machine.activeContext := by
    intro hcurrent
    refine h.alike.registers ?_
    by_contra hlive
    have hneg := h.noCurrent (Bool.eq_false_iff.mpr hlive)
    omega
  have hd := hm.sched.schedulerRunDecide h.inv.wellFormed h.inv'.wellFormed hactive
  have hdecides := h.inv.decides hp
  simp only [step, System.advance, h.alike.phase, hp]
  generalize u.machine.sched.schedulerRunDecide u.machine.activeContext = r at hd hdecides ⊢
  generalize u'.machine.sched.schedulerRunDecide u'.machine.activeContext = r' at hd ⊢
  obtain ⟨result, sched, active⟩ := r
  obtain ⟨result', sched', active'⟩ := r'
  obtain ⟨rfl, hsched, hregisters⟩ := hd
  cases result' with
  | none =>
      obtain ⟨-, hidle, -⟩ := hdecides.idles
      refine .some (matches_quiet rfl rfl rfl
        ⟨⟨rfl, ⟨hm.timer, hsched, hm.pool, hm.objects⟩, ?_⟩, ?_⟩)
      · exact fun hlive => hregisters (.inl (h.alike.registers hlive))
      · intro hlive
        simp only [hidle, Sched.resetSlice_currentTaskIndex]
        exact h.noCurrent hlive
  | some chosen =>
      have hmode : (afterDispatch cfg).next live (.taskCalled chosen.1 chosen.2) = true :=
        Bool.or_true live
      refine .some ⟨rfl, rfl, ?_⟩
      simp only [hmode]
      refine ⟨⟨rfl, ⟨hm.timer, hsched, hm.pool, hm.objects⟩, ?_⟩, by simp⟩
      exact fun _ => hregisters (.inr rfl)

theorem RunAlike.advance (h : RunAlike live u u') :
    Option.Rel ((afterDispatch cfg).Matches NextAlike live) (step u .advance)
      (step u' .advance) := by
  have hm := h.alike.machine
  cases hp : u.phase with
  | outside | callback left i | task left t =>
      simp only [step, System.advance, h.alike.phase, hp]
      exact .none
  | cycleTop left =>
      simp only [step, System.advance, h.alike.phase, hp]
      cases left with
      | zero =>
          exact .some (matches_quiet rfl rfl rfl ⟨⟨rfl, hm, h.alike.registers⟩, h.noCurrent⟩)
      | succ left =>
          refine .some (matches_quiet rfl rfl rfl ⟨⟨rfl, ?_, h.alike.registers⟩, ?_⟩)
          · exact ⟨congrArg TimerState.timerTick hm.timer, hm.sched.timerUpdateSleep, hm.pool,
              hm.objects⟩
          · intro hlive
            rw [Sched.timerUpdateSleep_currentTaskIndex]
            exact h.noCurrent hlive
  | softTimer left i =>
      simp only [step, System.advance, h.alike.phase, hp, hm.timer]
      split_ifs
      · exact .some (matches_quiet rfl rfl rfl
          ⟨⟨rfl, ⟨rfl, hm.sched, hm.pool, hm.objects⟩, h.alike.registers⟩, h.noCurrent⟩)
      · exact .some (matches_quiet rfl rfl rfl
          ⟨⟨rfl, ⟨rfl, hm.sched, hm.pool, hm.objects⟩, h.alike.registers⟩, h.noCurrent⟩)
      · exact .some (matches_quiet rfl rfl rfl ⟨⟨rfl, hm, h.alike.registers⟩, h.noCurrent⟩)
  | decide left => exact h.decide hp

theorem unwinds_runAlike : (afterDispatch cfg).Unwinds step RunAlike := by
  intro live u u' a h
  have hnext : Option.Rel ((afterDispatch cfg).Matches NextAlike live) (step u a) (step u' a) := by
    cases a with
    | init => exact h.init
    | run n => exact h.run n
    | call c => exact h.call c
    | ret => exact h.ret
    | advance => exact h.advance
  cases hs : step u a with
  | none =>
      rw [hs] at hnext
      generalize step u' a = next at hnext
      cases hnext
      exact .none
  | some r =>
      rw [hs] at hnext
      generalize hs' : step u' a = next at hnext
      cases hnext with
      | @some _ r' hmatch =>
          obtain ⟨halike, hcurrent⟩ := hmatch.related
          exact .some ⟨hmatch.seen, hmatch.next, h.inv.step hs, h.inv'.step hs', halike, hcurrent⟩

end Steps

theorem Initial.runAlike {s s' : System cfg} (hs : Initial s) (hs' : Initial s')
    (hobjects : s.machine.objects.Alike cfg s'.machine.objects) : RunAlike false s s' := by
  have hinv := hs.inv
  have hinv' := hs'.inv
  obtain ⟨hp, m, hm⟩ := hs
  obtain ⟨hp', m', hm'⟩ := hs'
  refine ⟨hinv, hinv', ⟨hp'.trans hp.symm, ⟨?_, ?_, ?_, hobjects⟩, by simp⟩, ?_⟩
  · rw [hm, hm']
    rfl
  · rw [hm, hm']
    exact ⟨rfl, rfl, rfl, fun i hi => absurd hi (Nat.not_lt_zero i)⟩
  · rw [hm, hm']
    exact .memoryInit _ _
  · intro _
    rw [hm]
    exact (by decide : (-1 : ℤ) < 0)

/-- `rtos_init` leaves nothing of what was before. A program that is run from two states in
which it was just called, with the objects of the application initialised alike, is
executed alike, and every moment of one execution is alike to the same moment of the other. -/
theorem rtosInit_erases_history {s s' v : System cfg} {tr : History cfg} (hs : Initial s)
    (hs' : Initial s') (hobjects : s.machine.objects.Alike cfg s'.machine.objects)
    {program : List (Action cfg × Observation cfg) → Action cfg} (h : Run step s tr v)
    (hprogram : (afterDispatch cfg).Follows program tr) :
    (∃ tr' v', Run step s' tr' v' ∧ (afterDispatch cfg).Follows program tr' ∧
      tr'.length = tr.length) ∧
      ∀ tr' v', Run step s' tr' v' → (afterDispatch cfg).Follows program tr' →
        tr'.length = tr.length →
          (afterDispatch cfg).view tr' = (afterDispatch cfg).view tr ∧
            System.Alike (tr.any fun e => e.obs.dispatches) v v' := by
  obtain ⟨hexists, hall⟩ := unwinds_runAlike.executions (hs.runAlike hs' hobjects) h hprogram
  refine ⟨hexists, fun tr' v' hr' hf' hl' => ?_⟩
  obtain ⟨hview, hrun⟩ := hall tr' v' hr' hf' hl'
  refine ⟨hview, ?_⟩
  rw [← afterDispatch_mode]
  exact hrun.alike

/-- `rtos_init` and the initialisation functions of all objects were called. -/
def Machine.restarted (m : Machine cfg) (counts : ℕ → ℤ) : System cfg :=
  ⟨{ m with objects := m.objects.reinitialise cfg counts }.rtosInit, .outside⟩

theorem Machine.restarted_initial (m : Machine cfg) (counts : ℕ → ℤ) :
    Initial (m.restarted counts) := ⟨rfl, _, rfl⟩

/-- A task fills a queue, takes a block and overwrites it, and waits for a flag. -/
def firstLife : List (Action Config.default) :=
  [.call (.task (.create 3 0x1000#64)), .run 1] ++ cycleActions _ ++
    [.call (.sync (.queueInit 0)), .call (.sync (.queueSend 0 7)), .call (.memory .alloc),
      .call (.memory (.write 0 0 0xFF#8)), .call (.event (.wait (some 0) 1#32)), .ret, .advance]

/-- Another task asks for a value and a block and reads the registers. -/
def secondLife : List (Action Config.default) :=
  [.call (.task (.create 5 0x2000#64)), .call (.context .active), .run 1] ++ cycleActions _ ++
    [.call (.context .active), .call (.memory .alloc), .call (.sync (.queueReceive 0)), .ret]

theorem rtosInit_erases_history_secondLife :
    let m := (System.after _ firstLife).2.machine
    let s := (Machine.powerOn .default).restarted 0
    let s' := m.restarted 0
    let r := played step s secondLife
    (s'.machine.sched.taskList 0).priority = 3 ∧ (s'.machine.objects.queues 0).buffer 0 = 7 ∧
      s'.machine.activeContext.pc = 0x1000#32 ∧ r.2.machine.activeContext.pc = 0x2000#32 ∧
        ∀ tr' v', Run step s' tr' v' →
          (afterDispatch _).Follows (fun seen => secondLife.getD seen.length .advance) tr' →
          tr'.length = r.1.length →
            (afterDispatch _).view tr' = (afterDispatch _).view r.1 ∧
              System.Alike (r.1.any fun e => e.obs.dispatches) r.2 v' := by
  refine ⟨by decide +kernel, by decide +kernel, by decide +kernel, by decide +kernel, ?_⟩
  exact (rtosInit_erases_history (Machine.restarted_initial _ _) (Machine.restarted_initial _ _)
    (.reinitialise _ _ _) (run_played _ secondLife) (by decide +kernel)).2

end MiniRtos
