import MiniRtos.RunLength
import MiniRtos.Script

/-!
# Applications

An application is a main program, a script behind each address that the kernel can call,
and static variables. `next` executes it on the kernel: the main program is a sequence of
statements, the script of a task function or callback is executed one request at a time
while the kernel waits for it, and otherwise the kernel goes on by itself, so that there
is at most one next state. A call or an `int` expression without defined behaviour has none.
Every step but a print or an expression is a step of the kernel's system.

The proof rule is for `rtos_run`: a property of the states in which the kernel is between
two pieces of application code is kept if each script restores it, and then the call
returns.
-/
namespace MiniRtos
open TransitionSystem
variable {cfg : Config} {χ ℓ : Type}

/-- What a task function or a callback asks for: a call of the kernel, `uart_log`, or the
value `v` of an `int` expression of its own. -/
inductive Request (cfg : Config) (ℓ : Type) where
  | call (c : Call cfg)
  | log (line : ℓ)
  | int (v : ℤ)

/-- A statement of the main program. -/
inductive Statement (cfg : Config) (ℓ : Type) where
  | kernel (a : Action cfg)
  | log (line : ℓ)

/-- What is printed. Of the kernel's own lines there is one for each decision of a cycle
and one for each callback. -/
inductive Printed (cfg : Config) (ℓ : Type) where
  | idle
  | ran (b : Sched.Branch) (t : ℕ)
  | expired (i : Fin cfg.rtosSoftTimerCount)
  | line (l : ℓ)
deriving DecidableEq

/-- The newest line first. -/
abbrev Console (cfg : Config) (ℓ : Type) := List (Printed cfg ℓ)

def report : Observation cfg → Console cfg ℓ
  | .idle => [.idle]
  | .taskCalled b t => [.ran b t]
  | .callbackCalled i _ _ => [.expired i]
  | _ => []

abbrev Body (cfg : Config) (ℓ χ : Type) := Script (Request cfg ℓ) Value χ

/-- The code at an address reads the static variables and returns their new values. -/
structure Application (cfg : Config) (χ ℓ : Type) where
  main : List (Statement cfg ℓ)
  taskFunction : BitVec 64 → Option (χ → Body cfg ℓ χ)
  callback : BitVec 64 → BitVec 64 → Option (χ → Body cfg ℓ χ)

structure Execution (cfg : Config) (χ ℓ : Type) where
  system : System cfg
  vars : χ
  console : Console cfg ℓ
  /-- The statements of the main program still to come. -/
  main : List (Statement cfg ℓ)
  /-- What is left of the task function or callback that is executing. -/
  script : Body cfg ℓ χ

/-- How requests are answered while the kernel waits. -/
def answer : Request cfg ℓ → Machine cfg × Console cfg ℓ →
    Option (Value × Machine cfg × Console cfg ℓ)
  | .call c, (m, con) => (m.exec c).map fun r => (r.1, r.2, con)
  | .log l, (m, con) => some (.void, m, .line l :: con)
  -- signed overflow
  | .int v, (m, con) => if IsInt v then some (.int v, m, con) else none

/-- The kernel waits for a task function or a callback. -/
def Phase.waits : Phase cfg → Bool
  | .task _ _ | .callback _ _ => true
  | _ => false

/-- The state when the code that is waited for returns. -/
def System.afterReturn (u : System cfg) : System cfg :=
  match u.ret with
  | some r => r.2
  | none => u

theorem step_ret {u : System cfg} (h : u.phase.waits = true) :
    step u .ret = some (.silent, u.afterReturn) := by
  obtain ⟨m, phase⟩ := u
  cases phase with
  | task left t | callback left i => rfl
  | _ => cases h

theorem afterReturn_waits {u : System cfg} (h : u.phase.waits = true) :
    u.afterReturn.phase.waits = false := by
  obtain ⟨m, phase⟩ := u
  cases phase with
  | task left t | callback left i => rfl
  | _ => cases h

theorem afterReturn_rank {u : System cfg} (h : u.phase.waits = true) :
    u.afterReturn.phase.rank < u.phase.rank := by
  have hp : u.phase ≠ .outside := by
    intro ho
    simp [ho, Phase.waits] at h
  have hrank := (step_cases (step_ret h)).rank hp
  rwa [isProgress_ret, if_pos rfl] at hrank

namespace Application
variable (app : Application cfg χ ℓ)

/-- The script that the kernel's step enters; one that returns at once if it enters none. -/
def entered (x : χ) (r : Observation cfg × System cfg) : Option (Body cfg ℓ χ) :=
  match r.1 with
  | .taskCalled _ t =>
      (app.taskFunction (r.2.machine.sched.taskList t).taskFunction).map (· x)
  | .callbackCalled _ f a => (app.callback f a).map (· x)
  | _ => some (.done x)

/-- One statement of the main program. -/
def nextMain (u : Execution cfg χ ℓ) :
    Option (Option (Action cfg × Observation cfg) × Execution cfg χ ℓ) :=
  match u.main with
  | [] => none
  | .log l :: rest => some (none, { u with console := .line l :: u.console, main := rest })
  | .kernel a :: rest =>
      (MiniRtos.step u.system a).map fun r =>
        (some (a, r.1), { u with system := r.2, main := rest })

/-- One request of the script, or its return. -/
def nextRequest (u : Execution cfg χ ℓ) :
    Option (Option (Action cfg × Observation cfg) × Execution cfg χ ℓ) :=
  match u.script with
  | .done x =>
      (MiniRtos.step u.system .ret).map fun r =>
        (some (.ret, r.1), { u with system := r.2, vars := x })
  | .ask (.log l) rest =>
      some (none, { u with console := .line l :: u.console, script := rest .void })
  | .ask (.call c) rest =>
      (u.system.machine.exec c).map fun r =>
        (some (.call c, .returned r.1),
          { u with system := ⟨r.2, u.system.phase⟩, script := rest r.1 })
  | .ask (.int v) rest =>
      if IsInt v then some (none, { u with script := rest (.int v) }) else none

/-- One stretch of the kernel. -/
def nextKernel (u : Execution cfg χ ℓ) :
    Option (Option (Action cfg × Observation cfg) × Execution cfg χ ℓ) :=
  (MiniRtos.step u.system .advance).bind fun r =>
    (app.entered u.vars r).map fun p =>
      (some (.advance, r.1),
        { u with system := r.2, console := report r.1 ++ u.console, script := p })

def next (u : Execution cfg χ ℓ) (_ : Unit) :
    Option (Option (Action cfg × Observation cfg) × Execution cfg χ ℓ) :=
  match u.system.phase with
  | .outside => nextMain u
  | .task _ _ | .callback _ _ => nextRequest u
  | _ => app.nextKernel u

/-- The application on a machine in any state, before its first statement. -/
def start (m : Machine cfg) (x : χ) : Execution cfg χ ℓ :=
  ⟨⟨m, .outside⟩, x, [], app.main, .done x⟩

/-- The kernel is between two pieces of application code and `P` holds, or it waits for
one that will find every answer it needs and restore `P` when it returns. -/
def Within (P : System cfg → χ → Console cfg ℓ → Prop) (u : Execution cfg χ ℓ) : Prop :=
  if u.system.phase.waits then
    u.script.wp answer (fun x r => P (System.afterReturn ⟨r.1, u.system.phase⟩) x r.2)
      (u.system.machine, u.console)
  else P u.system u.vars u.console

/-- Each stretch of the kernel keeps `P` or enters code that will restore it. -/
def Keeps (P : System cfg → χ → Console cfg ℓ → Prop) : Prop :=
  ∀ (u w : System cfg) (x : χ) (con : Console cfg ℓ) (o : Observation cfg),
    P u x con → MiniRtos.step u .advance = some (o, w) →
      ∃ p, app.entered x (o, w) = some p ∧ Within P ⟨w, x, report o ++ con, [], p⟩

variable {app} {P : System cfg → χ → Console cfg ℓ → Prop} {u v : Execution cfg χ ℓ}

theorem Within.of_outside (h : Within P u) (hp : u.system.phase = .outside) :
    P u.system u.vars u.console := by
  simpa [Within, hp, Phase.waits] using h

/-- The kernel does not get stuck, nor does it call an address without code. -/
theorem Keeps.nextKernel (h : app.Keeps P) (hu : Within P u) (hp : u.system.phase ≠ .outside)
    (hw : u.system.phase.waits = false) :
    ∃ o v, app.next u () = some (o, v) ∧ Within P v ∧ v.main = u.main ∧
      v.system.phase.rank < u.system.phase.rank := by
  obtain ⟨system, x, con, main, script⟩ := u
  have hnext : app.next ⟨system, x, con, main, script⟩ () =
      app.nextKernel ⟨system, x, con, main, script⟩ := by
    simp only [next]
    split <;> simp_all [Phase.waits]
  have hP : P system x con := by simpa [Within, hw] using hu
  have happ : system.phase.application = false := by
    cases hs : system.phase <;> simp_all [Phase.waits, Phase.application]
  have hsome := system.exists_progress hp
  simp only [happ, Bool.false_eq_true, if_false] at hsome
  obtain ⟨⟨o, w⟩, hs⟩ := Option.isSome_iff_exists.mp hsome
  obtain ⟨p, hp', hw'⟩ := h system w x con o hP hs
  have hrank := (step_cases hs).rank hp
  refine ⟨some (.advance, o), ⟨w, x, report o ++ con, main, p⟩, ?_, hw', rfl, ?_⟩
  · rw [hnext]
    simp [Application.nextKernel, hs, hp']
  · rwa [isProgress_advance, if_pos rfl] at hrank

theorem next_of_waits (app : Application cfg χ ℓ) (hw : u.system.phase.waits = true) :
    app.next u () = nextRequest u := by
  simp only [next]
  split <;> simp_all [Phase.waits]

variable (app) in
/-- Code that will restore `P` returns, or gets an answer and goes on. -/
theorem Within.nextRequest (hu : Within P u) (hw : u.system.phase.waits = true) :
    ∃ o v, app.next u () = some (o, v) ∧ Within P v ∧ v.main = u.main ∧
      (v.system.phase.rank < u.system.phase.rank ∨
        v.system.phase = u.system.phase ∧
          ∃ q rest y, u.script = .ask q rest ∧ v.script = rest y) := by
  rw [next_of_waits app hw]
  obtain ⟨⟨m, phase⟩, x, con, main, script⟩ := u
  change phase.waits = true at hw
  simp only [Within, hw, if_true] at hu
  cases script with
  | done y =>
      have hret := step_ret (u := ⟨m, phase⟩) hw
      have hout := afterReturn_waits (u := ⟨m, phase⟩) hw
      have hrank := afterReturn_rank (u := ⟨m, phase⟩) hw
      refine ⟨some (.ret, .silent), ⟨System.afterReturn ⟨m, phase⟩, y, con, main, .done y⟩, ?_,
        ?_, rfl, .inl hrank⟩
      · simp only [Application.nextRequest, hret, Option.map_some]
      · simp only [Within, hout, Bool.false_eq_true, if_false]
        exact hu
  | ask q rest =>
      obtain ⟨v, r, hv, hrest⟩ := hu
      cases q with
      | log l =>
          obtain ⟨rfl, rfl⟩ := Prod.mk.inj (Option.some.inj hv)
          exact ⟨none, ⟨⟨m, phase⟩, x, .line l :: con, main, rest .void⟩, rfl,
            by simpa [Within, hw] using hrest, rfl, .inr ⟨rfl, _, _, _, rfl, rfl⟩⟩
      | call c =>
          obtain ⟨⟨v', m'⟩, hexec, he⟩ := Option.map_eq_some_iff.mp hv
          obtain ⟨rfl, rfl⟩ := Prod.mk.inj he
          refine ⟨some (.call c, .returned v'), ⟨⟨m', phase⟩, x, con, main, rest v'⟩, ?_,
            by simpa [Within, hw] using hrest, rfl, .inr ⟨rfl, _, _, _, rfl, rfl⟩⟩
          simp only [Application.nextRequest, hexec, Option.map_some]
      | int n =>
          simp only [answer] at hv
          split_ifs at hv with hint
          obtain ⟨rfl, rfl⟩ := Prod.mk.inj (Option.some.inj hv)
          exact ⟨none, ⟨⟨m, phase⟩, x, con, main, rest (.int n)⟩, if_pos hint,
            by simpa [Within, hw] using hrest, rfl, .inr ⟨rfl, _, _, _, rfl, rfl⟩⟩

/-- What a step of an execution is for the kernel: one of its own steps, or none. -/
def Moves (u : System cfg) : Option (Action cfg × Observation cfg) → System cfg → Prop
  | none, v => v = u
  | some (a, b), v => MiniRtos.step u a = some (b, v)

theorem nextMain_moves {o : Option (Action cfg × Observation cfg)}
    (h : nextMain u = some (o, v)) : Moves u.system o v.system := by
  unfold nextMain at h
  split at h
  · cases h
  · cases h
    rfl
  · obtain ⟨r, hr, he⟩ := Option.map_eq_some_iff.mp h
    cases he
    exact hr

theorem nextRequest_moves {o : Option (Action cfg × Observation cfg)}
    (hw : u.system.phase.waits = true) (h : Application.nextRequest u = some (o, v)) :
    Moves u.system o v.system := by
  have happ : u.system.phase.application = true := by
    cases hp : u.system.phase <;> simp_all [Phase.waits, Phase.application]
  unfold Application.nextRequest at h
  split at h
  · obtain ⟨r, hr, he⟩ := Option.map_eq_some_iff.mp h
    cases he
    exact hr
  · cases h
    rfl
  · obtain ⟨r, hr, he⟩ := Option.map_eq_some_iff.mp h
    cases he
    simp [Moves, MiniRtos.step, happ, hr]
  · split_ifs at h
    cases h
    rfl

theorem nextKernel_moves {o : Option (Action cfg × Observation cfg)}
    (h : app.nextKernel u = some (o, v)) : Moves u.system o v.system := by
  obtain ⟨r, hr, h⟩ := Option.bind_eq_some_iff.mp h
  obtain ⟨p, -, he⟩ := Option.map_eq_some_iff.mp h
  cases he
  exact hr

theorem next_moves {o : Option (Action cfg × Observation cfg)} (h : app.next u () = some (o, v)) :
    Moves u.system o v.system := by
  cases hw : u.system.phase.waits with
  | true => exact nextRequest_moves hw (app.next_of_waits hw ▸ h)
  | false =>
      simp only [Application.next] at h
      split at h
      · exact nextMain_moves h
      · simp_all [Phase.waits]
      · simp_all [Phase.waits]
      · exact nextKernel_moves h

/-- An execution of the application is a run of the kernel's system. -/
theorem run_system {tr : TransitionSystem.History _ _ _} (h : Run app.next u tr v) :
    ∃ tr', Run MiniRtos.step u.system tr' v.system ∧
      trace tr' = tr.filterMap (·.obs) := by
  induction h with
  | nil => exact ⟨[], .nil, rfl⟩
  | @snoc v w tr a o _ hs ih =>
      obtain ⟨tr', hr, htrace⟩ := ih
      have hmoves := next_moves hs
      cases o with
      | none =>
          refine ⟨tr', ?_, by simpa using htrace⟩
          rw [show w.system = v.system from hmoves]
          exact hr
      | some r => exact ⟨_, hr.snoc hmoves, by simp [trace, ← htrace]⟩

/-- Application code that will restore `P` comes to its end. -/
theorem Within.finish (hu : Within P u) (hw : u.system.phase.waits = true) :
    ∃ tr v, Run app.next u tr v ∧ Within P v ∧ v.main = u.main ∧
      v.system.phase.rank < u.system.phase.rank := by
  generalize hp : u.script = p
  induction p generalizing u with
  | done y =>
      obtain ⟨o, v, hs, hv, hmain, hlt | ⟨-, q, rest, -, hask, -⟩⟩ := hu.nextRequest app hw
      · exact ⟨_, v, .snoc .nil hs, hv, hmain, hlt⟩
      · cases hp.symm.trans hask
  | ask q rest ih =>
      obtain ⟨o, v, hs, hv, hmain, hlt | ⟨hphase, q', rest', y, hask, hscript⟩⟩ :=
        hu.nextRequest app hw
      · exact ⟨_, v, .snoc .nil hs, hv, hmain, hlt⟩
      · obtain ⟨rfl, rfl⟩ := Script.ask.inj (hp.symm.trans hask)
        obtain ⟨tr, v', hr, hv', hmain', hlt⟩ := ih y hv (hphase ▸ hw) hscript
        exact ⟨_, v', (Run.snoc .nil hs).append hr, hv', hmain'.trans hmain, hphase ▸ hlt⟩

/-- The rule for a step inside `rtos_run`. -/
theorem Keeps.next (h : app.Keeps P) (hu : Within P u) (hp : u.system.phase ≠ .outside) :
    ∃ o v, app.next u () = some (o, v) ∧ Within P v ∧ v.main = u.main := by
  cases hw : u.system.phase.waits with
  | true =>
      obtain ⟨o, v, hs, hv, hmain, -⟩ := hu.nextRequest app hw
      exact ⟨o, v, hs, hv, hmain⟩
  | false =>
      obtain ⟨o, v, hs, hv, hmain, -⟩ := h.nextKernel hu hp hw
      exact ⟨o, v, hs, hv, hmain⟩

/-- The rule for `rtos_run`: it returns, and `P` holds when it does. -/
theorem Keeps.returns (h : app.Keeps P) (hu : Within P u) :
    ∃ tr v, Run app.next u tr v ∧ v.system.phase = .outside ∧
      P v.system v.vars v.console ∧ v.main = u.main := by
  generalize hn : u.system.phase.rank = n
  induction n using Nat.strong_induction_on generalizing u with
  | _ n ih =>
      by_cases hp : u.system.phase = .outside
      · exact ⟨[], u, .nil, hp, hu.of_outside hp, rfl⟩
      have hprogress : ∃ tr v, Run app.next u tr v ∧ Within P v ∧ v.main = u.main ∧
          v.system.phase.rank < u.system.phase.rank := by
        cases hw : u.system.phase.waits with
        | true => exact hu.finish hw
        | false =>
            obtain ⟨o, v, hs, hv, hmain, hlt⟩ := h.nextKernel hu hp hw
            exact ⟨_, v, .snoc .nil hs, hv, hmain, hlt⟩
      obtain ⟨tr, v, hr, hv, hmain, hlt⟩ := hprogress
      obtain ⟨tr', w, hr', hout, hw, hmain'⟩ := ih _ (hn ▸ hlt) hv rfl
      exact ⟨_, w, hr.append hr', hout, hw, hmain'.trans hmain⟩

/-- The rule for the last call of `rtos_run` of a main program. -/
theorem Keeps.run (h : app.Keeps P) (hu : Within P u) (hmain : u.main = [])
    {tr : TransitionSystem.History _ _ _} (hr : Run app.next u tr v) :
    Within P v ∧ v.main = [] := by
  refine hr.invariant (P := fun v => Within P v ∧ v.main = []) ⟨hu, hmain⟩ ?_
  intro v a o w hv hs
  obtain ⟨hv, hmain⟩ := hv
  by_cases hp : v.system.phase = .outside
  · simp [Application.next, hp, nextMain, hmain] at hs
  · obtain ⟨o', w', hs', hw, hmain'⟩ := h.next hv hp
    obtain ⟨rfl, rfl⟩ := Prod.mk.inj (Option.some.inj (hs.symm.trans hs'))
    exact ⟨hw, hmain'.trans hmain⟩

/-- The rule for a main program that ends with a call of `rtos_run`. -/
theorem Keeps.completes {s s₁ : Execution cfg χ ℓ} {setup tr : TransitionSystem.History _ _ _}
    (h : app.Keeps P) (hsetup : Run app.next s setup s₁) (hs₁ : Within P s₁)
    (hmain : s₁.main = []) (hbefore : ∀ e ∈ setup, e.src.main ≠ [])
    (hr : Run app.next s tr u) :
    (∃ tr' v, Run app.next u tr' v ∧ v.main = [] ∧ v.system.phase = .outside ∧
      P v.system v.vars v.console) ∧ (u.main = [] → Within P u) := by
  obtain ⟨tr', v, hrun, hout, hP, hv⟩ := h.returns hs₁
  rcases hr.comparable (fun _ _ _ _ _ => rfl) hsetup with ⟨rest, hrest, he⟩ | ⟨rest, hrest, -⟩
  · refine ⟨⟨_, v, hrest.append hrun, hv.trans hmain, hout, hP⟩, fun hu => ?_⟩
    rcases List.eq_nil_or_concat' rest with rfl | ⟨rest, e, rfl⟩
    · cases hrest
      exact hs₁
    · obtain ⟨hsrc, -, -⟩ := hrest.split rfl
      have hne := hbefore e (by simp [he])
      generalize e.src = w at hsrc hne
      cases hsrc
      exact absurd hu hne
  · obtain ⟨hu, hmain'⟩ := h.run hs₁ hmain hrest
    obtain ⟨tr', v, hrun, hout, hP, hv⟩ := h.returns hu
    exact ⟨⟨tr', v, hrun, hv.trans hmain', hout, hP⟩, fun _ => hu⟩

end Application

end MiniRtos
