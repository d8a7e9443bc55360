import MiniRtos.TransitionSystem
import Mathlib.Data.Option.Basic

/-!
# Two executions of one program

A program chooses its next action by what it has seen so far. What an observer makes of an
observation may depend on a mode, which the earlier observations determine. If a relation
on states is such that related states accept the same actions, show the observer the same
and stay related, then a program that is started in two related states is executed alike.
-/
namespace MiniRtos.TransitionSystem
variable {σ α ω μ υ : Type*}

section Options
variable {β γ δ : Type*} {r : α → β → Prop}

/-- Two computations that go wrong together, before and after more is done with them. -/
theorem rel_map {q : γ → δ → Prop} {x : Option α} {y : Option β} {f : α → γ} {g : β → δ}
    (h : Option.Rel r x y) (hfg : ∀ a b, x = some a → r a b → q (f a) (g b)) :
    Option.Rel q (x.map f) (y.map g) := by
  cases h with
  | none => exact .none
  | some hab => exact .some (hfg _ _ rfl hab)

theorem rel_map_map {ε ζ : Type*} {q : ε → ζ → Prop} {x : Option α} {f : α → γ} {f' : γ → ε}
    {g : α → δ} {g' : δ → ζ} (h : ∀ a, x = some a → q (f' (f a)) (g' (g a))) :
    Option.Rel q ((x.map f).map f') ((x.map g).map g') := by
  cases x with
  | none => exact .none
  | some a => exact .some (h a rfl)

end Options

/-- What an observer makes of an observation, and how it changes its mode. -/
structure Observer (ω μ υ : Type*) where
  start : μ
  next : μ → ω → μ
  see : μ → ω → υ

namespace Observer
variable (obs : Observer ω μ υ)

/-- The mode after a history. -/
def mode : History σ α ω → μ
  | [] => obs.start
  | e :: tr => obs.next (mode tr) e.obs

/-- The actions of a history with what was seen of them, the newest one first. -/
def view : History σ α ω → List (α × υ)
  | [] => []
  | e :: tr => (e.act, obs.see (obs.mode tr) e.obs) :: view tr

theorem view_length (tr : History σ α ω) : (obs.view tr).length = tr.length := by
  induction tr with
  | nil => rfl
  | cons e tr ih => rw [view, List.length_cons, List.length_cons, ih]

/-- Every action of the history is the one the program chooses. -/
def Follows (program : List (α × υ) → α) (tr : History σ α ω) : Prop :=
  Disciplined (fun e earlier => e.act = program (obs.view earlier)) tr

instance [DecidableEq α] (program : List (α × υ) → α) (tr : History σ α ω) :
    Decidable (obs.Follows program tr) := Disciplined.decidable _ tr

variable {obs}

theorem Follows.of_view_eq {program : List (α × υ) → α} {tr tr' : History σ α ω}
    (h : obs.Follows program tr) (hv : obs.view tr' = obs.view tr) :
    obs.Follows program tr' := by
  induction tr generalizing tr' with
  | nil =>
      cases tr' with
      | nil => trivial
      | cons e' tr' => cases hv
  | cons e tr ih =>
      cases tr' with
      | nil => cases hv
      | cons e' tr' =>
          obtain ⟨hlast, hbefore⟩ := List.cons.inj hv
          refine ⟨?_, ih h.2 hbefore⟩
          calc e'.act = e.act := congrArg Prod.fst hlast
            _ = program (obs.view tr) := h.1
            _ = program (obs.view tr') := by rw [hbefore]

/-- The steps of related states, as the observer sees them. -/
structure Matches (obs : Observer ω μ υ) (R : μ → σ → σ → Prop) (m : μ) (r r' : ω × σ) :
    Prop where
  seen : obs.see m r'.1 = obs.see m r.1
  next : obs.next m r'.1 = obs.next m r.1
  related : R (obs.next m r.1) r.2 r'.2

/-- Related states accept the same actions, with steps that match. -/
def Unwinds (obs : Observer ω μ υ) (step : σ → α → Option (ω × σ)) (R : μ → σ → σ → Prop) :
    Prop :=
  ∀ m u u' a, R m u u' → Option.Rel (obs.Matches R m) (step u a) (step u' a)

section Executions
variable {step : σ → α → Option (ω × σ)} {R : μ → σ → σ → Prop} {s s' v v' : σ}
  {tr tr' : History σ α ω}

theorem Unwinds.run (h : obs.Unwinds step R) (hs : R obs.start s s') (hr : Run step s tr v) :
    ∃ tr' v', Run step s' tr' v' ∧ obs.view tr' = obs.view tr ∧
      obs.mode tr' = obs.mode tr ∧ R (obs.mode tr) v v' := by
  induction hr with
  | nil => exact ⟨[], s', .nil, rfl, rfl, hs⟩
  | @snoc u v tr a o _ hstep ih =>
      obtain ⟨tr', u', hr', hview, hmode, hrel⟩ := ih
      have hboth := h _ _ _ a hrel
      rw [hstep] at hboth
      generalize hstep' : step u' a = next at hboth
      cases hboth with
      | @some _ r' hmatch =>
          obtain ⟨o', v'⟩ := r'
          refine ⟨⟨u', a, o', v'⟩ :: tr', v', .snoc hr' hstep', ?_, ?_, hmatch.related⟩
          · rw [view, view, hview, hmode, hmatch.seen]
          · rw [mode, mode, hmode, hmatch.next]

/-- A program has one execution of each length. -/
theorem Follows.unique {program : List (α × υ) → α} (h : obs.Follows program tr)
    (h' : obs.Follows program tr') (hr : Run step s tr v) (hr' : Run step s tr' v')
    (hlength : tr'.length = tr.length) : tr' = tr ∧ v' = v := by
  induction hr generalizing tr' v' with
  | nil =>
      obtain rfl := List.length_eq_zero_iff.mp hlength
      cases hr' with
      | nil => exact ⟨rfl, rfl⟩
  | snoc hr hstep ih =>
      cases hr' with
      | nil => cases hlength
      | snoc hr' hstep' =>
          obtain ⟨rfl, rfl⟩ := ih h.2 h'.2 hr' (Nat.succ.inj hlength)
          have hact := h'.1.trans h.1.symm
          simp only at hact
          subst hact
          obtain ⟨rfl, rfl⟩ := Prod.mk.inj (Option.some.inj (hstep'.symm.trans hstep))
          exact ⟨rfl, rfl⟩

/-- From related states a program has matching executions. -/
theorem Unwinds.executions (h : obs.Unwinds step R) (hs : R obs.start s s')
    {program : List (α × υ) → α} (hr : Run step s tr v) (hf : obs.Follows program tr) :
    (∃ tr' v', Run step s' tr' v' ∧ obs.Follows program tr' ∧ tr'.length = tr.length) ∧
      ∀ tr' v', Run step s' tr' v' → obs.Follows program tr' → tr'.length = tr.length →
        obs.view tr' = obs.view tr ∧ R (obs.mode tr) v v' := by
  obtain ⟨tr₁, v₁, hr₁, hview, -, hrel⟩ := h.run hs hr
  have hf₁ := hf.of_view_eq hview
  have hlength : tr₁.length = tr.length := by
    rw [← obs.view_length, hview, obs.view_length]
  refine ⟨⟨tr₁, v₁, hr₁, hf₁, hlength⟩, ?_⟩
  intro tr' v' hr' hf' hl'
  obtain ⟨rfl, rfl⟩ := hf₁.unique hf' hr₁ hr' (hl'.trans hlength.symm)
  exact ⟨hview, hrel⟩

end Executions

end Observer

end MiniRtos.TransitionSystem
