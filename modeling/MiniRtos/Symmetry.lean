import MiniRtos.TransitionSystem

/-!
# Symmetries of a transition system

A symmetry relabels states, actions and observations so that a step from a relabelled
state is the relabelled step. It takes whole programs with it: the relabelled program is
accepted exactly when the program is, and its history is the relabelled history.
-/
namespace MiniRtos.TransitionSystem
variable {σ α ω : Type*}

/-- A relabelling under which the admitted steps of a system look the same. -/
structure Symmetry (step : σ → α → Option (ω × σ)) (Ok : α → Prop) where
  state : σ → σ
  act : α → α
  obs : α → ω → ω
  step_eq : ∀ s a, Ok a →
    step (state s) (act a) = (step s a).map fun r => (obs a r.1, state r.2)

namespace Symmetry
variable {step : σ → α → Option (ω × σ)} {Ok : α → Prop} (φ : Symmetry step Ok)

def edge (e : Edge σ α ω) : Edge σ α ω :=
  ⟨φ.state e.src, φ.act e.act, φ.obs e.act e.obs, φ.state e.dst⟩

theorem play_eq (s : σ) {as : List α} (hok : ∀ a ∈ as, Ok a) (tr : History σ α ω) :
    play step (φ.state s) (as.map φ.act) (tr.map φ.edge) =
      (play step s as tr).map fun r => (r.1.map φ.edge, φ.state r.2) := by
  induction as generalizing s tr with
  | nil => rfl
  | cons a as ih =>
      simp only [List.map_cons, play, φ.step_eq s a (hok a (by simp))]
      cases hs : step s a with
      | none => rfl
      | some r => exact ih r.2 (fun b hb => hok b (by simp [hb])) (⟨s, a, r.1, r.2⟩ :: tr)

end Symmetry

end MiniRtos.TransitionSystem
