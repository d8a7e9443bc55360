import Mathlib.Tactic.Common

/-!
# Loops

A loop is a partial function on the variables it works on: one pass, or nothing once
the guard fails. What a loop leaves behind is a relation, so that termination is
something to prove: an invariant that every pass keeps and a measure that every pass
lowers give a state in which the loop stops.
-/
namespace MiniRtos.WhileLoop
variable {σ : Type*} {pass : σ → Option σ}

/-- The loop entered at the first state stops, at the second. -/
inductive Leaves (pass : σ → Option σ) : σ → σ → Prop
  | done {x : σ} : pass x = none → Leaves pass x x
  | next {x y z : σ} : pass x = some y → Leaves pass y z → Leaves pass x z

theorem Leaves.deterministic {x y z : σ} (hy : Leaves pass x y) (hz : Leaves pass x z) :
    y = z := by
  induction hy with
  | done hx =>
      cases hz with
      | done => rfl
      | next hs => simp [hx] at hs
  | next hx _ ih =>
      cases hz with
      | done hs => simp [hx] at hs
      | next hs hz =>
          obtain rfl := Option.some.inj (hx.symm.trans hs)
          exact ih hz

/-- Total correctness: the loop stops, with the invariant true and the guard false. -/
theorem exists_leaves {P : σ → Prop} (μ : σ → ℕ)
    (hpass : ∀ x y, P x → pass x = some y → P y ∧ μ y < μ x) {x : σ} (hx : P x) :
    ∃ z, Leaves pass x z ∧ P z ∧ pass z = none := by
  induction hn : μ x using Nat.strongRecOn generalizing x with
  | _ n ih =>
      cases hp : pass x with
      | none => exact ⟨x, .done hp, hx, hp⟩
      | some y =>
          obtain ⟨hy, hlt⟩ := hpass x y hx hp
          obtain ⟨z, hl, hz, hg⟩ := ih (μ y) (hn ▸ hlt) hy rfl
          exact ⟨z, .next hp hl, hz, hg⟩

end MiniRtos.WhileLoop
