import Mathlib.Tactic.Common

/-!
# Scripts and their preconditions

A script is a program that puts questions to its surroundings and goes on with the
answers. The surroundings are a state and a partial function that answers a question and
moves the state. `wp` is the condition on the state under which every question finds an
answer and the script ends in the postcondition, so it is about total correctness.
-/
namespace MiniRtos

inductive Script (κ ν ρ : Type) where
  | done (r : ρ)
  | ask (q : κ) (next : ν → Script κ ν ρ)

namespace Script
variable {κ ν ρ ρ' μ : Type}

def bind (p : Script κ ν ρ) (f : ρ → Script κ ν ρ') : Script κ ν ρ' :=
  match p with
  | done r => f r
  | ask q next => ask q fun v => (next v).bind f

instance : Monad (Script κ ν) where
  pure := done
  bind := bind

/-- The script that asks one question and returns what it reads off the answer. -/
def query (q : κ) (read : ν → ρ) : Script κ ν ρ := ask q fun v => done (read v)

variable (answer : κ → μ → Option (ν × μ))

def wp : Script κ ν ρ → (ρ → μ → Prop) → μ → Prop
  | done r, Q, m => Q r m
  | ask q next, Q, m => ∃ v m', answer q m = some (v, m') ∧ (next v).wp Q m'

variable {answer}

theorem wp_bind {p : Script κ ν ρ} {f : ρ → Script κ ν ρ'} {Q : ρ' → μ → Prop} {m : μ}
    (h : p.wp answer (fun r m' => (f r).wp answer Q m') m) : wp answer (p >>= f) Q m := by
  change wp answer (p.bind f) Q m
  induction p generalizing m with
  | done r => exact h
  | ask q next ih =>
      obtain ⟨v, m', hv, hnext⟩ := h
      exact ⟨v, m', hv, ih v hnext⟩

/-- The rule for one question followed by the rest of the script. -/
theorem wp_query {q : κ} {read : ν → ρ} {f : ρ → Script κ ν ρ'} {Q : ρ' → μ → Prop} {v : ν}
    {m m' : μ} (hv : answer q m = some (v, m')) (h : (f (read v)).wp answer Q m') :
    wp answer (query q read >>= f) Q m :=
  wp_bind ⟨v, m', hv, h⟩

end Script

end MiniRtos
