import Mathlib.Data.List.Range
import Mathlib.Data.Option.Basic
import Mathlib.Logic.Function.Basic
import Mathlib.Tactic.Common

/-!
# Arrays with checked accesses

An array of `n` entries under an `int` index. A load or a store outside the array has no
result, and a computation has none as soon as one of its accesses has none. The loops over
such arrays count upwards; a rule for each says what the loop computes when all of its
passes have a result, which is the proof that its accesses are within bounds.
-/
namespace MiniRtos.CheckedArray
variable {α σ : Type*}

section Accesses
variable (n : ℕ) (a : ℕ → α)

def load (i : ℤ) : Option α := if 0 ≤ i ∧ i < n then some (a i.toNat) else none

def store (i : ℤ) (x : α) : Option (ℕ → α) :=
  if 0 ≤ i ∧ i < n then some (Function.update a i.toNat x) else none

variable {n}

theorem load_of_lt {i : ℕ} (h : i < n) : load n a i = some (a i) := by
  rw [load, if_pos (by omega), Int.toNat_natCast]

theorem store_of_lt {i : ℕ} (h : i < n) (x : α) :
    store n a i x = some (Function.update a i x) := by
  rw [store, if_pos (by omega), Int.toNat_natCast]

end Accesses

/-- `for (i = first; i < first + passes; i++)` with a body that may have no result. -/
def forLoop (body : ℕ → σ → Option σ) : ℕ → ℕ → σ → Option σ
  | 0, _, s => some s
  | passes + 1, i, s => (body i s).bind (forLoop body passes (i + 1))

/-- An invariant under which every pass has a result gives the loop one. -/
theorem forLoop_rule {body : ℕ → σ → Option σ} {P : ℕ → σ → Prop} {passes i : ℕ} {s : σ}
    (h : P i s) (hbody : ∀ j t, j < i + passes → P j t →
      ∃ t', body j t = some t' ∧ P (j + 1) t') :
    ∃ s', forLoop body passes i s = some s' ∧ P (i + passes) s' := by
  induction passes generalizing i s with
  | zero => exact ⟨s, rfl, h⟩
  | succ passes ih =>
      obtain ⟨t, ht, hnext⟩ := hbody i s (by omega) h
      obtain ⟨s', hs', hend⟩ := ih hnext fun j u hj hu => hbody j u (by omega) hu
      refine ⟨s', ?_, ?_⟩
      · rw [forLoop, ht, Option.bind_some, hs']
      · rw [← Nat.add_assoc, Nat.add_right_comm]
        exact hend

/-- The first index that passes a test, if the test has a result up to there. -/
def scan (test : ℕ → Option Bool) : ℕ → ℕ → Option (Option ℕ)
  | 0, _ => some none
  | passes + 1, i => (test i).bind fun hit =>
      if hit then some (some i) else scan test passes (i + 1)

theorem scan_eq {test : ℕ → Option Bool} {p : ℕ → Bool} {passes i : ℕ}
    (h : ∀ j < i + passes, test j = some (p j)) :
    scan test passes i = some ((List.range' i passes).find? p) := by
  induction passes generalizing i with
  | zero => rfl
  | succ passes ih =>
      rw [scan, h i (by omega), Option.bind_some, List.range'_succ, List.find?_cons]
      cases p i with
      | true => rfl
      | false => exact ih fun j hj => h j (by omega)

end MiniRtos.CheckedArray
