import Mathlib.Data.List.Rotate
import Mathlib.Tactic.Common

/-!
# Taking turns

The parties of a ring are served one after the other, each of them `n` times in a row.
The ring is a list that is rotated once per turn, so that the party being served is its
head; `u / n` counts the turns before the service number `u`, starting from 0.
-/
namespace MiniRtos.TurnTaking
variable {α : Type*} {l rest : List α} {x : α} {n u q k : ℕ}

/-- The position in a ring of `k` of the party that gets service number `u`. -/
def turn (n k u : ℕ) : ℕ := u / n % k

theorem stays (h : u % n + 1 < n) : (u + 1) / n = u / n ∧ (u + 1) % n = u % n + 1 := by
  have hsplit := Nat.div_add_mod u n
  have hu : u + 1 = n * (u / n) + (u % n + 1) := by omega
  rw [hu, Nat.mul_add_div (by omega), Nat.mul_add_mod, Nat.div_eq_of_lt h, Nat.mod_eq_of_lt h]
  exact ⟨rfl, rfl⟩

theorem moves (hn : 0 < n) (h : n ≤ u % n + 1) :
    (u + 1) / n = u / n + 1 ∧ (u + 1) % n = 0 := by
  have hlast : u % n + 1 = n := by
    have := Nat.mod_lt u hn
    omega
  have hsplit := Nat.div_add_mod u n
  have hu : u + 1 = n * (u / n + 1) := by
    rw [Nat.mul_add, Nat.mul_one]
    omega
  rw [hu, Nat.mul_div_cancel_left _ hn, Nat.mul_mod_right]
  exact ⟨rfl, rfl⟩

theorem getElem?_of_rotate (h : l.rotate q = x :: rest) : l[q % l.length]? = some x := by
  have hpos : 0 < l.length := by
    rw [← l.length_rotate q, h]
    exact Nat.succ_pos _
  rw [← List.head?_rotate (Nat.mod_lt q hpos), List.rotate_mod, h]
  rfl

theorem rotate_succ (h : l.rotate q = x :: rest) : l.rotate (q + 1) = rest ++ [x] := by
  rw [← List.rotate_rotate, h, List.rotate_cons_succ, List.rotate_zero]

theorem rotate_eq_singleton (h : l.rotate q = [x]) (p : ℕ) : l.rotate p = [x] := by
  rw [List.rotate_eq_singleton_iff] at h
  rw [h, List.rotate_singleton]

/-- In a ring of two or more the next turn goes to somebody else. -/
theorem succ_mod_ne (hk : 2 ≤ k) (q : ℕ) : (q + 1) % k ≠ q % k := by
  intro h
  have hzero : (q + 1 - q) % k = 0 := Nat.sub_mod_eq_zero_of_mod_eq h
  rw [Nat.add_sub_cancel_left, Nat.mod_eq_of_lt hk] at hzero
  cases hzero

/-- Whose turn it is changes exactly when a turn is over and there is somebody else. -/
theorem turn_succ_eq_iff (hn : 0 < n) (hk : 0 < k) :
    turn n k (u + 1) = turn n k u ↔ k = 1 ∨ u % n + 1 < n := by
  unfold turn
  constructor
  · intro h
    by_contra hno
    obtain ⟨hk', hlt⟩ := not_or.mp hno
    rw [(moves hn (not_lt.mp hlt)).1] at h
    exact succ_mod_ne (by omega) _ h
  · intro h
    rcases h with h | h
    · simp [h, Nat.mod_one]
    · rw [(stays h).1]

end MiniRtos.TurnTaking
