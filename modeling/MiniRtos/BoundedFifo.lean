import MiniRtos.TransitionSystem
import Mathlib.Data.Int.ModEq
import Mathlib.Logic.Function.Basic

/-!
# Bounded queues and circular buffers

A bounded queue is a list with a capacity. A circular buffer represents it by the slots
`front, front + 1, …` modulo the capacity; `rear` is the slot after the last one. Full
and empty are told apart by the count, which is the length of the list.
-/
namespace MiniRtos.BoundedFifo
open TransitionSystem

inductive Op (α : Type*) where
  | send (v : α)
  | receive

inductive Result (α : Type*) where
  | sent (accepted : Bool)
  | received (v : Option α)

def apply {α : Type*} (capacity : ℕ) (l : List α) : Op α → Result α × List α
  | .send v => if l.length < capacity then (.sent true, l ++ [v]) else (.sent false, l)
  | .receive => (.received l.head?, l.tail)

section Streams
variable {α : Type*} {capacity : ℕ}

/-- The values whose sending succeeded, the oldest first. -/
def sentValues (ls : List (Op α × Result α)) : List α :=
  ls.filterMap fun
    | (.send v, .sent true) => some v
    | _ => none

/-- The values that were received, the oldest first. -/
def receivedValues (ls : List (Op α × Result α)) : List α :=
  ls.filterMap fun
    | (.receive, .received v) => v
    | _ => none

/-- Nothing is lost, repeated or reordered. -/
theorem sentValues_eq {ls : List (Op α × Result α)} {l : List α}
    (h : Performs (apply capacity) [] ls l) : sentValues ls = receivedValues ls ++ l := by
  induction h with
  | nil => rfl
  | @snoc l ls b _ ih =>
      simp only [sentValues, receivedValues, List.filterMap_append] at ih ⊢
      rw [ih]
      cases b with
      | send v =>
          by_cases hlt : l.length < capacity
          · simp [apply, hlt]
          · simp [apply, hlt]
      | receive =>
          cases l with
          | nil => simp [apply]
          | cons v l => simp [apply]

end Streams

section Circular
variable {α : Type*} {capacity front rear count : ℤ} {buffer : ℤ → α} {l : List α}

/-- The slot of entry `i`. -/
def slot (capacity front : ℤ) (i : ℕ) : ℤ := (front + i) % capacity

theorem slot_injOn {i j : ℕ} (hi : (i : ℤ) < capacity) (hj : (j : ℤ) < capacity)
    (h : slot capacity front i = slot capacity front j) : i = j := by
  have hmod : (i : ℤ) % capacity = j % capacity := Int.emod_add_cancel_left.mp h
  rw [Int.emod_eq_of_lt (by omega) hi, Int.emod_eq_of_lt (by omega) hj] at hmod
  exact_mod_cast hmod

theorem slot_succ (i : ℕ) :
    slot capacity ((front + 1) % capacity) i = slot capacity front (i + 1) := by
  simp only [slot, Int.emod_add_emod]
  push_cast
  congr 1
  omega

structure Represents (capacity : ℤ) (buffer : ℤ → α) (front rear count : ℤ) (l : List α) :
    Prop where
  front_nonneg : 0 ≤ front
  front_lt : front < capacity
  rear_eq : rear = (front + count) % capacity
  count_eq : count = l.length
  count_le : count ≤ capacity
  entry : ∀ i, (h : i < l.length) → buffer (slot capacity front i) = l[i]

theorem Represents.rear_bounds (h : Represents capacity buffer front rear count l) :
    0 ≤ rear ∧ rear < capacity := by
  have hpos : 0 < capacity := h.front_nonneg.trans_lt h.front_lt
  rw [h.rear_eq]
  exact ⟨Int.emod_nonneg _ hpos.ne', Int.emod_lt_of_pos _ hpos⟩

theorem represents_empty (hpos : 0 < capacity) (buffer : ℤ → α) :
    Represents capacity buffer 0 0 0 [] where
  front_nonneg := le_rfl
  front_lt := hpos
  rear_eq := by simp
  count_eq := rfl
  count_le := hpos.le
  entry := by simp

/-- Writing the slot after the last entry disturbs no entry. -/
theorem Represents.push (h : Represents capacity buffer front rear count l)
    (hroom : count < capacity) (v : α) :
    Represents capacity (Function.update buffer rear v) front ((rear + 1) % capacity)
      (count + 1) (l ++ [v]) where
  front_nonneg := h.front_nonneg
  front_lt := h.front_lt
  rear_eq := by rw [h.rear_eq, Int.emod_add_emod, add_assoc]
  count_eq := by simp [h.count_eq]
  count_le := hroom
  entry i hi := by
    have hcount := h.count_eq
    have hrear : rear = slot capacity front l.length := by rw [h.rear_eq, hcount, slot]
    simp only [List.length_append, List.length_singleton] at hi
    by_cases hlast : i = l.length
    · subst hlast
      simp [hrear]
    · have hlt : i < l.length := by omega
      have hne : slot capacity front i ≠ rear := fun he =>
        hlast (slot_injOn (by omega) (by omega) (he.trans hrear))
      rw [Function.update_of_ne hne, List.getElem_append_left hlt]
      exact h.entry i hlt

theorem Represents.pop {v : α} (h : Represents capacity buffer front rear count (v :: l)) :
    buffer front = v ∧
      Represents capacity buffer ((front + 1) % capacity) rear (count - 1) l := by
  have hpos : 0 < capacity := h.front_nonneg.trans_lt h.front_lt
  have hcount := h.count_eq
  have hfront := h.entry 0 (by simp)
  simp only [slot, Nat.cast_zero, add_zero, List.getElem_cons_zero,
    Int.emod_eq_of_lt h.front_nonneg h.front_lt] at hfront
  refine ⟨hfront, Int.emod_nonneg _ hpos.ne', Int.emod_lt_of_pos _ hpos, ?_, ?_, ?_, ?_⟩
  · rw [Int.emod_add_emod, h.rear_eq]
    congr 1
    omega
  · simp only [List.length_cons] at hcount
    omega
  · have := h.count_le
    omega
  · intro i hi
    rw [slot_succ, h.entry (i + 1) (by simpa using hi)]
    simp

end Circular

end MiniRtos.BoundedFifo
