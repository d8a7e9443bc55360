import Mathlib.Data.List.Basic
import Mathlib.Data.List.Nodup
import Mathlib.Logic.Function.Basic
import Mathlib.Tactic.Common

/-!
# Stacks whose links are kept in a function

`next` gives the successor of a node and `stop` is the mark of the end. `Chain` says
that following the links from a node visits the nodes of a list and then stops. A chain
is determined by where it starts, so it repeats no node; a node outside it may have its
link changed, which is all that pushing needs.
-/
namespace MiniRtos.LinkedStack
variable {α : Type*} {next next' : α → α} {stop a : α} {l : List α}

inductive Chain (next : α → α) (stop : α) : α → List α → Prop
  | nil : Chain next stop stop []
  | cons {a : α} {l : List α} : a ≠ stop → Chain next stop (next a) l →
      Chain next stop a (a :: l)

theorem Chain.unique {l' : List α} (h : Chain next stop a l) (h' : Chain next stop a l') :
    l = l' := by
  induction h generalizing l' with
  | nil =>
      cases h' with
      | nil => rfl
      | cons hne _ => exact absurd rfl hne
  | cons hne _ ih =>
      cases h' with
      | nil => exact absurd rfl hne
      | cons _ h' => rw [ih h']

theorem Chain.suffix {b : α} (h : Chain next stop a l) (hb : b ∈ l) :
    ∃ r, Chain next stop b r ∧ r.length ≤ l.length := by
  induction h with
  | nil => simp at hb
  | @cons a l hne h ih =>
      rcases List.mem_cons.mp hb with rfl | hb
      · exact ⟨_, .cons hne h, Nat.le_refl _⟩
      · obtain ⟨r, hr, hlen⟩ := ih hb
        exact ⟨r, hr, by simp; omega⟩

/-- A node that came back would start two chains of different lengths. -/
theorem Chain.nodup (h : Chain next stop a l) : l.Nodup := by
  induction h with
  | nil => exact .nil
  | cons hne h ih =>
      refine List.nodup_cons.mpr ⟨fun hm => ?_, ih⟩
      obtain ⟨r, hr, hlen⟩ := h.suffix hm
      have hl := congrArg List.length (hr.unique (.cons hne h))
      simp only [List.length_cons] at hl
      omega

theorem Chain.congr (h : Chain next stop a l) (he : ∀ b ∈ l, next' b = next b) :
    Chain next' stop a l := by
  induction h with
  | nil => exact .nil
  | cons hne _ ih =>
      refine .cons hne ?_
      rw [he _ (by simp)]
      exact ih fun b hb => he b (by simp [hb])

theorem Chain.push {b : α} (h : Chain next stop a l) (hb : b ≠ stop) (hnew : b ∉ l)
    (hlink : next' b = a) (he : ∀ c ≠ b, next' c = next c) :
    Chain next' stop b (b :: l) := by
  refine .cons hb ?_
  rw [hlink]
  exact h.congr fun c hc => he c fun hcb => hnew (hcb ▸ hc)

theorem Chain.eq_nil_iff (h : Chain next stop a l) : l = [] ↔ a = stop := by
  cases h with
  | nil => simp
  | cons hne _ => simp [hne]

/-- The nodes from `f 0` on, when every one links to the following one. -/
theorem Chain.of_forall {f : ℕ → α} {n : ℕ} (hend : f n = stop)
    (hne : ∀ i < n, f i ≠ stop) (hlink : ∀ i < n, next (f i) = f (i + 1)) :
    Chain next stop (f 0) ((List.range n).map f) := by
  induction n generalizing f with
  | zero =>
      rw [hend]
      exact .nil
  | succ n ih =>
      rw [List.range_succ_eq_map, List.map_cons, List.map_map]
      refine .cons (hne 0 (by omega)) ?_
      rw [hlink 0 (by omega)]
      exact ih hend (fun i hi => hne (i + 1) (by omega)) fun i hi => hlink (i + 1) (by omega)

/-- What an allocator of interchangeable nodes does to the stack of its free nodes. -/
inductive Op (α : Type*) where
  | alloc
  | free (a : α)
  | reset (l : List α)

/-- `free` of a node that is already free changes nothing. -/
def apply [DecidableEq α] (l : List α) : Op α → Option α × List α
  | .alloc => (l.head?, l.tail)
  | .free a => (none, if a ∈ l then l else a :: l)
  | .reset l' => (none, l')

end MiniRtos.LinkedStack
