import Mathlib.Data.Multiset.MapFold
import Mathlib.Data.Multiset.Range
import Mathlib.Logic.Function.Basic

/-!
# Unordered tables in the first slots of an array

The entries of a table are a multiset: adding writes the first free slot, and removing
fills the hole with the last entry, so the order of the slots means nothing.
-/
namespace MiniRtos.SlotTable
variable {α : Type*} {n : ℕ} {f : ℕ → α}

def entries (n : ℕ) (f : ℕ → α) : Multiset α := (Multiset.range n).map f

@[simp] theorem entries_zero (f : ℕ → α) : entries 0 f = 0 := rfl

theorem entries_succ (n : ℕ) (f : ℕ → α) : entries (n + 1) f = f n ::ₘ entries n f := by
  simp [entries, Multiset.range_succ]

theorem mem_entries {a : α} : a ∈ entries n f ↔ ∃ i < n, f i = a := by
  simp [entries]

theorem card_entries (n : ℕ) (f : ℕ → α) : (entries n f).card = n := by
  simp [entries]

theorem entries_congr {g : ℕ → α} (h : ∀ i < n, f i = g i) : entries n f = entries n g :=
  Multiset.map_congr rfl fun i hi => h i (Multiset.mem_range.mp hi)

theorem entries_push (n : ℕ) (f : ℕ → α) (a : α) :
    entries (n + 1) (Function.update f n a) = a ::ₘ entries n f := by
  rw [entries_succ, Function.update_self]
  congr 1
  exact entries_congr fun i hi => Function.update_of_ne (by omega) a f

/-- What slot `i` held is gone, and nothing else; `b` is the mark of a free slot. -/
theorem entries_swapRemove {i : ℕ} (hi : i < n + 1) (b : α) :
    entries (n + 1) f =
      f i ::ₘ entries n (Function.update (Function.update f i (f n)) n b) := by
  have hfree : entries n (Function.update (Function.update f i (f n)) n b) =
      entries n (Function.update f i (f n)) :=
    entries_congr fun j hj => by rw [Function.update_of_ne (Nat.ne_of_lt hj)]
  rw [hfree, entries_succ]
  by_cases hin : i = n
  · subst hin
    rw [Function.update_eq_self]
  · -- slot `i` is among the first `n`; take it out on both sides
    have hmem : i ∈ Multiset.range n := Multiset.mem_range.mpr (by omega)
    have hrest : ((Multiset.range n).erase i).map (Function.update f i (f n)) =
        ((Multiset.range n).erase i).map f := by
      refine Multiset.map_congr rfl fun j hj => Function.update_of_ne ?_ _ f
      rintro rfl
      exact (Multiset.nodup_range n).notMem_erase hj
    unfold entries
    rw [← Multiset.cons_erase hmem, Multiset.map_cons, Multiset.map_cons, hrest,
      Function.update_self]
    exact Multiset.cons_swap _ _ _

end MiniRtos.SlotTable
