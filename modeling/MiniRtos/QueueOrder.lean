import Mathlib.Data.List.MinMax
import Mathlib.Tactic.Common

/-!
# Who is ahead of whom in a queue

The part of a list before an element. Taking other elements out only shortens it and
appending does not change it, and a first maximum that is not the element itself lies
in it whenever the element is a maximum too.
-/
namespace MiniRtos.QueueOrder
variable {α β : Type*} [DecidableEq α]

/-- The elements before the first occurrence of `x`. -/
def ahead (x : α) (l : List α) : List α := l.takeWhile fun y => y ≠ x

@[simp] theorem ahead_nil (x : α) : ahead x [] = [] := rfl

theorem ahead_cons_self (x : α) (l : List α) : ahead x (x :: l) = [] := by
  simp [ahead]

theorem ahead_cons_of_ne {x y : α} (h : y ≠ x) (l : List α) :
    ahead x (y :: l) = y :: ahead x l := by
  simp [ahead, h]

theorem mem_of_mem_ahead {x y : α} {l : List α} (h : y ∈ ahead x l) : y ∈ l :=
  (List.takeWhile_sublist _).subset h

theorem ahead_nodup {x : α} {l : List α} (h : l.Nodup) : (ahead x l).Nodup :=
  h.sublist (List.takeWhile_sublist _)

theorem ahead_erase {x y : α} (h : y ≠ x) (l : List α) :
    ahead x (l.erase y) = (ahead x l).erase y := by
  induction l with
  | nil => rfl
  | cons z l ih =>
      by_cases hzy : z = y
      · subst hzy
        rw [ahead_cons_of_ne h, List.erase_cons_head, List.erase_cons_head]
      · rw [List.erase_cons_tail (by simpa using hzy)]
        by_cases hzx : z = x
        · subst hzx
          rw [ahead_cons_self, ahead_cons_self]
          rfl
        · rw [ahead_cons_of_ne hzx, ahead_cons_of_ne hzx, ih,
            List.erase_cons_tail (by simpa using hzy)]

theorem ahead_append {x : α} {l : List α} (h : x ∈ l) (r : List α) :
    ahead x (l ++ r) = ahead x l := by
  induction l with
  | nil => simp at h
  | cons z l ih =>
      by_cases hzx : z = x
      · subst hzx
        rw [List.cons_append, ahead_cons_self, ahead_cons_self]
      · have hx : x ∈ l := (List.mem_cons.mp h).resolve_left fun he => hzx he.symm
        rw [List.cons_append, ahead_cons_of_ne hzx, ahead_cons_of_ne hzx, ih hx]

theorem mem_ahead_iff {x y : α} {l : List α} : y ∈ ahead x l ↔ l.idxOf y < l.idxOf x := by
  induction l with
  | nil => simp
  | cons z l ih =>
      by_cases hzx : z = x
      · subst hzx
        simp [ahead_cons_self]
      · rw [ahead_cons_of_ne hzx, List.mem_cons, List.idxOf_cons_ne _ hzx, ih]
        by_cases hzy : z = y
        · subst hzy
          simp
        · rw [List.idxOf_cons_ne _ hzy]
          simp [Ne.symm hzy]

/-- A first maximum comes before every other maximum. -/
theorem argmax_mem_ahead [LinearOrder β] {f : α → β} {l : List α} {x m : α}
    (hm : l.argmax f = some m) (hx : x ∈ l) (hle : f m ≤ f x) (hne : m ≠ x) :
    m ∈ ahead x l := by
  rw [mem_ahead_iff]
  refine lt_of_le_of_ne (List.index_of_argmax hm hx hle) fun he => hne ?_
  exact (List.idxOf_inj (List.argmax_mem hm)).mp he

omit [DecidableEq α] in
/-- A first maximum depends on the values of the entries only. -/
theorem argmax_congr [Preorder β] [DecidableLT β] {f g : α → β} {l : List α}
    (h : ∀ x ∈ l, f x = g x) : l.argmax f = l.argmax g := by
  induction l using List.reverseRecOn with
  | nil => rfl
  | append_singleton l x ih =>
      have hx := h x (by simp)
      rw [List.argmax_concat, List.argmax_concat, ih fun y hy => h y (by simp [hy])]
      cases hm : l.argmax g with
      | none => rfl
      | some m =>
          have hmem := List.argmax_mem hm
          simp only [hx, h m (by simp [hmem])]

omit [DecidableEq α] in
/-- A first maximum depends on the order of the values only. -/
theorem argmax_comp {γ : Type*} [LinearOrder β] [Preorder γ] [DecidableLT γ] {f : β → γ}
    (hf : StrictMono f) (g : α → β) (l : List α) :
    l.argmax (fun x => f (g x)) = l.argmax g := by
  induction l using List.reverseRecOn with
  | nil => rfl
  | append_singleton l x ih =>
      rw [List.argmax_concat, List.argmax_concat, ih]
      simp only [hf.lt_iff_lt]

/-- The first occurrence of an entry is not behind any of its positions. -/
theorem idxOf_getElem_le (l : List α) (k : ℕ) (hk : k < l.length) : l.idxOf l[k] ≤ k := by
  by_contra hlt
  have hfind := List.not_of_lt_findIdx (not_le.mp hlt)
  simp at hfind

/-- A first maximum heads the list of the maxima. -/
theorem argmax_eq_head_filter [LinearOrder β] {f : α → β} {l : List α} {m : α} {p : α → Bool}
    (hm : l.argmax f = some m) (hp : ∀ x ∈ l, p x = true ↔ ∀ y ∈ l, f y ≤ f x) :
    (l.filter p).head? = some m := by
  have hmem := List.argmax_mem hm
  have hlt := List.idxOf_lt_length_of_mem hmem
  rw [List.head?_filter, List.find?_eq_some_iff_getElem]
  refine ⟨(hp m hmem).mpr fun y hy => List.le_of_mem_argmax hy hm, l.idxOf m, hlt,
    List.getElem_idxOf hlt, ?_⟩
  intro k hk
  have hklt : k < l.length := hk.trans hlt
  by_contra hpk
  have hmax := (hp l[k] (List.getElem_mem hklt)).mp (by simpa using hpk)
  have hfirst := List.index_of_argmax hm (List.getElem_mem hklt) (hmax m hmem)
  have hle := idxOf_getElem_le l k hklt
  omega

end MiniRtos.QueueOrder
