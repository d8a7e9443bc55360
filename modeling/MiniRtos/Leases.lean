import Mathlib.Data.Finset.Card
import Mathlib.Data.Fintype.Card
import Mathlib.Data.Set.Function
import Mathlib.Tactic.Common

/-!
# Leases of slots

Slots of a pool are handed out, given back and handed out again. The account keeps every
grant, so that two holders of one slot are told apart, and which holders have not given
theirs back. The pool agrees with the account as long as a slot is in use exactly for the
one holder whose lease is live.
-/
namespace MiniRtos

structure Leases (σ : Type*) where
  granted : List σ
  live : Finset ℕ

namespace Leases
variable {σ : Type*}

def empty : Leases σ := ⟨[], ∅⟩

/-- What the `h`-th holder was given. -/
def slot (l : Leases σ) (h : ℕ) : Option σ := l.granted[h]?

def grant (l : Leases σ) (x : σ) : Leases σ :=
  ⟨l.granted ++ [x], insert l.granted.length l.live⟩

def release (l : Leases σ) (h : ℕ) : Leases σ := { l with live := l.live.erase h }

variable {l : Leases σ}

theorem slot_grant_of_lt {h : ℕ} (hh : h < l.granted.length) (x : σ) :
    (l.grant x).slot h = l.slot h := List.getElem?_append_left hh

@[simp] theorem slot_grant_self (x : σ) : (l.grant x).slot l.granted.length = some x := by
  simp [slot, grant]

theorem release_of_notMem {h : ℕ} (hh : h ∉ l.live) : l.release h = l := by
  unfold release
  rw [Finset.erase_eq_of_notMem hh]

/-- The slots in use are those of the live leases, no two of which share one. -/
structure Exact (l : Leases σ) (used : σ → Prop) : Prop where
  granted : ∀ h ∈ l.live, h < l.granted.length
  exclusive : Set.InjOn l.slot l.live
  used_iff : ∀ x, used x ↔ ∃ h ∈ l.live, l.slot h = some x

variable {used used' : σ → Prop}

theorem exact_empty (h : ∀ x, ¬ used x) : (empty : Leases σ).Exact used := by
  constructor
  · simp [empty]
  · simp [empty]
  · intro x
    simp [empty, h x]

theorem Exact.congr (he : l.Exact used) (h : ∀ x, used' x ↔ used x) : l.Exact used' :=
  ⟨he.granted, he.exclusive, fun x => (h x).trans (he.used_iff x)⟩

theorem Exact.used_of_live (he : l.Exact used) {h : ℕ} {x : σ} (hh : h ∈ l.live)
    (hx : l.slot h = some x) : used x := (he.used_iff x).mpr ⟨h, hh, hx⟩

/-- A slot that is free goes to a new holder. -/
theorem Exact.grant (he : l.Exact used) {x : σ} (hx : ¬ used x)
    (h : ∀ y, used' y ↔ y = x ∨ used y) : (l.grant x).Exact used' := by
  have hold : ∀ k ∈ l.live, (l.grant x).slot k = l.slot k :=
    fun k hk => slot_grant_of_lt (he.granted k hk) x
  have hfree : ∀ k ∈ l.live, l.slot k ≠ some x := fun k hk hs => hx (he.used_of_live hk hs)
  constructor
  · intro k hk
    simp only [Leases.grant, List.length_append, List.length_singleton]
    rcases Finset.mem_insert.mp hk with rfl | hk
    · exact Nat.lt_succ_self _
    · exact Nat.lt_succ_of_lt (he.granted k hk)
  · intro j hj k hk hjk
    rcases Finset.mem_insert.mp hj with rfl | hj <;> rcases Finset.mem_insert.mp hk with rfl | hk
    · rfl
    · rw [slot_grant_self, hold k hk] at hjk
      exact absurd hjk.symm (hfree k hk)
    · rw [slot_grant_self, hold j hj] at hjk
      exact absurd hjk (hfree j hj)
    · rw [hold j hj, hold k hk] at hjk
      exact he.exclusive hj hk hjk
  · intro y
    rw [h y]
    constructor
    · rintro (rfl | hy)
      · exact ⟨_, Finset.mem_insert_self _ _, slot_grant_self y⟩
      · obtain ⟨k, hk, hs⟩ := (he.used_iff y).mp hy
        exact ⟨k, Finset.mem_insert_of_mem hk, (hold k hk).trans hs⟩
    · rintro ⟨k, hk, hs⟩
      rcases Finset.mem_insert.mp hk with rfl | hk
      · rw [slot_grant_self] at hs
        exact .inl (Option.some.inj hs).symm
      · rw [hold k hk] at hs
        exact .inr (he.used_of_live hk hs)

/-- A holder gives its slot back. -/
theorem Exact.release (he : l.Exact used) {h : ℕ} {x : σ} (hh : h ∈ l.live)
    (hx : l.slot h = some x) (hused : ∀ y, used' y ↔ y ≠ x ∧ used y) :
    (l.release h).Exact used' := by
  constructor
  · intro k hk
    exact he.granted k (Finset.mem_of_mem_erase hk)
  · intro j hj k hk hjk
    exact he.exclusive (Finset.mem_of_mem_erase hj) (Finset.mem_of_mem_erase hk) hjk
  · intro y
    rw [hused y, he.used_iff y]
    constructor
    · rintro ⟨hne, k, hk, hs⟩
      have hkh : k ≠ h := by
        rintro rfl
        exact hne (Option.some.inj (hs.symm.trans hx))
      exact ⟨k, Finset.mem_erase.mpr ⟨hkh, hk⟩, hs⟩
    · rintro ⟨k, hk, hs⟩
      obtain ⟨hkh, hk⟩ := Finset.mem_erase.mp hk
      refine ⟨?_, k, hk, hs⟩
      rintro rfl
      exact hkh (he.exclusive hk hh (hs.trans hx.symm))

/-- As many leases are live as there are slots exactly if every slot is in use. -/
theorem Exact.card_live_eq_iff [Fintype σ] (he : l.Exact used) :
    l.live.card = Fintype.card σ ↔ ∀ x, used x := by
  classical
  have hcard : (l.live.image l.slot).card = l.live.card := Finset.card_image_of_injOn he.exclusive
  have hall : (Finset.univ.image (some : σ → Option σ)).card = Fintype.card σ :=
    Finset.card_image_of_injective _ (Option.some_injective σ)
  have hsub : l.live.image l.slot ⊆ Finset.univ.image some := by
    intro y hy
    obtain ⟨k, hk, rfl⟩ := Finset.mem_image.mp hy
    have hs : l.slot k = some (l.granted.get ⟨k, he.granted k hk⟩) :=
      List.getElem?_eq_getElem (he.granted k hk)
    exact Finset.mem_image.mpr ⟨_, Finset.mem_univ _, hs.symm⟩
  constructor
  · intro hfull x
    have himage := Finset.eq_of_subset_of_card_le hsub (by omega)
    have hx : some x ∈ l.live.image l.slot := by
      rw [himage]
      exact Finset.mem_image_of_mem _ (Finset.mem_univ x)
    obtain ⟨k, hk, hs⟩ := Finset.mem_image.mp hx
    exact he.used_of_live hk hs
  · intro hused
    have hsup : Finset.univ.image some ⊆ l.live.image l.slot := by
      intro y hy
      obtain ⟨x, -, rfl⟩ := Finset.mem_image.mp hy
      obtain ⟨k, hk, hs⟩ := (he.used_iff x).mp (hused x)
      exact Finset.mem_image.mpr ⟨k, hk, hs⟩
    rw [← hcard, hsub.antisymm hsup, hall]

end Leases

end MiniRtos
