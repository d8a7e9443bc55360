import Mathlib.Data.Finset.Card
import Mathlib.Data.Set.Basic
import Mathlib.Tactic.Common

/-!
# Primitives that wake a waiter without handing over what it waits for

A waiter that is woken has to ask again, and another party may come first. What can be
kept is an account: while anybody waits, the tokens left are no more than the parties
that were woken and have not asked again.
-/
namespace MiniRtos.TokenCover
variable {ι : Type*}

/-- Every token left has somebody on the way to fetch it, if anybody still waits. -/
def Covered (waiting : Set ι) (pending : Finset ι) (tokens : ℤ) : Prop :=
  waiting.Nonempty → tokens ≤ pending.card

variable {waiting waiting' : Set ι} {pending pending' : Finset ι} {tokens tokens' : ℤ}

theorem Covered.of_nonpos (h : tokens ≤ 0) : Covered waiting pending tokens :=
  fun _ => h.trans (Int.natCast_nonneg _)

theorem Covered.of_empty (h : waiting = ∅) : Covered waiting pending tokens :=
  fun hne => absurd h hne.ne_empty

/-- Fewer waiters, more pending parties and fewer tokens keep the account. -/
theorem Covered.mono (h : Covered waiting pending tokens) (hw : waiting' ⊆ waiting)
    (hp : pending ⊆ pending') (ht : tokens' ≤ tokens) : Covered waiting' pending' tokens' := by
  intro hne
  have := h (hne.mono hw)
  have := Finset.card_le_card hp
  omega

variable [DecidableEq ι]

/-- A party that takes a token may stop being pending. -/
theorem Covered.take (h : Covered waiting pending tokens) {i : ι} (hw : waiting' ⊆ waiting)
    (hp : pending.erase i ⊆ pending') (ht : tokens' + 1 ≤ tokens) :
    Covered waiting' pending' tokens' := by
  intro hne
  have := h (hne.mono hw)
  have := Finset.card_le_card hp
  have := Finset.pred_card_le_card_erase (s := pending) (a := i)
  omega

/-- A new token comes with a new pending party, as long as there is one to wake. -/
theorem Covered.give (h : Covered waiting pending tokens) {i : ι} (hw : waiting' ⊆ waiting)
    (hi : i ∉ pending) (hp : insert i pending ⊆ pending') (ht : tokens' ≤ tokens + 1) :
    Covered waiting' pending' tokens' := by
  intro hne
  have := h (hne.mono hw)
  have := Finset.card_le_card hp
  rw [Finset.card_insert_of_notMem hi] at this
  omega

end MiniRtos.TokenCover
