import MiniRtos.EventTable

/-!
# The representation invariant of an event flags object

Between calls no entry of the waiter table is satisfied by the flags, and the slots
past the live ones are empty. The scan of `event_flags_set` is the hard case: it clears
flags and moves the last entry into the slot it frees. What it leaves is a part of what
it found, and by `eventFlagsSet_spec` none of that is satisfied any more.
-/
namespace MiniRtos
open TransitionSystem
variable {cfg : Config}

namespace EventFlags

/-- The slots of the array past the live ones hold what `event_flags_init` stored. -/
structure TailFree (cfg : Config) (ef : EventFlags) : Prop where
  count_le : ef.waiterCount ≤ cfg.rtosEventMaxWaiters
  free : ∀ w, ef.waiterCount ≤ w → w < cfg.rtosEventMaxWaiters → ef.waiters w = noWaiter

/-- No waiter that the flags satisfy is left in the table. -/
structure Represented (cfg : Config) (ef : EventFlags) : Prop where
  count_le : ef.waiterCount ≤ cfg.rtosEventMaxWaiters
  mask_ne : ∀ w < ef.waiterCount, (ef.waiters w).requiredMask ≠ 0#32
  free : ∀ w, ef.waiterCount ≤ w → w < cfg.rtosEventMaxWaiters → ef.waiters w = ⟨-1, 0#32⟩
  unsatisfied : ∀ w < ef.waiterCount,
    ef.flags &&& (ef.waiters w).requiredMask ≠ (ef.waiters w).requiredMask

variable {ef : EventFlags}

/-- The two conditions on live entries, which do not depend on their order. -/
theorem Represented.of_entries (ht : ef.TailFree cfg)
    (hmask : ∀ e ∈ ef.entries, e.requiredMask ≠ 0#32)
    (hsat : ∀ e ∈ ef.entries, ¬ satisfied ef.flags e.requiredMask) : ef.Represented cfg where
  count_le := ht.count_le
  mask_ne w hw := hmask _ (mem_entries.mpr ⟨w, hw, rfl⟩)
  free := ht.free
  unsatisfied w hw := by
    have hns := hsat _ (mem_entries.mpr ⟨w, hw, rfl⟩)
    simpa only [satisfied, decide_eq_true_eq] using hns

theorem Represented.entry (h : ef.Represented cfg) :
    ∀ e ∈ ef.entries, e.requiredMask ≠ 0#32 ∧ ¬ satisfied ef.flags e.requiredMask := by
  intro e he
  obtain ⟨w, hw, rfl⟩ := mem_entries.mp he
  constructor
  · exact h.mask_ne w hw
  · simpa only [satisfied, decide_eq_true_eq] using h.unsatisfied w hw

theorem eventFlagsInit_represented (ef : EventFlags) :
    (ef.eventFlagsInit cfg).Represented cfg where
  count_le := Nat.zero_le _
  mask_ne w hw := absurd hw (Nat.not_lt_zero w)
  free _ _ hw := if_pos hw
  unsatisfied w hw := absurd hw (Nat.not_lt_zero w)

theorem Represented.eventFlagsClear (h : ef.Represented cfg) (mask : BitVec 32) :
    (ef.eventFlagsClear mask).Represented cfg := by
  refine .of_entries ⟨h.count_le, h.free⟩ (fun e he => (h.entry e he).1) fun e he hs => ?_
  exact (h.entry e he).2 (satisfied_mono (cleared_subset ef.flags mask) hs)

theorem TailFree.removeWaiter (h : ef.TailFree cfg) {i : ℕ} (hi : i < ef.waiterCount) :
    (ef.removeWaiter i).TailFree cfg where
  count_le := (Nat.sub_le _ _).trans h.count_le
  free w hw hmax := by
    simp only [EventFlags.removeWaiter] at hw ⊢
    by_cases hlast : w = ef.waiterCount - 1
    · rw [hlast, Function.update_self]
    · rw [Function.update_of_ne hlast, Function.update_of_ne (by omega)]
      exact h.free w (by omega) hmax

/-- Each removal frees the last live slot, so the free slots stay at the end. -/
theorem TailFree.eventFlagsSetLoop (n : ℕ) {ef : EventFlags} (h : ef.TailFree cfg)
    (s : Sched cfg) (hn : n ≤ ef.waiterCount) : (eventFlagsSetLoop n ef s).1.TailFree cfg := by
  induction n generalizing ef s with
  | zero => exact h
  | succ n ih =>
      simp only [EventFlags.eventFlagsSetLoop]
      split_ifs
      · exact ih h s (by omega)
      · have hf : ({ ef with flags := ef.flags &&& ~~~(ef.waiters n).requiredMask } :
            EventFlags).TailFree cfg := ⟨h.count_le, h.free⟩
        refine ih (hf.removeWaiter hn) _ ?_
        simp only [EventFlags.removeWaiter]
        omega

theorem Represented.eventFlagsSet (h : ef.Represented cfg) (s : Sched cfg) (mask : BitVec 32) :
    (ef.eventFlagsSet s mask).1.Represented cfg := by
  by_cases hm : mask = 0#32
  · simpa only [EventFlags.eventFlagsSet, if_pos hm] using h
  obtain ⟨hent, hsat⟩ := ef.eventFlagsSet_spec s hm
  have hkept : ∀ e ∈ (ef.eventFlagsSet s mask).1.entries, e ∈ ef.entries := by
    intro e he
    rw [hent]
    exact Multiset.mem_add.mpr (.inr he)
  refine .of_entries ?_ (fun e he => (h.entry e (hkept e he)).1) fun e he => ?_
  · simp only [EventFlags.eventFlagsSet, if_neg hm]
    have ht : ({ ef with flags := ef.flags ||| mask } : EventFlags).TailFree cfg :=
      ⟨h.count_le, h.free⟩
    exact ht.eventFlagsSetLoop _ s le_rfl
  · exact hsat e (hkept e he) (h.entry e (hkept e he)).1

/-- The fast path clears flags, the slow path fills the first free slot. -/
theorem Represented.eventFlagsWait (h : ef.Represented cfg) (s : Sched cfg) (mask : BitVec 32) :
    (ef.eventFlagsWait s mask).2.1.Represented cfg := by
  unfold EventFlags.eventFlagsWait
  split_ifs with hm hs hf
  · exact h
  · exact h.eventFlagsClear mask
  · exact h
  · refine .of_entries ⟨not_le.mp hf, fun w hw hmax => ?_⟩ (fun e he => ?_) fun e he => ?_
    · simp only at hw ⊢
      rw [Function.update_of_ne (by omega)]
      exact h.free w (by omega) hmax
    all_goals
      rw [EventFlags.entries, SlotTable.entries_push, Multiset.mem_cons] at he
      rcases he with rfl | he
    · exact hm
    · exact (h.entry e he).1
    · exact hs
    · exact (h.entry e he).2

end EventFlags

theorem EventCall.exec_represented (s : Sched cfg) {o : Objects} {i : ℕ}
    (h : (o.eventFlags i).Represented cfg) (c : EventCall) :
    ((c.exec s o).2.2.eventFlags i).Represented cfg := by
  by_cases hon : c.onFlags i
  · cases c with
    | get ef => cases ef <;> exact h
    | init ef =>
        obtain rfl : ef = some i := by simpa [onFlags] using hon
        rw [show ((init (some i)).exec s o).2.2.eventFlags i = (o.eventFlags i).eventFlagsInit cfg
          from o.setEventFlags_at i _]
        exact EventFlags.eventFlagsInit_represented _
    | set ef mask =>
        obtain rfl : ef = some i := by simpa [onFlags] using hon
        rw [exec_set]
        exact h.eventFlagsSet s mask
    | clear ef mask =>
        obtain rfl : ef = some i := by simpa [onFlags] using hon
        rw [show ((clear (some i) mask).exec s o).2.2.eventFlags i =
          (o.eventFlags i).eventFlagsClear mask from o.setEventFlags_at i _]
        exact h.eventFlagsClear mask
    | wait ef mask =>
        obtain rfl : ef = some i := by simpa [onFlags] using hon
        rw [exec_wait]
        exact h.eventFlagsWait s mask
  · rw [exec_eventFlags s o (by simpa using hon)]
    exact h

theorem StepCases.represented {u w : System cfg} {a : Action cfg} {o : Observation cfg} {i : ℕ}
    (hs : StepCases u a o w) (h : (u.machine.objects.eventFlags i).Represented cfg) :
    (w.machine.objects.eventFlags i).Represented cfg := by
  by_cases hc : ∃ c, a = .call (.event c)
  · obtain ⟨c, rfl⟩ := hc
    cases hs with
    | call _ hexec =>
        rw [(Machine.exec_event hexec).2.2]
        exact c.exec_represented _ h
  · push Not at hc
    cases hs with
    | call _ hexec =>
        rw [Machine.exec_eventFlags hexec fun c he => absurd (congrArg Action.call he) (hc c)]
        exact h
    | _ => exact h

/-- After `event_flags_init` the object is represented at every moment, whoever sets,
clears and waits. -/
theorem eventFlags_represented {s v : System cfg} {tr : History cfg} {i : ℕ} {ef : EventFlags}
    (hinit : s.machine.objects.eventFlags i = ef.eventFlagsInit cfg) (h : Run step s tr v) :
    (v.machine.objects.eventFlags i).Represented cfg := by
  refine h.invariant (P := fun u => (u.machine.objects.eventFlags i).Represented cfg) ?_ ?_
  · rw [hinit]
    exact EventFlags.eventFlagsInit_represented ef
  · intro u a o w hu hs
    exact (step_cases hs).represented hu

/-- Two tasks wait for flags 1 and 2, and somebody sets flag 1. -/
def twoWaitersRun : List (Action Config.default) :=
  [.call (.task (.create 1 0x1000#64)), .call (.task (.create 1 0x2000#64)), .run 2] ++
    cycleActions _ ++ [.call (.event (.wait (some 0) 1#32)), .ret] ++ cycleActions _ ++
    [.call (.event (.wait (some 0) 2#32)), .call (.event (.set (some 0) 1#32))]

theorem eventFlags_represented_twoWaitersRun :
    let s := (System.after .default [.call (.event (.init (some 0)))]).2
    let ef := (played step s twoWaitersRun).2.machine.objects.eventFlags 0
    ef.waiterCount = 1 ∧ ef.Represented .default := by
  have hinit :
      (System.after .default [.call (.event (.init (some 0)))]).2.machine.objects.eventFlags 0 =
        ((System.boot _).machine.objects.eventFlags 0).eventFlagsInit _ := rfl
  constructor
  · decide +kernel
  · exact eventFlags_represented hinit (run_played _ _)

end MiniRtos
