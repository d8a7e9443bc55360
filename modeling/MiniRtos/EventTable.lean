import MiniRtos.SlotTable
import MiniRtos.StatusChange

/-!
# The waiter table of an event flags object

`event_flags_set` clears flags and removes entries while it scans. Both are described
at once for the whole scan: what it removes are the selected entries, and afterwards no
entry that the table held before is satisfied by the flags that are left.
-/
namespace MiniRtos
variable {cfg : Config}

namespace EventFlags
variable {ef : EventFlags} {s : Sched cfg}

/-- The live entries of the waiter table. -/
def entries (ef : EventFlags) : Multiset EventWaiter :=
  SlotTable.entries ef.waiterCount ef.waiters

theorem mem_entries {w : EventWaiter} :
    w ∈ ef.entries ↔ ∃ i < ef.waiterCount, ef.waiters i = w :=
  SlotTable.mem_entries

theorem entries_removeWaiter {i : ℕ} (hi : i < ef.waiterCount) :
    ef.entries = ef.waiters i ::ₘ (ef.removeWaiter i).entries := by
  obtain ⟨n, hn⟩ : ∃ n, ef.waiterCount = n + 1 := ⟨ef.waiterCount - 1, by omega⟩
  simp only [entries, removeWaiter, hn, Nat.add_sub_cancel]
  exact SlotTable.entries_swapRemove (hn ▸ hi) _

/-- The scan takes out the selected entries and leaves the others. -/
theorem eventFlagsSetLoop_entries (n : ℕ) (ef : EventFlags) (s : Sched cfg)
    (hn : n ≤ ef.waiterCount) :
    ef.entries = (selected n ef.flags ef.waiters : Multiset EventWaiter) +
      (eventFlagsSetLoop n ef s).1.entries := by
  induction n generalizing ef s with
  | zero => simp [selected, eventFlagsSetLoop]
  | succ n ih =>
      simp only [eventFlagsSetLoop, selected]
      by_cases hs : satisfied ef.flags (ef.waiters n).requiredMask
      · simp only [hs, Bool.not_true, Bool.false_eq_true, if_false, if_true]
        have hlt : n < ({ ef with flags := ef.flags &&& ~~~(ef.waiters n).requiredMask } :
            EventFlags).waiterCount := hn
        have hsel : selected n (ef.flags &&& ~~~(ef.waiters n).requiredMask)
            (({ ef with flags := ef.flags &&& ~~~(ef.waiters n).requiredMask } :
              EventFlags).removeWaiter n).waiters =
            selected n (ef.flags &&& ~~~(ef.waiters n).requiredMask) ef.waiters :=
          selected_congr fun j hj => removeWaiter_below _ hlt hj
        have hrest := ih
          (({ ef with flags := ef.flags &&& ~~~(ef.waiters n).requiredMask } :
            EventFlags).removeWaiter n)
          (s.schedulerSetTaskState (ef.waiters n).taskIndex .ready .none)
          (by simp only [removeWaiter]; omega)
        rw [removeWaiter_flags, hsel] at hrest
        rw [← Multiset.cons_coe, Multiset.cons_add, ← hrest]
        exact entries_removeWaiter hlt
      · simp only [hs, Bool.not_false, if_true, Bool.false_eq_true, if_false]
        exact ih ef s (by omega)

theorem selected_subset (n : ℕ) (flags : BitVec 32) (waiters : ℕ → EventWaiter) :
    ∀ w ∈ selected n flags waiters, ∃ i < n, waiters i = w := by
  induction n generalizing flags with
  | zero => simp [selected]
  | succ n ih =>
      intro w hw
      simp only [selected] at hw
      split_ifs at hw
      · rcases List.mem_cons.mp hw with rfl | hw
        · exact ⟨n, by omega, rfl⟩
        · obtain ⟨i, hi, rfl⟩ := ih _ w hw
          exact ⟨i, by omega, rfl⟩
      · obtain ⟨i, hi, rfl⟩ := ih _ w hw
        exact ⟨i, by omega, rfl⟩

section Flags

theorem satisfied_mono {f f' mask : BitVec 32} (hf : f' &&& f = f') (h : satisfied f' mask) :
    satisfied f mask := by
  simp only [satisfied, decide_eq_true_eq] at h ⊢
  calc f &&& mask = f &&& (f' &&& mask) := by rw [h]
    _ = (f' &&& f) &&& mask := by rw [← BitVec.and_assoc, BitVec.and_comm f f']
    _ = mask := by rw [hf, h]

theorem cleared_subset (f mask : BitVec 32) : f &&& ~~~mask &&& f = f &&& ~~~mask := by
  rw [BitVec.and_comm, ← BitVec.and_assoc, BitVec.and_self]

theorem not_satisfied_cleared {f mask : BitVec 32} (hm : mask ≠ 0#32) :
    ¬ satisfied (f &&& ~~~mask) mask := by
  have hzero : f &&& ~~~mask &&& mask = 0#32 := by
    ext i
    simp
  simp only [satisfied, hzero, decide_eq_true_eq]
  exact fun h => hm h.symm

/-- The scan only ever clears flags. -/
theorem eventFlagsSetLoop_flags (n : ℕ) (ef : EventFlags) (s : Sched cfg) :
    (eventFlagsSetLoop n ef s).1.flags &&& ef.flags = (eventFlagsSetLoop n ef s).1.flags := by
  induction n generalizing ef s with
  | zero => exact BitVec.and_self
  | succ n ih =>
      simp only [eventFlagsSetLoop]
      split_ifs with hs
      · exact ih ef s
      · have hrest := ih
          (({ ef with flags := ef.flags &&& ~~~(ef.waiters n).requiredMask } :
            EventFlags).removeWaiter n)
          (s.schedulerSetTaskState (ef.waiters n).taskIndex .ready .none)
        rw [removeWaiter_flags] at hrest
        rw [← hrest, BitVec.and_assoc, cleared_subset]

/-- No entry the scan has passed is satisfied when it ends: if it was satisfied at its
turn, its own flags were cleared then. -/
theorem eventFlagsSetLoop_unsatisfied (n : ℕ) (ef : EventFlags) (s : Sched cfg)
    (hn : n ≤ ef.waiterCount) : ∀ i < n, (ef.waiters i).requiredMask ≠ 0#32 →
      ¬ satisfied (eventFlagsSetLoop n ef s).1.flags (ef.waiters i).requiredMask := by
  induction n generalizing ef s with
  | zero => simp
  | succ n ih =>
      intro i hi hmask
      simp only [eventFlagsSetLoop]
      by_cases hs : satisfied ef.flags (ef.waiters n).requiredMask
      · simp only [hs, Bool.not_true, Bool.false_eq_true, if_false]
        generalize hef : ({ ef with flags := ef.flags &&& ~~~(ef.waiters n).requiredMask } :
          EventFlags) = ef₁
        have hcount : ef₁.waiterCount = ef.waiterCount := by rw [← hef]
        have hwait : ef₁.waiters = ef.waiters := by rw [← hef]
        have hbelow : ∀ j < n, (ef₁.removeWaiter n).waiters j = ef.waiters j := fun j hj => by
          rw [removeWaiter_below ef₁ (by omega) hj, hwait]
        by_cases hin : i = n
        · subst hin
          have hsub := eventFlagsSetLoop_flags i (ef₁.removeWaiter i)
            (s.schedulerSetTaskState (ef.waiters i).taskIndex .ready .none)
          rw [removeWaiter_flags, ← hef] at hsub
          intro hsat
          rw [← hef] at hsat
          exact not_satisfied_cleared hmask (satisfied_mono hsub hsat)
        · rw [← hbelow i (by omega)]
          refine ih (ef₁.removeWaiter n) _ (by simp only [removeWaiter]; omega) i (by omega) ?_
          rwa [hbelow i (by omega)]
      · simp only [hs, Bool.not_false, if_true]
        by_cases hin : i = n
        · subst hin
          exact fun hsat => hs (satisfied_mono (eventFlagsSetLoop_flags i ef s) hsat)
        · exact ih ef s (by omega) i (by omega) hmask

end Flags

end EventFlags

/-- The whole of `event_flags_set`, for a mask that is not empty. -/
theorem EventFlags.eventFlagsSet_spec (ef : EventFlags) (s : Sched cfg) {mask : BitVec 32}
    (hm : mask ≠ 0#32) :
    ef.entries =
        (selected ef.waiterCount (ef.flags ||| mask) ef.waiters : Multiset EventWaiter) +
          (ef.eventFlagsSet s mask).1.entries ∧
      ∀ w ∈ ef.entries, w.requiredMask ≠ 0#32 →
        ¬ satisfied (ef.eventFlagsSet s mask).1.flags w.requiredMask := by
  simp only [eventFlagsSet, if_neg hm]
  refine ⟨eventFlagsSetLoop_entries _ { ef with flags := ef.flags ||| mask } s le_rfl, ?_⟩
  intro w hw hwm
  obtain ⟨i, hi, rfl⟩ := mem_entries.mp hw
  exact eventFlagsSetLoop_unsatisfied _ { ef with flags := ef.flags ||| mask } s le_rfl i hi hwm

/-- `event_flags_wait` blocks the current task and records it. -/
structure EventFlags.Parks (ef : EventFlags) (s : Sched cfg) (mask : BitVec 32)
    (r : Bool × EventFlags × Sched cfg) : Prop where
  mask_ne : mask ≠ 0#32
  unsatisfied : ¬ satisfied ef.flags mask
  room : ef.waiterCount < cfg.rtosEventMaxWaiters
  result : r.1 = false
  entries : r.2.1.entries = ⟨s.currentTaskIndex, mask⟩ ::ₘ ef.entries
  sched : r.2.2 = s.schedulerSetCurrentTaskState .blocked .event

theorem EventFlags.eventFlagsWait_cases (ef : EventFlags) (s : Sched cfg) (mask : BitVec 32) :
    ((ef.eventFlagsWait s mask).2.1.entries = ef.entries ∧ (ef.eventFlagsWait s mask).2.2 = s) ∨
      ef.Parks s mask (ef.eventFlagsWait s mask) := by
  unfold eventFlagsWait
  split_ifs with hm hs hf
  · exact .inl ⟨rfl, rfl⟩
  · exact .inl ⟨rfl, rfl⟩
  · exact .inl ⟨rfl, rfl⟩
  · exact .inr ⟨hm, hs, not_le.mp hf, rfl, SlotTable.entries_push _ _ _, rfl⟩

namespace Objects
variable (o : Objects)

@[simp] theorem setEventFlags_self (i : ℕ) : o.setEventFlags i (o.eventFlags i) = o := by
  simp [setEventFlags]

theorem setEventFlags_at (i : ℕ) (ef : EventFlags) : (o.setEventFlags i ef).eventFlags i = ef := by
  simp [setEventFlags]

theorem setEventFlags_of_ne {i j : ℕ} (h : j ≠ i) (ef : EventFlags) :
    (o.setEventFlags i ef).eventFlags j = o.eventFlags j := by
  simp [setEventFlags, h]

end Objects

/-- Calls on event flags object `i`. -/
def EventCall.onFlags (i : ℕ) : EventCall → Bool
  | .init ef | .set ef _ | .clear ef _ | .wait ef _ | .get ef => ef = some i

theorem EventCall.exec_wait (s : Sched cfg) (o : Objects) (i : ℕ) (mask : BitVec 32) :
    ((wait (some i) mask).exec s o).2.2.eventFlags i =
      ((o.eventFlags i).eventFlagsWait s mask).2.1 :=
  o.setEventFlags_at i _

theorem EventCall.exec_set (s : Sched cfg) (o : Objects) (i : ℕ) (mask : BitVec 32) :
    ((set (some i) mask).exec s o).2.2.eventFlags i =
      ((o.eventFlags i).eventFlagsSet s mask).1 :=
  o.setEventFlags_at i _

theorem EventCall.exec_clear (s : Sched cfg) (o : Objects) (i : ℕ) (mask : BitVec 32) :
    ((clear (some i) mask).exec s o).2.2.eventFlags i =
      (o.eventFlags i).eventFlagsClear mask :=
  o.setEventFlags_at i _

theorem EventCall.exec_eventFlags (s : Sched cfg) (o : Objects) {c : EventCall} {i : ℕ}
    (h : c.onFlags i = false) : (c.exec s o).2.2.eventFlags i = o.eventFlags i := by
  cases c with
  | init ef | set ef | clear ef | wait ef =>
      cases ef with
      | none => rfl
      | some j =>
          have hne : j ≠ i := by simpa [onFlags] using h
          exact o.setEventFlags_of_ne hne.symm _
  | get ef => cases ef <;> rfl

theorem SyncOutcome.eventFlags {s : Sched cfg} {o o' : Objects} {c : SyncCall} {v : Value}
    {e : Effect} (h : SyncOutcome s o c v e o') : o'.eventFlags = o.eventFlags := by
  cases h <;> rfl

theorem Machine.exec_event {m m' : Machine cfg} {c : EventCall} {v : Value}
    (h : m.exec (.event c) = some (v, m')) :
    v = (c.exec m.sched m.objects).1 ∧ m'.sched = (c.exec m.sched m.objects).2.1 ∧
      m'.objects = (c.exec m.sched m.objects).2.2 := by
  cases exec_cases h with
  | event => exact ⟨rfl, rfl, rfl⟩

/-- Only calls on an event flags object change it. -/
theorem Machine.exec_eventFlags {m m' : Machine cfg} {c : Call cfg} {v : Value} {i : ℕ}
    (h : m.exec c = some (v, m')) (hc : ∀ c', c = .event c' → c'.onFlags i = false) :
    m'.objects.eventFlags i = m.objects.eventFlags i := by
  cases exec_cases h with
  | sync hr => exact congrFun (SyncCall.exec_outcome hr).1.eventFlags i
  | @event c => exact EventCall.exec_eventFlags m.sched m.objects (hc c rfl)
  | _ => rfl

end MiniRtos
