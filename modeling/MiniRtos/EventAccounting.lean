import MiniRtos.EventRepresentation
import MiniRtos.EffectTargets

/-!
# Where every flag of an event goes

`event_flags_set` hands out the flags it finds set. The masks of the waiters it selects
share no bit, because each selection clears its own bits before the scan goes on, so a
flag is consumed once or is still set at the end. The scan order decides who wins, and
none of this depends on it.
-/
namespace MiniRtos
open TransitionSystem
variable {cfg : Config}

namespace EventFlags
variable {ef : EventFlags} {s : Sched cfg}

/-- All bits of the masks of some entries. -/
def unionMasks : List EventWaiter → BitVec 32
  | [] => 0#32
  | w :: ws => w.requiredMask ||| unionMasks ws

theorem satisfied_getLsbD {flags mask : BitVec 32} (h : satisfied flags mask) {b : ℕ}
    (hb : mask.getLsbD b) : flags.getLsbD b := by
  have hbit := congrArg (fun x => BitVec.getLsbD x b) (of_decide_eq_true h)
  simp only [BitVec.getLsbD_and, hb, Bool.and_true] at hbit
  exact hbit

theorem disjoint_of_satisfied_cleared {flags m mask : BitVec 32}
    (h : satisfied (flags &&& ~~~m) mask) : m &&& mask = 0#32 := by
  have hmask : flags &&& ~~~m &&& mask = mask := of_decide_eq_true h
  calc m &&& mask = m &&& (flags &&& ~~~m &&& mask) := by rw [hmask]
    _ = 0#32 := by
      ext b
      simp only [BitVec.getElem_and, BitVec.getElem_not, BitVec.getElem_zero]
      cases m[b] <;> simp

/-- A satisfied mask takes its flags out of those that are set. -/
theorem cleared_accounts {flags mask : BitVec 32} (h : satisfied flags mask) (b : ℕ) :
    (mask.getLsbD b).toNat + ((flags &&& ~~~mask).getLsbD b).toNat = (flags.getLsbD b).toNat := by
  have hin := satisfied_getLsbD (b := b) h
  rw [BitVec.getLsbD_and, BitVec.getLsbD_not]
  cases hm : mask.getLsbD b with
  | true => simp [hin hm]
  | false =>
      cases hf : flags.getLsbD b with
      | true => simp [BitVec.lt_of_getLsbD hf]
      | false => simp

theorem unionMasks_nil (flags : BitVec 32) : flags &&& ~~~unionMasks [] = flags := by
  rw [unionMasks, BitVec.not_zero, BitVec.and_allOnes]

theorem unionMasks_cons (flags : BitVec 32) (w : EventWaiter) (ws : List EventWaiter) :
    flags &&& ~~~unionMasks (w :: ws) = flags &&& ~~~w.requiredMask &&& ~~~unionMasks ws := by
  rw [unionMasks, BitVec.not_or, BitVec.and_assoc]

theorem selected_satisfied (n : ℕ) (flags : BitVec 32) (waiters : ℕ → EventWaiter) :
    ∀ w ∈ selected n flags waiters, satisfied flags w.requiredMask := by
  induction n generalizing flags with
  | zero => simp [selected]
  | succ n ih =>
      intro w hw
      simp only [selected] at hw
      split_ifs at hw with hs
      · rcases List.mem_cons.mp hw with hw | hw
        · rw [hw]
          exact hs
        · exact satisfied_mono (cleared_subset flags _) (ih _ w hw)
      · exact ih flags w hw

/-- The masks of the selected entries are pairwise disjoint. -/
theorem selected_disjoint (n : ℕ) (flags : BitVec 32) (waiters : ℕ → EventWaiter) :
    (selected n flags waiters).Pairwise fun v w => v.requiredMask &&& w.requiredMask = 0#32 := by
  induction n generalizing flags with
  | zero => exact .nil
  | succ n ih =>
      simp only [selected]
      split_ifs with hs
      · refine List.pairwise_cons.mpr ⟨fun w hw => ?_, ih _⟩
        exact disjoint_of_satisfied_cleared (selected_satisfied n _ waiters w hw)
      · exact ih flags

/-- The flags left by the scan: those of the selected masks are cleared. -/
theorem eventFlagsSetLoop_flags_eq (n : ℕ) (ef : EventFlags) (s : Sched cfg)
    (hn : n ≤ ef.waiterCount) :
    (eventFlagsSetLoop n ef s).1.flags =
      ef.flags &&& ~~~unionMasks (selected n ef.flags ef.waiters) := by
  induction n generalizing ef s with
  | zero => exact (unionMasks_nil ef.flags).symm
  | succ n ih =>
      simp only [eventFlagsSetLoop, selected]
      by_cases hs : satisfied ef.flags (ef.waiters n).requiredMask
      · simp only [hs, Bool.not_true, Bool.false_eq_true, if_false, if_true]
        generalize hef : ({ ef with flags := ef.flags &&& ~~~(ef.waiters n).requiredMask } :
          EventFlags) = ef₁
        have hcount : ef₁.waiterCount = ef.waiterCount := by rw [← hef]
        have hwait : ef₁.waiters = ef.waiters := by rw [← hef]
        have hflags : ef₁.flags = ef.flags &&& ~~~(ef.waiters n).requiredMask := by rw [← hef]
        have hbelow : ∀ j < n, (ef₁.removeWaiter n).waiters j = ef.waiters j := fun j hj => by
          rw [removeWaiter_below ef₁ (by omega) hj, hwait]
        rw [ih _ _ (by simp only [removeWaiter]; omega), removeWaiter_flags, hflags,
          selected_congr hbelow, unionMasks_cons]
      · simp only [hs, Bool.not_false, if_true, Bool.false_eq_true, if_false]
        exact ih ef s (by omega)

/-- A flag that was available went to one selected entry or is still there. -/
theorem selected_accounts (n : ℕ) (flags : BitVec 32) (waiters : ℕ → EventWaiter) (b : ℕ) :
    (selected n flags waiters).countP (fun w => w.requiredMask.getLsbD b) +
      ((flags &&& ~~~unionMasks (selected n flags waiters)).getLsbD b).toNat =
        (flags.getLsbD b).toNat := by
  induction n generalizing flags with
  | zero => simp only [selected, List.countP_nil, unionMasks_nil, Nat.zero_add]
  | succ n ih =>
      simp only [selected]
      split_ifs with hs
      · have hrest := ih (flags &&& ~~~(waiters n).requiredMask)
        have hhead := cleared_accounts hs b
        rw [unionMasks_cons, List.countP_cons]
        cases hb : (waiters n).requiredMask.getLsbD b with
        | true =>
            rw [hb, Bool.toNat_true] at hhead
            rw [if_pos rfl]
            omega
        | false =>
            rw [hb, Bool.toNat_false] at hhead
            rw [if_neg (by simp)]
            omega
      · exact ih flags

/-- What `event_flags_set` has done, with the entries it has woken. -/
structure Accounts (ef : EventFlags) (s : Sched cfg) (mask : BitVec 32)
    (woken : List EventWaiter) (r : EventFlags × Sched cfg) : Prop where
  entries : ef.entries = (woken : Multiset EventWaiter) + r.1.entries
  disjoint : woken.Pairwise fun v w => v.requiredMask &&& w.requiredMask = 0#32
  contained : ∀ w ∈ woken, (ef.flags ||| mask) &&& w.requiredMask = w.requiredMask
  flags : r.1.flags = (ef.flags ||| mask) &&& ~~~unionMasks woken
  /-- Every flag that was available went to exactly one woken waiter or is still set. -/
  bits : ∀ b, woken.countP (fun w => w.requiredMask.getLsbD b) + (r.1.flags.getLsbD b).toNat =
    ((ef.flags ||| mask).getLsbD b).toNat
  maximal : ∀ e ∈ r.1.entries, r.1.flags &&& e.requiredMask ≠ e.requiredMask
  ready : ∀ w ∈ woken, r.2.status w.taskIndex.toNat = (.ready, .none)
  others : ∀ i < s.taskCount, (∀ w ∈ woken, w.taskIndex ≠ i) → r.2.taskList i = s.taskList i

theorem eventFlagsSet_sched (ef : EventFlags) (s : Sched cfg) {mask : BitVec 32}
    (hm : mask ≠ 0#32) :
    (ef.eventFlagsSet s mask).2 =
      Effect.apply s (.wake
        ((selected ef.waiterCount (ef.flags ||| mask) ef.waiters).map (·.taskIndex))) := by
  simp only [eventFlagsSet, if_neg hm]
  exact eventFlagsSetLoop_sched _ { ef with flags := ef.flags ||| mask } s le_rfl

theorem eventFlagsSet_flags (ef : EventFlags) (s : Sched cfg) {mask : BitVec 32}
    (hm : mask ≠ 0#32) :
    (ef.eventFlagsSet s mask).1.flags = (ef.flags ||| mask) &&&
      ~~~unionMasks (selected ef.waiterCount (ef.flags ||| mask) ef.waiters) := by
  simp only [eventFlagsSet, if_neg hm]
  exact eventFlagsSetLoop_flags_eq _ { ef with flags := ef.flags ||| mask } s le_rfl

/-- `event_flags_set` accounts for every flag, every entry and every task. -/
theorem eventFlagsSet_accounts (ef : EventFlags) (s : Sched cfg) (mask : BitVec 32)
    (hrep : ef.Represented cfg) (hm : mask ≠ 0#32)
    (hindex : ∀ e ∈ ef.entries, 0 ≤ e.taskIndex ∧ e.taskIndex < s.taskCount) :
    ∃ woken, Accounts ef s mask woken (ef.eventFlagsSet s mask) := by
  obtain ⟨hentries, hsat⟩ := ef.eventFlagsSet_spec s hm
  have hflags := ef.eventFlagsSet_flags s hm
  have hsched := ef.eventFlagsSet_sched s hm
  have hkept : ∀ e ∈ (ef.eventFlagsSet s mask).1.entries, e ∈ ef.entries := by
    intro e he
    rw [hentries]
    exact Multiset.mem_add.mpr (.inr he)
  refine ⟨selected ef.waiterCount (ef.flags ||| mask) ef.waiters, ?_⟩
  constructor
  · exact hentries
  · exact selected_disjoint _ _ _
  · intro w hw
    exact of_decide_eq_true (selected_satisfied _ _ _ w hw)
  · exact hflags
  · intro b
    rw [hflags]
    exact selected_accounts _ _ _ b
  · intro e he hsatisfied
    exact hsat e (hkept e he) (hrep.entry e (hkept e he)).1 (decide_eq_true hsatisfied)
  · intro w hw
    obtain ⟨k, hk, hslot⟩ := selected_subset _ _ _ w hw
    obtain ⟨hpos, hlt⟩ := hindex w (mem_entries.mpr ⟨k, hk, hslot⟩)
    rw [hsched, Sched.wake_status, if_pos]
    refine ⟨?_, by omega⟩
    rw [Int.toNat_of_nonneg hpos]
    exact List.mem_map_of_mem hw
  · intro i hi hother
    rw [hsched]
    refine Effect.apply_taskList_of_not_target _ hi fun hm => ?_
    obtain ⟨w, hw, he⟩ := List.mem_map.mp hm
    exact hother w hw he

/-- Both tasks of the run that waits for flags 1 and 2 are parked. -/
def bothParked : System Config.default :=
  (played step (System.after _ [.call (.event (.init (some 0)))]).2 twoWaitersRun.dropLast).2

theorem bothParked_represented :
    (bothParked.machine.objects.eventFlags 0).Represented .default where
  count_le := by decide +kernel
  mask_ne := by decide +kernel
  free := by
    have hfree : ∀ w < Config.default.rtosEventMaxWaiters,
        (bothParked.machine.objects.eventFlags 0).waiterCount ≤ w →
          (bothParked.machine.objects.eventFlags 0).waiters w = ⟨-1, 0#32⟩ := by
      decide +kernel
    exact fun w hle hlt => hfree w hlt hle
  unsatisfied := by decide +kernel

/-- Flags 2 and 4 are set: one of the two tasks goes on, and flag 4 stays. -/
theorem eventFlagsSet_accounts_bothParked :
    ∃ woken, Accounts (bothParked.machine.objects.eventFlags 0) bothParked.machine.sched 6#32 woken
      ((bothParked.machine.objects.eventFlags 0).eventFlagsSet bothParked.machine.sched 6#32) := by
  refine eventFlagsSet_accounts _ _ _ bothParked_represented (by decide) fun e he => ?_
  obtain ⟨k, hk, rfl⟩ := mem_entries.mp he
  have hindex : ∀ k < (bothParked.machine.objects.eventFlags 0).waiterCount,
      0 ≤ ((bothParked.machine.objects.eventFlags 0).waiters k).taskIndex ∧
        ((bothParked.machine.objects.eventFlags 0).waiters k).taskIndex <
          bothParked.machine.sched.taskCount := by
    decide +kernel
  exact hindex k hk

end EventFlags

end MiniRtos
