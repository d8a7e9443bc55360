import MiniRtos.EventAccounting
import MiniRtos.PendingCover
import Mathlib.Algebra.BigOperators.Group.List.Basic

/-!
# What is handed out was there or was brought in

Two balances over whole runs, whoever makes the calls and in whatever order. The units
of a semaphore, a mutex or a queue that calls took are those that were there at the start
and those that calls gave back, less what is left. A flag of an event reaches one waiter:
the task that is taken out of the table for it and made READY, or the caller that finds it
set. An entry that was recorded while no task was current takes a flag to nobody.
-/
namespace MiniRtos
open TransitionSystem
variable {cfg : Config}

namespace Resource
variable (r : Resource)

/-- The call starts the object of the resource afresh. -/
def initialisedBy (c : SyncCall) : Bool := c.initialises && c.kind = r.kind && c.index = r.index

/-- The call takes a unit. The owner that locks a mutex again takes nothing. -/
def takenBy (cfg : Config) (o : Objects) (c : SyncCall) (v : Value) : Bool :=
  r.askedBy c && !v.refused && r.available cfg o ≠ 0

/-- The call gives a unit back. -/
def givenBy (s : Sched cfg) (o : Objects) : Resource → SyncCall → Value → Bool
  | .semaphore i, .semSignal j, _ => j = i
  | .mutex i, .mutexUnlock j, _ =>
      j = i && (o.mutexes i).locked && s.ownsMutex (o.mutexes i)
  | .items i, .queueSend j _, v => j = i && !v.refused
  | .slots i, .queueReceive j, v => j = i && !v.refused
  | _, _, _ => false

def initialised (e : Edge cfg) : Bool :=
  match e.act with
  | .call (.sync c) => r.initialisedBy c
  | _ => false

def taken (e : Edge cfg) : Bool :=
  match e.act, e.obs with
  | .call (.sync c), .returned v => r.takenBy cfg e.src.machine.objects c v
  | _, _ => false

def given (e : Edge cfg) : Bool :=
  match e.act, e.obs with
  | .call (.sync c), .returned v => givenBy e.src.machine.sched e.src.machine.objects r c v
  | _, _ => false

/-- A unit is given back where `INT_MAX` of them are available already: the addition
overflows. -/
def givenAtMax (e : Edge cfg) : Bool :=
  r.given e && r.available cfg e.src.machine.objects = 2 ^ 31 - 1

/-- What a call does to the units that are left. -/
def Balanced (s : Sched cfg) (o : Objects) (c : SyncCall) (v : Value) (o' : Objects) : Prop :=
  r.available cfg o' + (r.takenBy cfg o c v).toNat =
      r.available cfg o + (givenBy s o r c v).toNat ∧
    (0 ≤ r.available cfg o → 0 ≤ r.available cfg o')

end Resource

section Balance
variable {s : Sched cfg} {o o' : Objects} {c : SyncCall} {v : Value} {e : Effect} {r : Resource}

namespace Resource

theorem kind_index_of_askedBy (h : r.askedBy c) : c.kind = r.kind ∧ r.index = c.index := by
  refine ⟨kind_of_askedBy h, ?_⟩
  simp only [askedBy, decide_eq_true_eq] at h
  cases c <;> simp_all [SyncCall.awaits, SyncCall.index]

theorem kind_index_of_givenBy (h : givenBy s o r c v) : c.kind = r.kind ∧ r.index = c.index := by
  cases r <;> cases c <;> simp_all [givenBy, kind, index, SyncCall.kind, SyncCall.index]

theorem Balanced.unchanged (htaken : r.takenBy cfg o c v = false)
    (hgiven : givenBy s o r c v = false) (h : r.available cfg o' = r.available cfg o) :
    r.Balanced s o c v o' := by
  refine ⟨?_, fun hpos => h ▸ hpos⟩
  rw [htaken, hgiven, h]

theorem Balanced.took (hask : r.askedBy c) (hv : v.refused = false)
    (hne : r.available cfg o ≠ 0) (hgiven : givenBy s o r c v = false)
    (h : r.available cfg o' = r.available cfg o - 1) : r.Balanced s o c v o' := by
  have htaken : r.takenBy cfg o c v = true := by simp [takenBy, hask, hv, hne]
  rw [Balanced, htaken, hgiven, h, Bool.toNat_true, Bool.toNat_false]
  omega

theorem Balanced.gave (hask : r.askedBy c = false) (hgiven : givenBy s o r c v)
    (h : r.available cfg o' = r.available cfg o + 1) : r.Balanced s o c v o' := by
  have htaken : r.takenBy cfg o c v = false := by simp [takenBy, hask]
  rw [Balanced, htaken, hgiven, h, Bool.toNat_true, Bool.toNat_false]
  omega

end Resource

theorem SyncOutcome.available_of_ne (h : SyncOutcome s o c v e o')
    (hne : c.kind = r.kind → r.index ≠ c.index) : r.available cfg o' = r.available cfg o := by
  cases r with
  | semaphore j =>
      cases h with
      | semaphoreInit | semTaken | semSignalled =>
          exact congrArg Semaphore.count (Function.update_of_ne (hne rfl) _ _)
      | _ => rfl
  | mutex j =>
      cases h with
      | mutexInit | mutexTaken | mutexReleased =>
          exact congrArg (fun m : Mutex => if m.locked then (0 : ℤ) else 1)
            (Function.update_of_ne (hne rfl) _ _)
      | _ => rfl
  | items j =>
      cases h with
      | queueInit | queueSent | queueReceived =>
          exact congrArg MessageQueue.count (Function.update_of_ne (hne rfl) _ _)
      | _ => rfl
  | slots j =>
      cases h with
      | queueInit | queueSent | queueReceived =>
          exact congrArg (fun q : MessageQueue => (cfg.rtosQueueSize : ℤ) - q.count)
            (Function.update_of_ne (hne rfl) _ _)
      | _ => rfl

/-- A call on another object. -/
theorem SyncOutcome.balanced_of_ne (h : SyncOutcome s o c v e o')
    (hne : c.kind = r.kind → r.index ≠ c.index) : r.Balanced s o c v o' := by
  have hask : r.askedBy c = false := by
    by_contra ha
    obtain ⟨hk, hi⟩ := Resource.kind_index_of_askedBy (Bool.not_eq_false _ ▸ ha)
    exact hne hk hi
  have hgive : Resource.givenBy s o r c v = false := by
    by_contra hg
    obtain ⟨hk, hi⟩ := Resource.kind_index_of_givenBy (Bool.not_eq_false _ ▸ hg)
    exact hne hk hi
  exact .unchanged (by simp [Resource.takenBy, hask]) hgive (h.available_of_ne hne)

theorem SyncOutcome.balanced_of_semaphore (h : SyncOutcome s o c v e o')
    (hk : c.kind = .semaphore) (hn : c.initialises = false) :
    (Resource.semaphore c.index).Balanced s o c v o' := by
  cases h with
  | semaphoreInit => cases hn
  | @semTaken i hpos =>
      refine .took (decide_eq_true rfl) rfl hpos.ne' rfl ?_
      simp [Resource.available, SyncCall.index, Objects.setSemaphore]
  | semRefused => exact .unchanged (by simp [Resource.takenBy, Value.refused]) rfl rfl
  | semSignalled =>
      refine .gave rfl (by simp [Resource.givenBy, SyncCall.index]) ?_
      simp [Resource.available, SyncCall.index, Objects.setSemaphore]
  | _ => cases hk

theorem SyncOutcome.balanced_of_mutex (h : SyncOutcome s o c v e o')
    (hk : c.kind = .mutex) (hn : c.initialises = false) :
    (Resource.mutex c.index).Balanced s o c v o' := by
  cases h with
  | mutexInit => cases hn
  | mutexTaken hl =>
      refine .took (decide_eq_true rfl) rfl ?_ rfl ?_
      · simp [Resource.available, SyncCall.index, hl]
      · simp [Resource.available, SyncCall.index, Objects.setMutex, hl]
  | mutexHeld hl =>
      refine .unchanged ?_ rfl rfl
      simp [Resource.takenBy, Resource.available, SyncCall.index, hl]
  | mutexRefused => exact .unchanged (by simp [Resource.takenBy, Value.refused]) rfl rfl
  | mutexReleased hl ho =>
      refine .gave rfl (by simp [Resource.givenBy, SyncCall.index, hl, ho]) ?_
      simp [Resource.available, SyncCall.index, Objects.setMutex, hl]
  | mutexIgnored hignored =>
      refine .unchanged rfl ?_ rfl
      simp only [Resource.givenBy, SyncCall.index, decide_true, Bool.true_and, hignored]
  | _ => cases hk

theorem SyncOutcome.balanced_of_items (h : SyncOutcome s o c v e o')
    (hk : c.kind = .queue) (hn : c.initialises = false) :
    (Resource.items c.index).Balanced s o c v o' := by
  cases h with
  | queueInit => cases hn
  | queueSent =>
      refine .gave rfl (by simp [Resource.givenBy, SyncCall.index, Value.refused]) ?_
      simp [Resource.available, SyncCall.index, Objects.setQueue]
  | queueFull =>
      refine .unchanged rfl ?_ rfl
      simp [Resource.givenBy, Value.refused]
  | queueReceived hne =>
      refine .took (decide_eq_true rfl) rfl hne rfl ?_
      simp [Resource.available, SyncCall.index, Objects.setQueue]
  | queueEmpty => exact .unchanged (by simp [Resource.takenBy, Value.refused]) rfl rfl
  | _ => cases hk

theorem SyncOutcome.balanced_of_slots (h : SyncOutcome s o c v e o')
    (hk : c.kind = .queue) (hn : c.initialises = false) :
    (Resource.slots c.index).Balanced s o c v o' := by
  cases h with
  | queueInit => cases hn
  | queueSent hne =>
      refine .took (decide_eq_true rfl) rfl ?_ rfl ?_
      · simp only [Resource.available, SyncCall.index]
        omega
      · simp only [Resource.available, SyncCall.index, Objects.setQueue, Function.update_self]
        omega
  | queueFull => exact .unchanged (by simp [Resource.takenBy, Value.refused]) rfl rfl
  | queueReceived =>
      refine .gave rfl (by simp [Resource.givenBy, SyncCall.index, Value.refused]) ?_
      simp only [Resource.available, SyncCall.index, Objects.setQueue, Function.update_self]
      omega
  | queueEmpty =>
      refine .unchanged rfl ?_ rfl
      simp [Resource.givenBy, Value.refused]
  | _ => cases hk

/-- Every call but an initialisation of the object keeps its books. -/
theorem SyncOutcome.balanced (h : SyncOutcome s o c v e o')
    (hn : r.initialisedBy c = false) : r.Balanced s o c v o' := by
  by_cases hon : c.kind = r.kind ∧ r.index = c.index
  · obtain ⟨hk, hi⟩ := hon
    have hn' : c.initialises = false := by
      simpa [Resource.initialisedBy, hk, hi] using hn
    cases r with
    | semaphore i =>
        obtain rfl := hi
        exact h.balanced_of_semaphore hk hn'
    | mutex i =>
        obtain rfl := hi
        exact h.balanced_of_mutex hk hn'
    | items i =>
        obtain rfl := hi
        exact h.balanced_of_items hk hn'
    | slots i =>
        obtain rfl := hi
        exact h.balanced_of_slots hk hn'
  · exact h.balanced_of_ne fun hk hi => hon ⟨hk, hi⟩

end Balance

theorem StepCases.balanced {u w : System cfg} {a : Action cfg} {o : Observation cfg}
    (h : StepCases u a o w) (r : Resource)
    (hn : r.initialised (⟨u, a, o, w⟩ : Edge cfg) = false) :
    r.available cfg w.machine.objects + (r.taken (⟨u, a, o, w⟩ : Edge cfg)).toNat =
        r.available cfg u.machine.objects + (r.given (⟨u, a, o, w⟩ : Edge cfg)).toNat ∧
      (0 ≤ r.available cfg u.machine.objects → 0 ≤ r.available cfg w.machine.objects) := by
  by_cases hc : ∃ c, a = .call (.sync c)
  · obtain ⟨c, rfl⟩ := hc
    cases h with
    | call _ hexec => exact (Machine.exec_sync hexec).balanced hn
  · push Not at hc
    have hsame : r.available cfg w.machine.objects = r.available cfg u.machine.objects := by
      cases h with
      | call _ hexec =>
          exact r.available_call hexec fun c he => absurd (congrArg Action.call he) (hc c)
      | _ => rfl
    have hno : r.taken (⟨u, a, o, w⟩ : Edge cfg) = false ∧
        r.given (⟨u, a, o, w⟩ : Edge cfg) = false := by
      unfold Resource.taken Resource.given
      constructor <;> split <;> first | rfl | exact absurd ‹_› (hc _)
    rw [hsame, hno.1, hno.2]
    exact ⟨rfl, id⟩

/-- The number of units is an `int` after the step if none is given back at `INT_MAX`. -/
theorem StepCases.available_lt {u w : System cfg} {a : Action cfg} {o : Observation cfg}
    (h : StepCases u a o w) {r : Resource}
    (hn : r.initialised (⟨u, a, o, w⟩ : Edge cfg) = false)
    (hmax : r.givenAtMax (⟨u, a, o, w⟩ : Edge cfg) = false)
    (hu : r.available cfg u.machine.objects < 2 ^ 31) :
    r.available cfg w.machine.objects < 2 ^ 31 := by
  have hbalance := (h.balanced r hn).1
  cases hg : r.given (⟨u, a, o, w⟩ : Edge cfg) with
  | false =>
      rw [hg, Bool.toNat_false] at hbalance
      omega
  | true =>
      have hne : r.available cfg u.machine.objects ≠ 2 ^ 31 - 1 := by
        simpa [Resource.givenAtMax, hg] using hmax
      rw [hg, Bool.toNat_true] at hbalance
      omega

/-- Over any run in which the object is not initialised anew and no unit is given back to
`INT_MAX` others, the units that calls took and those that are left are those that were
there and those that calls gave back. They never become fewer than none if there were not
fewer at the start, and their number remains an `int`. -/
theorem resource_conserved {s v : System cfg} {tr : History cfg} (h : Run step s tr v)
    (r : Resource) (hinit : ∀ e ∈ tr, r.initialised e = false)
    (hmax : ∀ e ∈ tr, r.givenAtMax e = false) :
    r.available cfg v.machine.objects + tr.countP r.taken =
        r.available cfg s.machine.objects + tr.countP r.given ∧
      (0 ≤ r.available cfg s.machine.objects → 0 ≤ r.available cfg v.machine.objects) ∧
        (r.available cfg s.machine.objects < 2 ^ 31 →
          r.available cfg v.machine.objects < 2 ^ 31) := by
  refine ⟨?_, fun h₀ => ?_, fun h₀ => ?_⟩
  · rw [← sum_toNat, ← sum_toNat]
    refine h.balance (fun u => r.available cfg u.machine.objects) _ _ hinit ?_
    intro u a o w hn hs
    exact ((step_cases hs).balanced r hn).1
  · refine h.invariant_on (P := fun u => 0 ≤ r.available cfg u.machine.objects) h₀ hinit ?_
    intro u a o w hu hn hs
    exact ((step_cases hs).balanced r hn).2 hu
  · have hok : ∀ e ∈ tr, r.initialised e = false ∧ r.givenAtMax e = false := fun e he =>
      ⟨hinit e he, hmax e he⟩
    refine h.invariant_on (P := fun u => r.available cfg u.machine.objects < 2 ^ 31) h₀ hok ?_
    intro u a o w hu hok hs
    exact (step_cases hs).available_lt hok.1 hok.2 hu

section Flags

/-- The entry names a task of the table. -/
def EventWaiter.NamesTask (s : Sched cfg) (w : EventWaiter) : Prop :=
  0 ≤ w.taskIndex ∧ w.taskIndex < s.taskCount

instance (s : Sched cfg) (w : EventWaiter) : Decidable (w.NamesTask s) :=
  inferInstanceAs (Decidable (_ ∧ _))

/-- The entry names a task, and that task is READY. -/
def EventWaiter.Awake (s : Sched cfg) (w : EventWaiter) : Prop :=
  w.NamesTask s ∧ s.status w.taskIndex.toNat = (.ready, .none)

instance (s : Sched cfg) (w : EventWaiter) : Decidable (w.Awake s) :=
  inferInstanceAs (Decidable (_ ∧ _))

variable (i b : ℕ)

/-- Whether flag `b` of event `i` is set, as a number. -/
def flagLevel (u : System cfg) : ℕ := ((u.machine.objects.eventFlags i).flags.getLsbD b).toNat

/-- How often the step sets the flag. -/
def flagRaised (e : Edge cfg) : ℕ :=
  match e.act with
  | .call (.event (.set (some j) mask)) => (j = i && mask.getLsbD b).toNat
  | _ => 0

/-- The entries that `event_flags_set` takes out of the table of event `i`. -/
def entriesTaken (e : Edge cfg) : Multiset EventWaiter :=
  match e.act with
  | .call (.event (.set (some j) _)) =>
      if j = i then
        (e.src.machine.objects.eventFlags i).entries - (e.dst.machine.objects.eventFlags i).entries
      else 0
  | _ => 0

/-- Whether the step is a call of `event_flags_wait` that takes the flag, as a number. -/
def flagTaken (e : Edge cfg) : ℕ :=
  match e.act, e.obs with
  | .call (.event (.wait (some j) mask)), .returned (.bool true) =>
      (j = i && mask.getLsbD b).toNat
  | _, _ => 0

/-- How many waiters the step gives the flag to: those whose entries it takes out of the
table for it and which are READY then, or the caller that finds its mask set. -/
def flagServed (e : Edge cfg) : ℕ :=
  ((entriesTaken i e).filter (·.Awake e.dst.machine.sched)).countP
    (fun w => w.requiredMask.getLsbD b) + flagTaken i b e

/-- How many entries the step takes out of the table for the flag that name no task. -/
def flagLost (e : Edge cfg) : ℕ :=
  ((entriesTaken i e).filter (¬ ·.NamesTask e.dst.machine.sched)).countP
    fun w => w.requiredMask.getLsbD b

/-- How often the step sets the flag although it is set, or clears it. -/
def flagDropped (e : Edge cfg) : ℕ :=
  match e.act with
  | .call (.event (.set (some j) mask)) | .call (.event (.clear (some j) mask)) =>
      (j = i && mask.getLsbD b && (e.src.machine.objects.eventFlags i).flags.getLsbD b).toNat
  | _ => 0

/-- The step initialises event `i`. -/
def flagsInitialised (e : Edge cfg) : Bool := e.act = .call (.event (.init (some i)))

end Flags

namespace EventFlags
variable {ef : EventFlags} {s : Sched cfg} {mask : BitVec 32}

theorem toNat_getLsbD_or (f m : BitVec 32) (b : ℕ) :
    ((f ||| m).getLsbD b).toNat + (m.getLsbD b && f.getLsbD b).toNat =
      (f.getLsbD b).toNat + (m.getLsbD b).toNat := by
  rw [BitVec.getLsbD_or]
  cases f.getLsbD b <;> cases m.getLsbD b <;> rfl

theorem toNat_getLsbD_clear (f m : BitVec 32) (b : ℕ) :
    ((f &&& ~~~m).getLsbD b).toNat + (m.getLsbD b && f.getLsbD b).toNat =
      (f.getLsbD b).toNat := by
  rw [BitVec.getLsbD_and, BitVec.getLsbD_not]
  cases hf : f.getLsbD b with
  | false => simp
  | true =>
      have hlt := BitVec.lt_of_getLsbD hf
      cases m.getLsbD b <;> simp [hlt]

/-- The task of every entry that is taken out is READY afterwards. -/
theorem eventFlagsSet_awake (ef : EventFlags) (s : Sched cfg) (mask : BitVec 32) :
    ∀ w ∈ ef.entries - (ef.eventFlagsSet s mask).1.entries,
      (w.Awake (ef.eventFlagsSet s mask).2 ↔ w.NamesTask (ef.eventFlagsSet s mask).2) := by
  intro w hw
  by_cases hm : mask = 0#32
  · have hsame : (ef.eventFlagsSet s mask).1 = ef := by simp [eventFlagsSet, hm]
    have hnone := Multiset.add_sub_cancel_right (s := 0) (t := ef.entries)
    rw [Multiset.zero_add] at hnone
    rw [hsame, hnone] at hw
    cases Multiset.notMem_zero w hw
  rw [(ef.eventFlagsSet_spec s hm).1, Multiset.add_sub_cancel_right, Multiset.mem_coe] at hw
  rw [ef.eventFlagsSet_sched s hm, EventWaiter.Awake, and_iff_left_iff_imp]
  rintro ⟨hpos, hlt⟩
  rw [Effect.apply_taskCount _ (by simp)] at hlt
  rw [Sched.wake_status, if_pos]
  refine ⟨?_, by omega⟩
  rw [Int.toNat_of_nonneg hpos]
  exact List.mem_map_of_mem hw

/-- `event_flags_set` gives a flag to at most one of the entries it takes out, and it
makes the task of that entry READY unless the entry names none. -/
theorem eventFlagsSet_served (ef : EventFlags) (s : Sched cfg) (mask : BitVec 32) (b : ℕ) :
    let r := ef.eventFlagsSet s mask
    ((ef.entries - r.1.entries).filter (·.Awake r.2)).countP
        (fun w => w.requiredMask.getLsbD b) +
      ((ef.entries - r.1.entries).filter (¬ ·.NamesTask r.2)).countP
        (fun w => w.requiredMask.getLsbD b) + (r.1.flags.getLsbD b).toNat =
      ((ef.flags ||| mask).getLsbD b).toNat := by
  intro r
  rw [Multiset.filter_congr (ef.eventFlagsSet_awake s mask),
    ← Multiset.countP_eq_countP_filter_add]
  by_cases hm : mask = 0#32
  · simp [r, eventFlagsSet, hm]
  · rw [(ef.eventFlagsSet_spec s hm).1, Multiset.add_sub_cancel_right, Multiset.coe_countP,
      ef.eventFlagsSet_flags s hm]
    simpa only [Bool.decide_eq_true] using selected_accounts _ _ _ b

theorem eventFlagsWait_served (ef : EventFlags) (s : Sched cfg) (mask : BitVec 32) (b : ℕ) :
    ((ef.eventFlagsWait s mask).2.1.flags.getLsbD b).toNat +
        ((ef.eventFlagsWait s mask).1 && mask.getLsbD b).toNat =
      (ef.flags.getLsbD b).toNat := by
  unfold eventFlagsWait
  split_ifs with hm hs
  · simp
  · have hcleared := cleared_accounts hs b
    simp only [Bool.true_and]
    omega
  · simp
  · simp

end EventFlags

section FlagSteps
variable {u w : System cfg} {a : Action cfg} {o : Observation cfg} {i b : ℕ}

/-- What a step leaves and uses of the flag is what there was and what it brings in. -/
def FlagBalanced (i b : ℕ) (e : Edge cfg) : Prop :=
  flagLevel i b e.dst + (flagServed i b e + flagLost i b e + flagDropped i b e) =
    flagLevel i b e.src + flagRaised i b e

theorem flagTaken_wait (i b : ℕ) (mask : BitVec 32) (result : Bool) (u w : System cfg) :
    flagTaken i b ⟨u, .call (.event (.wait (some i) mask)), .returned (.bool result), w⟩ =
      (result && mask.getLsbD b).toNat := by
  cases result <;> simp [flagTaken]

/-- Only `event_flags_set` takes entries out. -/
theorem flagServed_of_entriesTaken {e : Edge cfg} (h : entriesTaken i e = 0) :
    flagServed i b e = flagTaken i b e ∧ flagLost i b e = 0 := by
  simp [flagServed, flagLost, h]

/-- A step that is no call on the event. -/
theorem flagBalanced_of_same
    (hc : ∀ c, a = .call (.event c) → c.onFlags i = false)
    (hsame : w.machine.objects.eventFlags i = u.machine.objects.eventFlags i) :
    FlagBalanced i b (⟨u, a, o, w⟩ : Edge cfg) := by
  have hraised : flagRaised i b (⟨u, a, o, w⟩ : Edge cfg) = 0 := by
    unfold flagRaised
    split
    · next j mask ha =>
      have hne : j ≠ i := by simpa [EventCall.onFlags] using hc _ ha
      simp [hne]
    · rfl
  have hdropped : flagDropped i b (⟨u, a, o, w⟩ : Edge cfg) = 0 := by
    unfold flagDropped
    split
    · next j mask ha =>
      have hne : j ≠ i := by simpa [EventCall.onFlags] using hc _ ha
      simp [hne]
    · next j mask ha =>
      have hne : j ≠ i := by simpa [EventCall.onFlags] using hc _ ha
      simp [hne]
    · rfl
  have hentries : entriesTaken i (⟨u, a, o, w⟩ : Edge cfg) = 0 := by
    unfold entriesTaken
    split
    · next j mask ha =>
      have hne : j ≠ i := by simpa [EventCall.onFlags] using hc _ ha
      simp [hne]
    · rfl
  have htaken : flagTaken i b (⟨u, a, o, w⟩ : Edge cfg) = 0 := by
    unfold flagTaken
    split
    · next j mask ha _ =>
      have hne : j ≠ i := by simpa [EventCall.onFlags] using hc _ ha
      simp [hne]
    · rfl
  obtain ⟨hserved, hlost⟩ := flagServed_of_entriesTaken (b := b) hentries
  rw [FlagBalanced, hraised, hdropped, hserved, hlost, htaken, flagLevel, flagLevel, hsame]

theorem EventCall.flagBalanced {c : EventCall} {v : Value} {m : Machine cfg}
    (hexec : u.machine.exec (.event c) = some (v, m)) (hc : c ≠ .init (some i))
    (hon : c.onFlags i) :
    FlagBalanced i b ⟨u, .call (.event c), .returned v, { u with machine := m }⟩ := by
  obtain ⟨rfl, hsched, hobjects⟩ := Machine.exec_event hexec
  cases c with
  | init ef =>
      obtain rfl : ef = some i := by simpa [onFlags] using hon
      exact absurd rfl hc
  | get ef =>
      obtain rfl : ef = some i := by simpa [onFlags] using hon
      obtain ⟨hserved, hlost⟩ := flagServed_of_entriesTaken (i := i) (b := b)
        (e := ⟨u, .call (.event (.get (some i))), _, { u with machine := m }⟩) rfl
      rw [FlagBalanced, hserved, hlost]
      simp only [flagLevel, hobjects]
      rfl
  | set ef mask =>
      obtain rfl : ef = some i := by simpa [onFlags] using hon
      have hserved := (u.machine.objects.eventFlags i).eventFlagsSet_served u.machine.sched mask b
      have hor := EventFlags.toNat_getLsbD_or (u.machine.objects.eventFlags i).flags mask b
      have hafter : m.sched =
          ((u.machine.objects.eventFlags i).eventFlagsSet u.machine.sched mask).2 := hsched
      simp only [FlagBalanced, flagLevel, flagServed, flagLost, flagTaken, entriesTaken,
        flagDropped, flagRaised, hobjects, hafter, exec_set, if_true, decide_true, Bool.true_and]
      omega
  | clear ef mask =>
      obtain rfl : ef = some i := by simpa [onFlags] using hon
      have hclear := EventFlags.toNat_getLsbD_clear (u.machine.objects.eventFlags i).flags mask b
      obtain ⟨hserved, hlost⟩ := flagServed_of_entriesTaken (i := i) (b := b)
        (e := ⟨u, .call (.event (.clear (some i) mask)), _, { u with machine := m }⟩) rfl
      rw [FlagBalanced, hserved, hlost]
      simp only [flagLevel, flagTaken, flagDropped, flagRaised, hobjects,
        exec_clear, EventFlags.eventFlagsClear, decide_true, Bool.true_and]
      omega
  | wait ef mask =>
      obtain rfl : ef = some i := by simpa [onFlags] using hon
      have hserved := (u.machine.objects.eventFlags i).eventFlagsWait_served u.machine.sched mask b
      have hvalue : ((wait (some i) mask).exec u.machine.sched u.machine.objects).1 =
        .bool ((u.machine.objects.eventFlags i).eventFlagsWait u.machine.sched mask).1 := rfl
      obtain ⟨hwaited, hlost⟩ := flagServed_of_entriesTaken (i := i) (b := b)
        (e := ⟨u, .call (.event (.wait (some i) mask)), _, { u with machine := m }⟩) rfl
      rw [FlagBalanced, hwaited, hlost, hvalue, flagTaken_wait]
      simp only [flagLevel, flagDropped, flagRaised, hobjects, exec_wait]
      omega

theorem StepCases.flagBalanced (h : StepCases u a o w)
    (hn : flagsInitialised i (⟨u, a, o, w⟩ : Edge cfg) = false) :
    FlagBalanced i b (⟨u, a, o, w⟩ : Edge cfg) := by
  by_cases hc : ∃ c, a = .call (.event c) ∧ c.onFlags i
  · obtain ⟨c, rfl, hon⟩ := hc
    have hne : c ≠ .init (some i) := by
      rintro rfl
      simp [flagsInitialised] at hn
    cases h with
    | call _ hexec => exact c.flagBalanced hexec hne hon
  · have hother : ∀ c, a = .call (.event c) → c.onFlags i = false := by
      intro c ha
      by_contra hon
      exact hc ⟨c, ha, Bool.not_eq_false _ ▸ hon⟩
    refine flagBalanced_of_same hother ?_
    cases h with
    | call _ hexec =>
        exact Machine.exec_eventFlags hexec fun c he => hother c (congrArg Action.call he)
    | _ => rfl

/-- Over any run in which the event is not initialised anew: each time a flag is set, it
goes to one waiter, who is READY then, or to an entry that names no task, or it is dropped
by a call that finds it set, or it is still set at the end. -/
theorem event_flags_conserved {s v : System cfg} {tr : History cfg} (h : Run step s tr v)
    (i b : ℕ) (hinit : ∀ e ∈ tr, flagsInitialised i e = false) :
    flagLevel i b v + (tr.map (flagServed i b)).sum + (tr.map (flagLost i b)).sum +
        (tr.map (flagDropped i b)).sum =
      flagLevel i b s + (tr.map (flagRaised i b)).sum := by
  have hbalance := h.balance (fun u => flagLevel i b u) (flagRaised i b)
    (fun e => flagServed i b e + flagLost i b e + flagDropped i b e) hinit (by
      intro u a o w hn hs
      have hstep := (step_cases hs).flagBalanced (b := b) hn
      unfold FlagBalanced at hstep
      exact_mod_cast hstep)
  rw [List.sum_map_add, List.sum_map_add] at hbalance
  omega

end FlagSteps

/-- A task takes the only unit of a semaphore, is refused another and gives the first back. -/
def unitRun : List (Action Config.default) :=
  .call (.task (.create 1 0x100#64)) :: .run 1 :: cycleActions _ ++
    [.call (.sync (.semWait 0)), .call (.sync (.semWait 0)), .call (.sync (.semSignal 0))]

/-- The semaphore has one unit. -/
def oneUnit : System Config.default :=
  (System.after _ [.call (.sync (.semaphoreInit 0 1))]).2

theorem resource_conserved_unitRun :
    (Resource.semaphore 0).available .default (played step oneUnit unitRun).2.machine.objects + 1 =
        (Resource.semaphore 0).available .default oneUnit.machine.objects + 1 ∧
      0 ≤ (Resource.semaphore 0).available .default
        (played step oneUnit unitRun).2.machine.objects ∧
      (Resource.semaphore 0).available .default
        (played step oneUnit unitRun).2.machine.objects < 2 ^ 31 := by
  have htaken : (played step oneUnit unitRun).1.countP (Resource.semaphore 0).taken = 1 := by
    decide +kernel
  have hgiven : (played step oneUnit unitRun).1.countP (Resource.semaphore 0).given = 1 := by
    decide +kernel
  have h := resource_conserved (run_played oneUnit unitRun) (.semaphore 0) (by decide +kernel)
    (by decide +kernel)
  rw [htaken, hgiven] at h
  exact ⟨h.1, h.2.1 (by decide +kernel), h.2.2 (by decide +kernel)⟩

/-- The flag that is set goes to the first of the two waiters and is not left. -/
theorem event_flags_conserved_twoWaitersRun :
    let s := (System.after .default [.call (.event (.init (some 0)))]).2
    let r := played step s twoWaitersRun
    flagLevel 0 0 r.2 + (r.1.map (flagServed 0 0)).sum + 0 + 0 = flagLevel 0 0 s + 1 ∧
      (r.1.map (flagServed 0 0)).sum = 1 := by
  intro s r
  have hlost : (r.1.map (flagLost 0 0)).sum = 0 := by decide +kernel
  have hdropped : (r.1.map (flagDropped 0 0)).sum = 0 := by decide +kernel
  have hraised : (r.1.map (flagRaised 0 0)).sum = 1 := by decide +kernel
  have h := event_flags_conserved (run_played s twoWaitersRun) 0 0 (by decide +kernel)
  rw [hlost, hdropped, hraised] at h
  exact ⟨h, by decide +kernel⟩

/-- `main` has waited while no task was current: the flag is taken and nobody gets it. -/
example :
    let tr := (System.after .default [.call (.event (.init (some 0))),
      .call (.event (.wait (some 0) 1#32)), .call (.event (.set (some 0) 1#32))]).1
    (tr.map (flagLost 0 0)).sum = 1 ∧ (tr.map (flagServed 0 0)).sum = 0 := by
  decide +kernel

end MiniRtos
