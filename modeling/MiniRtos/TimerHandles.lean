import MiniRtos.Leases
import MiniRtos.TimerSlot

/-!
# Holders of software timers

A handle is a pointer to a slot, and a slot that was deleted is handed out again. To say
whose timer a call is meant for, the program is run next to an account of who was given
which slot: a holder is the number of the successful `timer_soft_create` that gave it its
handle, and uses that handle for every call of its own. `rtos_init` clears the pool and
the account with it.
-/
namespace MiniRtos
open TransitionSystem
variable {cfg : Config}

/-- What the holder of a timer does with its handle. -/
inductive TimerUse where
  | start | stop | delete
deriving DecidableEq

namespace TimerUse

def call (handle : Option (Fin cfg.rtosSoftTimerCount)) : TimerUse → TimerCall cfg
  | start => .softStart handle
  | stop => .softStop handle
  | delete => .softDelete handle

/-- What the call makes of a slot that is in use. -/
def apply (x : SoftTimer) : TimerUse → SoftTimer
  | start => { x with remaining := x.periodTicks, active := true }
  | stop => { x with active := false }
  | delete => { x with active := false, inUse := false }

/-- The call can be seen from the slot: only a start of a timer that is running with its
full countdown and a stop of a timer that is stopped cannot. -/
def shows (x : SoftTimer) : TimerUse → Bool
  | start => !x.active || x.remaining != x.periodTicks
  | stop => x.active
  | delete => true

theorem apply_eq_self_iff {x : SoftTimer} (hx : x.inUse = true) (k : TimerUse) :
    k.apply x = x ↔ k.shows x = false := by
  obtain ⟨mode, p, r, f, y, active, inUse⟩ := x
  obtain rfl : inUse = true := hx
  cases k with
  | start =>
      constructor
      · intro h
        simp only [apply, SoftTimer.mk.injEq, true_and, and_true] at h
        simp [shows, ← h.1, ← h.2]
      · intro h
        simp only [shows, Bool.or_eq_false_iff, Bool.not_eq_false', bne_eq_false_iff_eq] at h
        simp only [apply, ← h.2, h.1]
  | stop =>
      constructor
      · intro h
        simp only [apply, SoftTimer.mk.injEq, true_and, and_true] at h
        exact h.symm
      · intro h
        simp only [shows] at h
        simp only [apply, h]
  | delete => simp [apply, shows]

@[simp] theorem inUse_apply (x : SoftTimer) (k : TimerUse) :
    (k.apply x).inUse = (x.inUse && k != .delete) := by
  cases k <;> simp [apply]

theorem exec_call (t : TimerState cfg) (i : Fin cfg.rtosSoftTimerCount) (k : TimerUse) :
    ((k.call (some i)).exec t).2.softTimers =
      Function.update t.softTimers i
        (if (t.softTimers i).inUse then k.apply (t.softTimers i) else t.softTimers i) := by
  cases k <;> exact t.onSlotInUse_softTimers i _

theorem exec_call_kernelTick (t : TimerState cfg) (i : Fin cfg.rtosSoftTimerCount)
    (k : TimerUse) : ((k.call (some i)).exec t).2.kernelTick = t.kernelTick := by
  cases k <;> simp only [call, TimerCall.exec, TimerState.timerSoftStart,
    TimerState.timerSoftStop, TimerState.timerSoftDelete, TimerState.onSlotInUse] <;>
    split_ifs <;> rfl

end TimerUse

namespace TimerState
variable (t : TimerState cfg) (mode : TimerMode) (p : BitVec 32) (f x : BitVec 64)

/-- With a callback and a period a slot is refused only when there is none. -/
theorem timerSoftCreate_eq_none_iff (hf : f ≠ 0#64) (hp : p ≠ 0#32) :
    (t.timerSoftCreate mode p f x).1 = none ↔ ∀ i, (t.softTimers i).inUse = true := by
  simp only [timerSoftCreate, if_neg hf, if_neg hp]
  split
  · next hnone =>
    simp only [true_iff]
    intro i
    simpa using List.find?_eq_none.mp hnone i (List.mem_finRange i)
  · next j hj =>
    have hfree := List.find?_some hj
    simp only [reduceCtorEq, false_iff]
    intro hall
    simp [hall j] at hfree

end TimerState

/-- The program and who was given which timer. -/
structure HeldSystem (cfg : Config) where
  system : System cfg
  leases : Leases (Fin cfg.rtosSoftTimerCount)

/-- A holder uses its handle, or something happens that passes no handle. -/
inductive HolderAction (cfg : Config) where
  | use (k : TimerUse) (h : ℕ)
  | other (a : Action cfg)
deriving DecidableEq

def Action.passesHandle : Action cfg → Bool
  | .call (.timer (.softStart (some _))) | .call (.timer (.softStop (some _)))
  | .call (.timer (.softDelete (some _))) => true
  | _ => false

namespace HeldSystem

def slots (s : HeldSystem cfg) : Fin cfg.rtosSoftTimerCount → SoftTimer :=
  s.system.machine.timer.softTimers

/-- A slot that is handed out has a new holder. -/
def leasesAfter (s : HeldSystem cfg) : Action cfg → Leases (Fin cfg.rtosSoftTimerCount)
  | .init => .empty
  | .call (.timer (.softCreate mode p f x)) =>
      match (s.system.machine.timer.timerSoftCreate mode p f x).1 with
      | none => s.leases
      | some i => s.leases.grant i
  | _ => s.leases

/-- A holder uses the handle it was given, whether or not it has deleted the timer. -/
def holderStep (s : HeldSystem cfg) : HolderAction cfg → Option (Observation cfg × HeldSystem cfg)
  | .use k h =>
      match s.leases.slot h with
      | none => none
      | some i =>
          (step s.system (.call (.timer (k.call (some i))))).map fun r =>
            (r.1, ⟨r.2, if k = .delete then s.leases.release h else s.leases⟩)
  | .other a =>
      if a.passesHandle then none
      else (step s.system a).map fun r => (r.1, ⟨r.2, s.leasesAfter a⟩)

/-- The account only watches: every step is one of the program. -/
theorem step_of_holderStep {u w : HeldSystem cfg} {a : HolderAction cfg} {o : Observation cfg}
    (h : holderStep u a = some (o, w)) : ∃ a', step u.system a' = some (o, w.system) := by
  cases a with
  | use k n =>
      simp only [holderStep] at h
      split at h
      · cases h
      · obtain ⟨r, hstep, he⟩ := Option.map_eq_some_iff.mp h
        obtain ⟨rfl, rfl⟩ := Prod.mk.inj he
        exact ⟨_, hstep⟩
  | other a =>
      simp only [holderStep] at h
      split at h
      · cases h
      · obtain ⟨r, hstep, he⟩ := Option.map_eq_some_iff.mp h
        obtain ⟨rfl, rfl⟩ := Prod.mk.inj he
        exact ⟨_, hstep⟩

theorem run_of_holderRun {s v : HeldSystem cfg}
    {tr : TransitionSystem.History (HeldSystem cfg) (HolderAction cfg) (Observation cfg)}
    (h : Run holderStep s tr v) : ∃ tr', Run step s.system tr' v.system := by
  induction h with
  | nil => exact ⟨_, .nil⟩
  | snoc _ hstep ih =>
      obtain ⟨tr', hr⟩ := ih
      obtain ⟨a', hs⟩ := step_of_holderStep hstep
      exact ⟨_, .snoc hr hs⟩

/-- And no step of the program is lost whose handle, if it passes one, was handed out. -/
theorem exists_holderStep {u : HeldSystem cfg} {v : System cfg} {a : Action cfg}
    {o : Observation cfg} (h : step u.system a = some (o, v))
    (ha : ∀ (k : TimerUse) i, a = .call (.timer (k.call (some i))) →
      ∃ n, u.leases.slot n = some i) :
    ∃ b l, holderStep u b = some (o, ⟨v, l⟩) := by
  by_cases hpass : ∃ (k : TimerUse) (i : _), a = .call (.timer (k.call (some i)))
  · obtain ⟨k, i, rfl⟩ := hpass
    obtain ⟨n, hn⟩ := ha k i rfl
    refine ⟨.use k n, if k = .delete then u.leases.release n else u.leases, ?_⟩
    simp only [holderStep, hn, h, Option.map_some]
  · have hno : a.passesHandle = false := by
      by_contra hp
      simp only [Bool.not_eq_false, Action.passesHandle] at hp
      split at hp
      · next i => exact hpass ⟨.start, i, rfl⟩
      · next i => exact hpass ⟨.stop, i, rfl⟩
      · next i => exact hpass ⟨.delete, i, rfl⟩
      · cases hp
    refine ⟨.other a, u.leasesAfter a, ?_⟩
    simp only [holderStep, hno, h, Option.map_some, Bool.false_eq_true, if_false]

/-- A holder that has deleted its timer makes a call that shows in the timer which has
the slot now. -/
def clashes (s : HeldSystem cfg) : HolderAction cfg → Bool
  | .use k h =>
      match s.leases.slot h with
      | none => false
      | some i =>
          decide (h ∉ s.leases.live ∧ ∃ h' ∈ s.leases.live, s.leases.slot h' = some i) &&
            k.shows (s.slots i)
  | .other _ => false

/-- The slots in use are those of the live timers, each of which has one. -/
def Accounted (s : HeldSystem cfg) : Prop := s.leases.Exact fun i => (s.slots i).inUse = true

/-- The program after a call through the handle `i`. -/
def used (u : HeldSystem cfg) (k : TimerUse) (i : Fin cfg.rtosSoftTimerCount) : System cfg :=
  { u.system with
    machine :=
      { u.system.machine with timer := ((k.call (some i)).exec u.system.machine.timer).2 } }

inductive StepCases (u : HeldSystem cfg) : HolderAction cfg → Observation cfg → HeldSystem cfg →
    Prop
  | use {k : TimerUse} {h : ℕ} {i : Fin cfg.rtosSoftTimerCount} {o : Observation cfg} :
      u.leases.slot h = some i →
      StepCases u (.use k h) o
        ⟨u.used k i, if k = .delete then u.leases.release h else u.leases⟩
  | other {a : Action cfg} {o : Observation cfg} {w : System cfg} : a.passesHandle = false →
      step u.system a = some (o, w) → StepCases u (.other a) o ⟨w, u.leasesAfter a⟩

variable {u w : HeldSystem cfg} {a : HolderAction cfg} {o : Observation cfg}

theorem step_cases (h : holderStep u a = some (o, w)) : StepCases u a o w := by
  cases a with
  | use k n =>
      simp only [holderStep] at h
      split at h
      · cases h
      · next i hi =>
        obtain ⟨⟨o', v⟩, hstep, he⟩ := Option.map_eq_some_iff.mp h
        obtain ⟨rfl, rfl⟩ := Prod.mk.inj he
        cases MiniRtos.step_cases hstep with
        | call _ hexec =>
            cases Machine.exec_cases hexec with
            | timer => exact .use hi
  | other a =>
      simp only [holderStep] at h
      split at h
      · cases h
      · next hpass =>
        obtain ⟨⟨o', v⟩, hstep, he⟩ := Option.map_eq_some_iff.mp h
        obtain ⟨rfl, rfl⟩ := Prod.mk.inj he
        exact .other (by simpa using hpass) hstep

theorem slots_used (u : HeldSystem cfg) (k : TimerUse) (i : Fin cfg.rtosSoftTimerCount)
    (l : Leases (Fin cfg.rtosSoftTimerCount)) :
    slots ⟨u.used k i, l⟩ = Function.update u.slots i
      (if (u.slots i).inUse then k.apply (u.slots i) else u.slots i) :=
  TimerUse.exec_call _ i k

theorem Accounted.congr (h : u.Accounted) (hl : w.leases = u.leases)
    (hi : ∀ i, (w.slots i).inUse = (u.slots i).inUse) : w.Accounted := by
  unfold Accounted
  rw [hl]
  exact Leases.Exact.congr h fun i => by rw [hi i]

/-- A pass over a slot, and the return of its callback, leave it in use or free. -/
theorem Accounted.update (h : u.Accounted) (hl : w.leases = u.leases)
    {i : Fin cfg.rtosSoftTimerCount} {x : SoftTimer} (hw : w.slots = Function.update u.slots i x)
    (hx : x.inUse = (u.slots i).inUse) : w.Accounted := by
  refine h.congr hl fun j => ?_
  rw [hw]
  by_cases hji : j = i
  · subst hji
    rw [Function.update_self, hx]
  · rw [Function.update_of_ne hji]

/-- A slot is handed out to one more holder. -/
theorem Accounted.create (h : u.Accounted) {mode : TimerMode} {p : BitVec 32} {f x : BitVec 64}
    (hw : w.system.machine.timer = (u.system.machine.timer.timerSoftCreate mode p f x).2)
    (hl : w.leases = u.leasesAfter (.call (.timer (.softCreate mode p f x)))) : w.Accounted := by
  simp only [leasesAfter] at hl
  split at hl
  · next hnone =>
    rw [TimerState.timerSoftCreate_of_none _ mode p f x hnone] at hw
    exact h.congr hl fun i => by rw [slots, slots, hw]
  · next i hsome =>
    obtain ⟨hfree, hslots⟩ := TimerState.timerSoftCreate_of_some _ mode p f x hsome
    unfold Accounted slots
    rw [hl, hw, hslots]
    refine Leases.Exact.grant h (x := i) (by simp [slots, hfree]) fun j => ?_
    by_cases hji : j = i
    · subst hji
      simp
    · rw [Function.update_of_ne hji]
      simp [hji, slots]

/-- What passes no handle takes a slot only for a new holder. -/
theorem Accounted.other {a : Action cfg} {v : System cfg} (h : u.Accounted)
    (ha : a.passesHandle = false) (hstep : step u.system a = some (o, v)) :
    Accounted ⟨v, u.leasesAfter a⟩ := by
  cases MiniRtos.step_cases hstep with
  | init =>
      refine Leases.exact_empty fun i => ?_
      exact Bool.false_ne_true
  | @call c _ _ _ hexec =>
      cases Machine.exec_cases hexec with
      | @timer c =>
          cases c with
          | softCreate => exact h.create rfl rfl
          | softStart timer | softStop timer | softDelete timer =>
              cases timer with
              | none => exact h
              | some i => cases ha
          | now => exact h
      | _ => exact h
  | slotSkipped | callbackCalled =>
      refine h.update rfl (TimerState.timerUpdateSoftSlot_softTimers _ _) ?_
      unfold SoftTimer.turn
      split_ifs <;> rfl
  | callbackReturned =>
      refine h.update rfl (TimerState.timerCallbackReturned_softTimers _ _) ?_
      unfold SoftTimer.reload
      split_ifs <;> rfl
  | _ => exact h

/-- A holder whose timer is live finds it in its slot. -/
theorem Accounted.inUse (h : u.Accounted) {n : ℕ} {i : Fin cfg.rtosSoftTimerCount}
    (hn : n ∈ u.leases.live) (hi : u.leases.slot n = some i) : (u.slots i).inUse = true :=
  Leases.Exact.used_of_live h hn hi

theorem used_eq_self {k : TimerUse} {i : Fin cfg.rtosSoftTimerCount}
    (h : slots ⟨u.used k i, u.leases⟩ = u.slots) : u.used k i = u.system := by
  have htick := TimerUse.exec_call_kernelTick u.system.machine.timer i k
  have htimer : ((k.call (some i)).exec u.system.machine.timer).2 = u.system.machine.timer := by
    cases hx : ((k.call (some i)).exec u.system.machine.timer).2
    simp only [slots, used, hx] at h htick
    rw [h, htick]
  unfold used
  rw [htimer]

/-- Without a clash, the calls of a holder that has deleted its timer are ignored. -/
theorem Accounted.ignored (h : u.Accounted) {k : TimerUse} {n : ℕ}
    {i : Fin cfg.rtosSoftTimerCount} (hi : u.leases.slot n = some i) (hn : n ∉ u.leases.live)
    (hclash : u.clashes (.use k n) = false) : u.used k i = u.system := by
  refine used_eq_self ?_
  rw [slots_used]
  split_ifs with huse
  · obtain ⟨n', hn', hi'⟩ := (Leases.Exact.used_iff h i).mp huse
    have hshow : k.shows (u.slots i) = false := by
      simpa [clashes, hi, hn, show ∃ m ∈ u.leases.live, u.leases.slot m = some i from
        ⟨n', hn', hi'⟩] using hclash
    rw [(TimerUse.apply_eq_self_iff huse k).mpr hshow, Function.update_eq_self]
  · exact Function.update_eq_self _ _

/-- A call that does not clash keeps the account. -/
theorem Accounted.step (h : u.Accounted) (hstep : holderStep u a = some (o, w))
    (hclash : u.clashes a = false) : w.Accounted := by
  cases step_cases hstep with
  | other ha hs => exact h.other ha hs
  | @use k n i _ hi =>
      by_cases hn : n ∈ u.leases.live
      · have huse := h.inUse hn hi
        by_cases hk : k = .delete
        · subst hk
          refine Leases.Exact.release h hn hi fun j => ?_
          rw [slots_used, if_pos huse]
          by_cases hji : j = i
          · subst hji
            simp
          · simp [hji]
        · refine h.update (if_neg hk) (slots_used u k i _) ?_
          simp [huse, hk]
      · have hl : (if k = .delete then u.leases.release n else u.leases) = u.leases := by
          rw [Leases.release_of_notMem hn, ite_self]
        rw [hl, h.ignored hi hn hclash]
        exact h

end HeldSystem

/-- What a holder may expect of a step: its slot is its own, a timer is refused only when
all are taken, the calls of other holders leave its timer alone, and its own calls do
nothing once it has deleted the timer. -/
structure HandlesApart
    (e : TransitionSystem.Edge (HeldSystem cfg) (HolderAction cfg) (Observation cfg)) : Prop where
  distinct : Set.InjOn e.src.leases.slot e.src.leases.live
  exhausted : ∀ mode p f x, e.act = .other (.call (.timer (.softCreate mode p f x))) →
    f ≠ 0#64 → p ≠ 0#32 →
      (e.obs = .returned (.index none) ↔ e.src.leases.live.card = cfg.rtosSoftTimerCount)
  frame : ∀ k h, e.act = .use k h → ∀ h' ∈ e.src.leases.live, h' ≠ h →
    ∀ i, e.src.leases.slot h' = some i → e.dst.slots i = e.src.slots i
  ignored : ∀ k h, e.act = .use k h → h ∉ e.src.leases.live → e.dst.system = e.src.system

namespace HeldSystem
variable {u w : HeldSystem cfg} {a : HolderAction cfg} {o : Observation cfg}

/-- A timer is refused exactly when all are live. -/
theorem Accounted.create_none_iff (h : u.Accounted) {mode : TimerMode} {p : BitVec 32}
    {f x : BitVec 64} (hf : f ≠ 0#64) (hp : p ≠ 0#32)
    (hstep : holderStep u (.other (.call (.timer (.softCreate mode p f x)))) = some (o, w)) :
    o = .returned (.index none) ↔ u.leases.live.card = cfg.rtosSoftTimerCount := by
  have hobs : o = .returned
      (.index ((u.system.machine.timer.timerSoftCreate mode p f x).1.map Fin.val)) := by
    cases step_cases hstep with
    | other _ hs =>
        cases MiniRtos.step_cases hs with
        | call _ hexec =>
            cases Machine.exec_cases hexec with
            | timer => rfl
  have hnone := TimerState.timerSoftCreate_eq_none_iff u.system.machine.timer mode p f x hf hp
  have hcard := Leases.Exact.card_live_eq_iff h
  rw [Fintype.card_fin] at hcard
  rw [hobs, hcard]
  simpa [slots] using hnone

/-- The calls of one holder leave the timers of the others alone. -/
theorem Accounted.frame (h : u.Accounted) {k : TimerUse} {n n' : ℕ}
    {i : Fin cfg.rtosSoftTimerCount} (hstep : holderStep u (.use k n) = some (o, w))
    (hclash : u.clashes (.use k n) = false) (hn' : n' ∈ u.leases.live) (hne : n' ≠ n)
    (hi : u.leases.slot n' = some i) : w.slots i = u.slots i := by
  cases step_cases hstep with
  | @use _ _ j _ hj =>
      by_cases hn : n ∈ u.leases.live
      · have hij : i ≠ j := by
          rintro rfl
          exact hne (Leases.Exact.exclusive h hn' hn (hi.trans hj.symm))
        rw [slots_used, Function.update_of_ne hij]
      · unfold slots
        rw [h.ignored hj hn hclash]

theorem Accounted.apart (h : u.Accounted) (hstep : holderStep u a = some (o, w))
    (hclash : u.clashes a = false) : HandlesApart ⟨u, a, o, w⟩ := by
  constructor
  · exact Leases.Exact.exclusive h
  · rintro mode p f x rfl hf hp
    exact h.create_none_iff hf hp hstep
  · rintro k n rfl n' hn' hne i hi
    exact h.frame hstep hclash hn' hne hi
  · rintro k n rfl hn
    cases step_cases hstep with
    | use hi => exact h.ignored hi hn hclash

/-- A clash shows in a timer that is live and not the caller's. -/
theorem Accounted.not_clashes (h : u.Accounted) (hstep : holderStep u a = some (o, w))
    (hapart : HandlesApart ⟨u, a, o, w⟩) : u.clashes a = false := by
  cases step_cases hstep with
  | other => rfl
  | @use k n i _ hi =>
      simp only [clashes, hi, Bool.and_eq_false_iff, decide_eq_false_iff_not, not_and, not_exists]
      by_cases hshared : n ∉ u.leases.live ∧ ∃ n' ∈ u.leases.live, u.leases.slot n' = some i
      · right
        obtain ⟨hn, n', hn', hi'⟩ := hshared
        have huse := h.inUse hn' hi'
        have hne : n' ≠ n := by
          rintro rfl
          exact hn hn'
        have hsame := hapart.frame k n rfl n' hn' hne i hi'
        rw [slots_used, Function.update_self, if_pos huse] at hsame
        exact (TimerUse.apply_eq_self_iff huse k).mp hsame
      · left
        push Not at hshared
        exact hshared

end HeldSystem

section Runs
variable {s v : HeldSystem cfg}
  {tr : TransitionSystem.History (HeldSystem cfg) (HolderAction cfg) (Observation cfg)}

theorem HeldSystem.Accounted.run (hs : s.Accounted) (h : Run HeldSystem.holderStep s tr v)
    (hclash : ∀ e ∈ tr, e.src.clashes e.act = false) :
    v.Accounted ∧ ∀ e ∈ tr, HandlesApart e :=
  h.edge_invariant hs hclash fun _ _ _ _ hu hclash hstep =>
    ⟨hu.step hstep hclash, hu.apart hstep hclash⟩

theorem HeldSystem.Accounted.run_not_clashes (hs : s.Accounted)
    (h : Run HeldSystem.holderStep s tr v) (hapart : ∀ e ∈ tr, HandlesApart e) :
    ∀ e ∈ tr, e.src.clashes e.act = false := by
  refine (h.edge_invariant (P := Accounted) hs hapart fun u a o w hu hapart hstep => ?_).2
  have hclash := hu.not_clashes hstep hapart
  exact ⟨hu.step hstep hclash, hclash⟩

/-- `rtos_init` has just been called, and nobody holds a timer. -/
def HeldSystem.Initial (s : HeldSystem cfg) : Prop :=
  MiniRtos.Initial s.system ∧ s.leases = .empty

theorem HeldSystem.Initial.accounted (h : s.Initial) : s.Accounted := by
  obtain ⟨⟨-, m, hm⟩, hl⟩ := h
  unfold HeldSystem.Accounted HeldSystem.slots
  rw [hl, hm]
  exact Leases.exact_empty fun i => Bool.false_ne_true

/-- Holders are kept apart all along a run exactly if no call of the run clashes. -/
theorem handles_apart_iff (hs : s.Initial) (h : Run HeldSystem.holderStep s tr v) :
    (Set.InjOn v.leases.slot v.leases.live ∧ ∀ e ∈ tr, HandlesApart e) ↔
      ∀ e ∈ tr, e.src.clashes e.act = false := by
  constructor
  · rintro ⟨-, hapart⟩
    exact hs.accounted.run_not_clashes h hapart
  · intro hclash
    obtain ⟨hv, hapart⟩ := hs.accounted.run h hclash
    exact ⟨Leases.Exact.exclusive hv, hapart⟩

end Runs

/-- Holders of software timers never interfere. -/
def HandlesNeverInterfere (cfg : Config) : Prop :=
  ∀ (s v : HeldSystem cfg)
    (tr : TransitionSystem.History (HeldSystem cfg) (HolderAction cfg) (Observation cfg)),
    s.Initial → Run HeldSystem.holderStep s tr v →
      Set.InjOn v.leases.slot v.leases.live ∧ ∀ e ∈ tr, HandlesApart e

def HeldSystem.boot (cfg : Config) : HeldSystem cfg := ⟨System.boot cfg, .empty⟩

theorem HeldSystem.boot_initial (cfg : Config) : (HeldSystem.boot cfg).Initial :=
  ⟨System.boot_initial cfg, rfl⟩

/-- One holder creates and deletes its timer, and a second one has the slot after it. -/
def reusedSlotRun : List (HolderAction Config.default) :=
  let create : HolderAction Config.default :=
    .other (.call (.timer (.softCreate .periodic 1#32 0x5000#64 0#64)))
  [create, .use .delete 0, create, .use .start 1]

/-- The first one may still start the timer that is running with its full countdown. -/
theorem handles_apart_iff_reusedSlotRun :
    let r := played HeldSystem.holderStep (HeldSystem.boot _) (reusedSlotRun ++ [.use .start 0])
    ∀ e ∈ r.1, HandlesApart e :=
  ((handles_apart_iff (HeldSystem.boot_initial _) (run_played _ _)).mpr (by decide +kernel)).2

/-- Its stop disarms the timer of the second. -/
theorem handles_interfere : ¬ HandlesNeverInterfere .default := by
  intro h
  let r := played HeldSystem.holderStep (HeldSystem.boot Config.default)
    (reusedSlotRun ++ [.use .stop 0])
  have hr : Run HeldSystem.holderStep (HeldSystem.boot _) r.1 r.2 := run_played _ _
  have hclash := (HeldSystem.boot_initial Config.default).accounted.run_not_clashes hr
    (h _ _ _ (HeldSystem.boot_initial _) hr).2
  exact absurd hclash (by decide +kernel)

end MiniRtos
