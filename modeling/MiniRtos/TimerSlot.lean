import MiniRtos.Ticks

/-!
# One slot of the soft-timer pool

The pass over the pool runs arbitrary callbacks between the slots, so it is looked at
from one slot: its turn in each tick, the rest of the turn after its own callback
returns, and the calls that name its handle. `SlotStep` says which of these a step is;
nothing else a step does can be seen from the slot.
-/
namespace MiniRtos
open TransitionSystem
variable {cfg : Config}

namespace SoftTimer

/-- A slot's turn in a tick: whether its callback is called, and what is left. -/
def turn (x : SoftTimer) : Bool × SoftTimer :=
  if !x.inUse || !x.active then (false, x)
  else
    let x := if 0#32 < x.remaining then { x with remaining := x.remaining - 1#32 } else x
    (decide (x.remaining = 0#32), x)

/-- What is done to a slot when its callback has returned. -/
def reload (x : SoftTimer) : SoftTimer :=
  if x.mode = .periodic then { x with remaining := x.periodTicks }
  else { x with active := false }

end SoftTimer

namespace TimerState
variable (t : TimerState cfg) (i j : Fin cfg.rtosSoftTimerCount)

theorem timerUpdateSoftSlot_fst : (t.timerUpdateSoftSlot i).1 = (t.softTimers i).turn.1 := by
  unfold timerUpdateSoftSlot SoftTimer.turn
  split_ifs <;> simp [modifySlot]

theorem timerUpdateSoftSlot_softTimers : (t.timerUpdateSoftSlot i).2.softTimers =
    Function.update t.softTimers i (t.softTimers i).turn.2 := by
  unfold timerUpdateSoftSlot SoftTimer.turn
  split_ifs <;> simp [modifySlot]

theorem timerCallbackReturned_softTimers : (t.timerCallbackReturned i).softTimers =
    Function.update t.softTimers i (t.softTimers i).reload := by
  unfold timerCallbackReturned SoftTimer.reload
  split_ifs <;> rfl

theorem onSlotInUse_softTimers (f : SoftTimer → SoftTimer) :
    (t.onSlotInUse (some i) f).softTimers =
      Function.update t.softTimers i
        (if (t.softTimers i).inUse then f (t.softTimers i) else t.softTimers i) := by
  simp only [onSlotInUse]
  split_ifs
  · rfl
  · rw [Function.update_eq_self]

variable (mode : TimerMode) (p : BitVec 32) (f x : BitVec 64)

theorem timerSoftCreate_of_none (h : (t.timerSoftCreate mode p f x).1 = none) :
    (t.timerSoftCreate mode p f x).2 = t := by
  unfold timerSoftCreate at h ⊢
  split_ifs at h ⊢
  · rfl
  · rfl
  · split at h
    · rfl
    · cases h

theorem timerSoftCreate_of_some {i : Fin cfg.rtosSoftTimerCount}
    (h : (t.timerSoftCreate mode p f x).1 = some i) :
    (t.softTimers i).inUse = false ∧
      (t.timerSoftCreate mode p f x).2.softTimers =
        Function.update t.softTimers i ⟨mode, p, p, f, x, false, true⟩ := by
  unfold timerSoftCreate at h ⊢
  split_ifs at h ⊢
  split at h
  · cases h
  · next j hj =>
    obtain rfl := Option.some.inj h
    constructor
    · simpa using List.find?_some hj
    · rfl

end TimerState

/-- Whether slot `i` still has its turn in the cycle under way. -/
def Phase.turnsToCome (i : Fin cfg.rtosSoftTimerCount) : Phase cfg → ℕ
  | .softTimer _ k => if k ≤ i.val then 1 else 0
  | .callback _ k => if k.val < i.val then 1 else 0
  | _ => 0

/-- The callback of slot `i` is executing. -/
def Phase.inCallbackOf (i : Fin cfg.rtosSoftTimerCount) : Phase cfg → Bool
  | .callback _ k => k = i
  | _ => false

/-- The step calls the callback of slot `i`. -/
def callsBack (i : Fin cfg.rtosSoftTimerCount) (e : Edge cfg) : Bool :=
  match e.obs with
  | .callbackCalled k _ _ => k = i
  | _ => false

/-- The calls that name slot `i`. -/
def TimerCall.onSlot (i : Fin cfg.rtosSoftTimerCount) : TimerCall cfg → Bool
  | .softStart timer | .softStop timer | .softDelete timer => timer = some i
  | _ => false

/-- The ways a call can treat slot `i`. -/
inductive TimerCall.OnSlot (i : Fin cfg.rtosSoftTimerCount) (x : SoftTimer) :
    TimerCall cfg → SoftTimer → Prop
  | same {c : TimerCall cfg} : OnSlot i x c x
  | created {mode : TimerMode} {p : BitVec 32} {f arg : BitVec 64} : x.inUse = false →
      OnSlot i x (.softCreate mode p f arg) ⟨mode, p, p, f, arg, false, true⟩
  | started : x.inUse = true →
      OnSlot i x (.softStart (some i)) { x with remaining := x.periodTicks, active := true }
  | stopped : x.inUse = true → OnSlot i x (.softStop (some i)) { x with active := false }
  | deleted : x.inUse = true →
      OnSlot i x (.softDelete (some i)) { x with active := false, inUse := false }

theorem TimerCall.exec_onSlot (t : TimerState cfg) (i : Fin cfg.rtosSoftTimerCount)
    (c : TimerCall cfg) : OnSlot i (t.softTimers i) c ((c.exec t).2.softTimers i) := by
  have hother : ∀ (timer : Option (Fin cfg.rtosSoftTimerCount)) (f : SoftTimer → SoftTimer),
      (timer = some i → (t.softTimers i).inUse = false) →
        (t.onSlotInUse timer f).softTimers i = t.softTimers i := by
    intro timer f hne
    cases timer with
    | none => rfl
    | some j =>
        rw [TimerState.onSlotInUse_softTimers]
        by_cases hij : i = j
        · subst hij
          simp [hne rfl]
        · rw [Function.update_of_ne hij]
  have hself : ∀ f : SoftTimer → SoftTimer, (t.softTimers i).inUse = true →
      (t.onSlotInUse (some i) f).softTimers i = f (t.softTimers i) := by
    intro f hu
    rw [TimerState.onSlotInUse_softTimers, Function.update_self, if_pos hu]
  cases c with
  | softCreate mode p f x =>
      simp only [exec]
      cases hr : (t.timerSoftCreate mode p f x).1 with
      | none =>
          rw [t.timerSoftCreate_of_none mode p f x hr]
          exact .same
      | some j =>
          obtain ⟨hfree, hslots⟩ := t.timerSoftCreate_of_some mode p f x hr
          rw [hslots]
          by_cases hij : i = j
          · subst hij
            rw [Function.update_self]
            exact .created hfree
          · rw [Function.update_of_ne hij]
            exact .same
  | softStart timer | softStop timer | softDelete timer =>
      simp only [exec, TimerState.timerSoftStart, TimerState.timerSoftStop,
        TimerState.timerSoftDelete]
      by_cases hon : timer = some i ∧ (t.softTimers i).inUse = true
      · obtain ⟨rfl, hu⟩ := hon
        rw [hself _ hu]
        first | exact .started hu | exact .stopped hu | exact .deleted hu
      · rw [hother _ _ (by simpa using hon)]
        exact .same
  | now => exact .same

/-- The ways a step can treat slot `i`. -/
inductive SlotStep (i : Fin cfg.rtosSoftTimerCount) (u : System cfg) (a : Action cfg)
    (o : Observation cfg) (w : System cfg) : Prop
  | cleared : a = .init → w.machine.timer.softTimers i = .zero → w.phase = .outside →
      SlotStep i u a o w
  | call {c : TimerCall cfg} : a = .call (.timer c) →
      w.machine.timer = (c.exec u.machine.timer).2 → w.phase = u.phase → SlotStep i u a o w
  | kept : w.machine.timer.softTimers i = u.machine.timer.softTimers i →
      w.phase.inCallbackOf i = u.phase.inCallbackOf i →
      w.phase.turnsToCome i =
        u.phase.turnsToCome i + (if isTick ⟨u, a, o, w⟩ then 1 else 0) → SlotStep i u a o w
  | passed : u.phase.turnsToCome i = 1 → u.phase.inCallbackOf i = false →
      (u.machine.timer.softTimers i).turn.1 = false →
      w.machine.timer.softTimers i = (u.machine.timer.softTimers i).turn.2 →
      w.phase.turnsToCome i = 0 → w.phase.inCallbackOf i = false → SlotStep i u a o w
  | called : u.phase.turnsToCome i = 1 → u.phase.inCallbackOf i = false →
      (u.machine.timer.softTimers i).turn.1 = true →
      w.machine.timer.softTimers i = (u.machine.timer.softTimers i).turn.2 →
      o = .callbackCalled i (w.machine.timer.softTimers i).callback
        (w.machine.timer.softTimers i).arg →
      w.phase.turnsToCome i = 0 → w.phase.inCallbackOf i = true → SlotStep i u a o w
  | returned : u.phase.turnsToCome i = 0 → u.phase.inCallbackOf i = true →
      w.machine.timer.softTimers i = (u.machine.timer.softTimers i).reload →
      w.phase.turnsToCome i = 0 → w.phase.inCallbackOf i = false → SlotStep i u a o w

section Steps
variable {u w : System cfg} {a : Action cfg} {o : Observation cfg}

theorem Machine.exec_timer {m m' : Machine cfg} {c : Call cfg} {v : Value}
    (h : m.exec c = some (v, m')) : (∀ c', c ≠ .timer c') → m'.timer = m.timer := by
  intro hc
  cases exec_cases h with
  | timer => exact absurd rfl (hc _)
  | _ => rfl

/-- What the pass does to another slot leaves no trace in slot `i`. -/
theorem SlotStep.of_update {i k : Fin cfg.rtosSoftTimerCount} {x : SoftTimer}
    (hw : w.machine.timer.softTimers = Function.update u.machine.timer.softTimers k x)
    (hik : i ≠ k) (hcall : w.phase.inCallbackOf i = u.phase.inCallbackOf i)
    (hturns : w.phase.turnsToCome i = u.phase.turnsToCome i)
    (htick : isTick (⟨u, a, o, w⟩ : Edge cfg) = false) : SlotStep i u a o w := by
  refine .kept ?_ hcall ?_
  · rw [hw, Function.update_of_ne hik]
  · simp [hturns, htick]

/-- Callbacks of other slots are called and return without a trace in slot `i`. -/
theorem slotStep {i : Fin cfg.rtosSoftTimerCount} (hs : step u a = some (o, w)) :
    SlotStep i u a o w := by
  have hc := step_cases hs
  cases hc with
  | init => exact .cleared rfl rfl rfl
  | @call c v m hp hexec =>
      by_cases ht : ∃ c', c = .timer c'
      · obtain ⟨c', rfl⟩ := ht
        cases Machine.exec_cases hexec with
        | timer => exact .call rfl rfl rfl
      · push Not at ht
        refine .kept ?_ rfl ?_
        · rw [Machine.exec_timer hexec ht]
        · simp [isTick]
  | @slotSkipped left k hp hf =>
      rw [TimerState.timerUpdateSoftSlot_fst] at hf
      by_cases hik : i = k
      · subst hik
        refine .passed ?_ ?_ hf ?_ ?_ rfl
        · simp [hp, Phase.turnsToCome]
        · simp [hp, Phase.inCallbackOf]
        · simp [TimerState.timerUpdateSoftSlot_softTimers]
        · simp [Phase.turnsToCome]
      · have hne : i.val ≠ k.val := fun he => hik (Fin.ext he)
        refine .of_update (TimerState.timerUpdateSoftSlot_softTimers _ _) hik ?_ ?_ ?_
        · simp [hp, Phase.inCallbackOf]
        · simp only [hp, Phase.turnsToCome]
          split_ifs <;> omega
        · simp [isTick, hp]
  | @callbackCalled left k f x hp hf =>
      have hobs : f = ((u.machine.timer.timerUpdateSoftSlot k).2.softTimers k).callback ∧
          x = ((u.machine.timer.timerUpdateSoftSlot k).2.softTimers k).arg := by
        have hadv : u.advance = some (.callbackCalled k f x, _) := hs
        simp only [System.advance, hp, k.isLt, dif_pos, Fin.eta, hf, if_true, Option.some.injEq,
          Prod.mk.injEq, Observation.callbackCalled.injEq, true_and] at hadv
        exact ⟨hadv.1.1.symm, hadv.1.2.symm⟩
      obtain ⟨rfl, rfl⟩ := hobs
      rw [TimerState.timerUpdateSoftSlot_fst] at hf
      by_cases hik : i = k
      · subst hik
        refine .called ?_ ?_ hf ?_ rfl ?_ ?_
        · simp [hp, Phase.turnsToCome]
        · simp [hp, Phase.inCallbackOf]
        · simp [TimerState.timerUpdateSoftSlot_softTimers]
        · simp [Phase.turnsToCome]
        · simp [Phase.inCallbackOf]
      · have hne : i.val ≠ k.val := fun he => hik (Fin.ext he)
        refine .of_update (TimerState.timerUpdateSoftSlot_softTimers _ _) hik ?_ ?_ ?_
        · simp [hp, Phase.inCallbackOf, Ne.symm hik]
        · simp only [hp, Phase.turnsToCome]
          split_ifs <;> omega
        · simp [isTick, hp]
  | @callbackReturned left k hp =>
      by_cases hik : i = k
      · subst hik
        refine .returned ?_ ?_ ?_ ?_ rfl
        · simp [hp, Phase.turnsToCome]
        · simp [hp, Phase.inCallbackOf]
        · simp [TimerState.timerCallbackReturned_softTimers]
        · simp [Phase.turnsToCome]
      · have hne : i.val ≠ k.val := fun he => hik (Fin.ext he)
        refine .of_update (TimerState.timerCallbackReturned_softTimers _ _) hik ?_ ?_ ?_
        · simp [hp, Phase.inCallbackOf, Ne.symm hik]
        · simp only [hp, Phase.turnsToCome]
          split_ifs <;> omega
        · simp [isTick]
  | tick hp =>
      refine .kept rfl ?_ ?_
      · simp [hp, Phase.inCallbackOf]
      · simp [hp, Phase.turnsToCome, isTick]
  | @passDone left k hp hk =>
      refine .kept rfl ?_ ?_
      · simp [hp, Phase.inCallbackOf]
      · have := i.isLt
        simp [hp, Phase.turnsToCome, isTick]
        omega
  | run hp | taskReturned hp | runDone hp | idle hp | taskCalled hp =>
      refine .kept rfl ?_ ?_
      · simp [hp, Phase.inCallbackOf]
      · simp [hp, Phase.turnsToCome, isTick]

/-- A callback of slot `i` is called at the slot's turn, from outside any of its own. -/
theorem phase_of_callsBack {i : Fin cfg.rtosSoftTimerCount} (hs : step u a = some (o, w))
    (h : callsBack i (⟨u, a, o, w⟩ : Edge cfg)) :
    u.phase.inCallbackOf i = false ∧ w.phase.inCallbackOf i = true := by
  cases step_cases hs with
  | callbackCalled hp =>
      obtain rfl := by simpa [callsBack] using h
      constructor
      · simp [hp, Phase.inCallbackOf]
      · simp [Phase.inCallbackOf]
  | _ => simp [callsBack] at h

end Steps

end MiniRtos
