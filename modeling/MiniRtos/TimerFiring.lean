import MiniRtos.TimerSchedule

/-!
# In which tick a started timer fires

A timer that a task or the main program starts fires at the multiples of its period,
counted from the start, and falls silent when it is stopped. A timer that a callback
starts does so only if the pass of this tick is past its slot: a higher slot has a turn
left, which counts, and a one-shot timer that starts itself is disarmed when its
callback returns.
-/
namespace MiniRtos
open TransitionSystem
variable {cfg : Config}

/-- A timer started outside the timer pass is called back exactly in the cycles that its
mode and period say, and a timer that is stopped or deleted is not called back until its
slot is started again. -/
theorem soft_timer_on_schedule {s₀ s v : System cfg} {tr : History cfg}
    {i : Fin cfg.rtosSoftTimerCount} {o : Observation cfg}
    (hout : ∀ left k, s₀.phase ≠ .callback left k)
    (huse : (s₀.machine.timer.softTimers i).inUse = true)
    (hperiod : 1 ≤ (s₀.machine.timer.softTimers i).periodTicks.toNat)
    (hstart : step s₀ (.call (.timer (.softStart (some i)))) = some (o, s))
    (h : Run step s tr v) (hleaves : ∀ e ∈ tr, leavesSlot i e) :
    (∀ n, invocations i n tr =
      if (s₀.machine.timer.softTimers i).fires n ∧ n + v.phase.turnsToCome i ≤ ticks tr
        then 1 else 0) ∧
      (∀ e ∈ tr, callsBack i e →
        e.obs = .callbackCalled i (s₀.machine.timer.softTimers i).callback
          (s₀.machine.timer.softTimers i).arg) ∧
      ((s₀.machine.timer.softTimers i).mode = .oneShot →
        (s₀.machine.timer.softTimers i).periodTicks.toNat + v.phase.turnsToCome i ≤ ticks tr →
          v.phase.inCallbackOf i = false → (v.machine.timer.softTimers i).active = false) ∧
      ∀ (u u' w : System cfg) (later : History cfg) (c : TimerCall cfg) (o' : Observation cfg),
        c.stops i → step u (.call (.timer c)) = some (o', u') → Run step u' later w →
          (∀ e ∈ later, ¬ startsSlot i e) → ∀ e ∈ later, ¬ callsBack i e := by
  have happ : s₀.phase.application = true := by
    cases step_cases hstart with
    | call hp => exact hp
  have hown : s₀.phase.inCallbackOf i = false ∧ s₀.phase.turnsToCome i = 0 := by
    cases hp : s₀.phase with
    | callback left k => exact absurd hp (hout left k)
    | outside | task => exact ⟨rfl, rfl⟩
    | _ => simp [hp, Phase.application] at happ
  obtain ⟨d, hd, hafter, hinv, hobs⟩ :=
    onSchedule_of_softStart huse hperiod hstart (.inl hown.1) h hleaves
  rw [hown.2] at hd hinv
  refine ⟨fun n => ?_, hobs, fun hm hpast hnot => ?_, ?_⟩
  · have hiff : n ≤ d ↔ n + v.phase.turnsToCome i ≤ ticks tr := by omega
    simp only [hinv, Nat.add_zero, hiff]
  · rw [hnot] at hafter
    have hone := hafter.oneShot hm
    rwa [if_neg (by simp), if_neg (by omega)] at hone
  · intro u u' w later c o' hc hstop hrun hstarts
    exact ((silent_of_stops hc hstop).run hrun hstarts).2

/-- The main program creates a periodic timer of two ticks. -/
def periodicTimerRun : List (Action Config.default) :=
  [.call (.timer (.softCreate .periodic 2#32 0x5000#64 0x7#64))]

/-- Started before `rtos_run`, it is called back in the second cycle. -/
theorem soft_timer_on_schedule_periodicTimerRun :
    let s := (System.after _ (periodicTimerRun ++
      [.call (.timer (.softStart (some ⟨0, by decide⟩)))])).2
    let r := played step s ([.run 3] ++ cycleActions _ ++ [.advance, .advance, .ret, .advance])
    invocations ⟨0, by decide⟩ 2 r.1 = 1 := by
  have hout : (System.after _ periodicTimerRun).2.phase = .outside := by decide +kernel
  have hfires := (soft_timer_on_schedule (i := ⟨0, by decide⟩) (o := .returned .void)
    (fun left k => by simp [hout]) (by decide +kernel) (by decide +kernel)
    (step_eq_played (s := (System.after _ periodicTimerRun).2) (by decide +kernel))
    (run_played _ ([.run 3] ++ cycleActions _ ++ [.advance, .advance, .ret, .advance]))
    (by decide +kernel)).1 2
  exact hfires.trans (by decide +kernel)

/-- The callback is next called in the `p`-th tick from now, and only there. -/
def NextCalledIn (i : Fin cfg.rtosSoftTimerCount) (p : ℕ) (tr : History cfg) : Prop :=
  ∀ n ≤ p, invocations i n tr = if n = p then 1 else 0

/-- A timer whose turns come `early` ticks before time is next called in tick `T + p` only
if that is no tick at all. -/
theorem nextCalledIn_iff {x : SoftTimer} {i : Fin cfg.rtosSoftTimerCount} {tr : History cfg}
    {early d : ℕ} (hp : 1 ≤ x.periodTicks.toNat) (hearly : early ≤ x.periodTicks.toNat)
    (hd : x.periodTicks.toNat ≤ d)
    (hinv : ∀ n, invocations i n tr = if x.fires (n + early) ∧ n + early ≤ d then 1 else 0) :
    NextCalledIn i x.periodTicks.toNat tr ↔ early = 0 := by
  have hfires : x.fires x.periodTicks.toNat := (SoftTimer.fires_iff hp le_rfl).mpr rfl
  constructor
  · intro hnext
    by_contra hne
    have he : x.periodTicks.toNat - early + early = x.periodTicks.toNat := by omega
    have hat := hnext (x.periodTicks.toNat - early) (by omega)
    rw [hinv, he, if_pos ⟨hfires, hd⟩, if_neg (by omega)] at hat
    cases hat
  · rintro rfl n hn
    have hle : n ≤ d := hn.trans hd
    simp only [hinv, Nat.add_zero, hle, and_true, SoftTimer.fires_iff hp hn]

/-- A one-shot timer that its own callback starts is disarmed when the callback returns. -/
theorem silent_of_selfStart {s₀ s : System cfg} {i : Fin cfg.rtosSoftTimerCount}
    {o : Observation cfg} (hcb : s₀.phase.inCallbackOf i = true)
    (huse : (s₀.machine.timer.softTimers i).inUse = true)
    (hmode : (s₀.machine.timer.softTimers i).mode = .oneShot)
    (hstart : step s₀ (.call (.timer (.softStart (some i)))) = some (o, s)) : Silent i s := by
  obtain ⟨hphase, hslot⟩ := slot_of_softStart huse hstart
  intro _ _
  rw [hslot, hphase]
  exact ⟨hcb, hmode⟩

/-- A timer started by a callback in tick `T` fires in tick `T + p`. -/
def CallbackStartsOnTime (cfg : Config) : Prop :=
  ∀ (s₀ s v : System cfg) (tr : History cfg) (i k : Fin cfg.rtosSoftTimerCount) (left : ℕ)
    (o : Observation cfg), Reachable s₀ → s₀.phase = .callback left k →
      (s₀.machine.timer.softTimers i).inUse = true →
        1 ≤ (s₀.machine.timer.softTimers i).periodTicks.toNat →
          step s₀ (.call (.timer (.softStart (some i)))) = some (o, s) → Run step s tr v →
            (∀ e ∈ tr, leavesSlot i e) →
              (s₀.machine.timer.softTimers i).periodTicks.toNat + v.phase.turnsToCome i ≤ ticks tr →
                NextCalledIn i (s₀.machine.timer.softTimers i).periodTicks.toNat tr

/-- Once its turn in tick `T + p` is past, a timer started by the callback of slot `k` in
tick `T` was next called there exactly if its slot is lower, or it is slot `k` itself and
periodic. -/
theorem callback_start_iff {s₀ s v : System cfg} {tr : History cfg}
    {i k : Fin cfg.rtosSoftTimerCount} {left : ℕ} {o : Observation cfg}
    (hcb : s₀.phase = .callback left k)
    (huse : (s₀.machine.timer.softTimers i).inUse = true)
    (hperiod : 1 ≤ (s₀.machine.timer.softTimers i).periodTicks.toNat)
    (hstart : step s₀ (.call (.timer (.softStart (some i)))) = some (o, s))
    (h : Run step s tr v) (hleaves : ∀ e ∈ tr, leavesSlot i e)
    (hpast : (s₀.machine.timer.softTimers i).periodTicks.toNat + v.phase.turnsToCome i ≤ ticks tr) :
    NextCalledIn i (s₀.machine.timer.softTimers i).periodTicks.toNat tr ↔
      i < k ∨ i = k ∧ (s₀.machine.timer.softTimers i).mode = .periodic := by
  have hown : s₀.phase.inCallbackOf i = decide (k = i) := by rw [hcb]; rfl
  have hcome : s₀.phase.turnsToCome i = if k < i then 1 else 0 := by rw [hcb]; rfl
  by_cases hself : k = i ∧ (s₀.machine.timer.softTimers i).mode = .oneShot
  · obtain ⟨rfl, hmode⟩ := hself
    have hsilent : Silent k s := silent_of_selfStart (by simpa using hown) huse hmode hstart
    have hnone := (hsilent.run h fun e he hst => by
      have hl := hleaves e he
      simp only [startsSlot, decide_eq_true_eq] at hst
      simp [leavesSlot, hst, TimerCall.onSlot] at hl).2
    constructor
    · intro hnext
      have hp := hnext _ le_rfl
      simp [invocations_eq_zero hnone] at hp
    · rintro (hlt | ⟨-, hper⟩)
      · exact absurd hlt (lt_irrefl _)
      · simp [hmode] at hper
  · have hper : k = i → (s₀.machine.timer.softTimers i).mode = .periodic := by
      intro hki
      cases hm : (s₀.machine.timer.softTimers i).mode with
      | periodic => rfl
      | oneShot => exact absurd ⟨hki, hm⟩ hself
    have hother : s₀.phase.inCallbackOf i = false ∨
        (s₀.machine.timer.softTimers i).mode = .periodic := by
      by_cases hki : k = i
      · exact .inr (hper hki)
      · exact .inl (by rw [hown, decide_eq_false hki])
    obtain ⟨d, hd, -, hinv, -⟩ := onSchedule_of_softStart huse hperiod hstart hother h hleaves
    rw [hcome] at hd hinv
    rw [nextCalledIn_iff hperiod (by split_ifs <;> omega) (by omega) hinv]
    -- a higher slot has a turn left in this tick, which counts
    constructor
    · intro hearly
      have hle : ¬ k < i := by
        intro hlt
        simp [hlt] at hearly
      rcases lt_or_eq_of_le (not_lt.mp hle) with hlt | rfl
      · exact .inl hlt
      · exact .inr ⟨rfl, hper rfl⟩
    · rintro (hlt | ⟨rfl, -⟩)
      · exact if_neg hlt.not_gt
      · exact if_neg (lt_irrefl _)

/-- Two periodic timers of one tick, of which slot `k` is started. -/
def twoTimersRun (k : Fin Config.default.rtosSoftTimerCount) : List (Action Config.default) :=
  [.call (.timer (.softCreate .periodic 1#32 0x5000#64 0#64)),
    .call (.timer (.softCreate .periodic 1#32 0x6000#64 0#64)),
    .call (.timer (.softStart (some k))), .run 3]

/-- Slot 1 is the one that was started, and its callback is under way. -/
def higherSlotRun : List (Action Config.default) :=
  twoTimersRun ⟨1, by decide⟩ ++ List.replicate 3 .advance

/-- The callback of slot 1 starts slot 0, which is called back in the next tick. -/
theorem callback_start_iff_lowerSlot :
    let s := (System.after _ (higherSlotRun ++
      [.call (.timer (.softStart (some ⟨0, by decide⟩)))])).2
    let r := played step s (.ret :: List.replicate 10 .advance)
    NextCalledIn ⟨0, by decide⟩ 1 r.1 := by
  have hcb : (System.after _ higherSlotRun).2.phase = .callback 2 ⟨1, by decide⟩ := by
    decide +kernel
  exact (callback_start_iff (i := ⟨0, by decide⟩) (o := .returned .void) hcb (by decide +kernel)
    (by decide +kernel) (step_eq_played (s := (System.after _ higherSlotRun).2) (by decide +kernel))
    (run_played _ (.ret :: List.replicate 10 .advance)) (by decide +kernel)
    (by decide +kernel)).mpr (.inl (by decide))

/-- The callback of slot 0 starts slot 1, which is called back in the same tick. -/
theorem callback_start_early : ¬ CallbackStartsOnTime .default := by
  intro h
  let as : List (Action Config.default) := [.ret, .advance, .ret] ++ List.replicate 10 .advance ++
    [.ret, .advance]
  have hnext := h _ _ _ _ ⟨1, by decide⟩ ⟨0, by decide⟩ 2 (.returned .void)
    (System.after_reachable (twoTimersRun ⟨0, by decide⟩ ++ List.replicate 2 .advance))
    (by decide +kernel) (by decide +kernel) (by decide +kernel)
    (step_eq_played (by decide +kernel)) (run_played _ as) (by decide +kernel) (by decide +kernel)
  have hzero := hnext 0 (by decide +kernel)
  exact absurd hzero (by decide +kernel)

end MiniRtos
