import MiniRtos.TimerSlot

/-!
# When a soft timer fires

A started slot counts its turns, one in each tick, and what it holds is a function of
that number: a periodic slot fires at every multiple of its period, a one-shot slot at
its period and then stops. In which tick a turn falls depends on where the program was
when the timer was started. Outside the pass over the pool the next turn is in the next
tick, while a callback of a lower slot executes it is still in the same one.
-/
namespace MiniRtos
open TransitionSystem
variable {cfg : Config}

/-- The counter of a reloaded countdown goes through all residues. -/
theorem mod_succ_cases {p : ℕ} (hp : 1 ≤ p) (d : ℕ) :
    d % p + 1 = p ∧ (d + 1) % p = 0 ∨ d % p + 1 < p ∧ (d + 1) % p = d % p + 1 := by
  have hlt := Nat.mod_lt d hp
  have hsucc : (d + 1) % p = (d % p + 1) % p := by
    rw [Nat.mod_add_mod]
  rcases Nat.lt_or_ge (d % p + 1) p with h | h
  · right
    exact ⟨h, by rw [hsucc, Nat.mod_eq_of_lt h]⟩
  · left
    have he : d % p + 1 = p := by omega
    exact ⟨he, by rw [hsucc, he, Nat.mod_self]⟩

namespace SoftTimer

/-- The turns after a start at which a timer fires. -/
def fires (x : SoftTimer) (k : ℕ) : Bool :=
  match x.mode with
  | .periodic => 0 < k && k % x.periodTicks.toNat = 0
  | .oneShot => k = x.periodTicks.toNat

/-- The slot `x₀`, once started, is `x` after `d` turns; `own` while its callback executes. -/
structure AfterTurns (x₀ : SoftTimer) (d : ℕ) (own : Bool) (x : SoftTimer) : Prop where
  mode : x.mode = x₀.mode
  periodTicks : x.periodTicks = x₀.periodTicks
  callback : x.callback = x₀.callback
  arg : x.arg = x₀.arg
  inUse : x.inUse = true
  periodic : x₀.mode = .periodic → x.active = true ∧
    if own then d % x₀.periodTicks.toNat = 0
    else x.remaining.toNat = x₀.periodTicks.toNat - d % x₀.periodTicks.toNat
  oneShot : x₀.mode = .oneShot →
    if own then d = x₀.periodTicks.toNat
    else if d < x₀.periodTicks.toNat then
      x.active = true ∧ x.remaining.toNat = x₀.periodTicks.toNat - d
    else x.active = false

variable {x₀ x : SoftTimer} {d : ℕ}

theorem turn_skipped (h : (x.inUse && x.active) = false) : x.turn = (false, x) := by
  unfold turn
  rw [if_pos]
  revert h
  cases x.inUse <;> cases x.active <;> simp

theorem turn_armed (hu : x.inUse = true) (ha : x.active = true) (hr : 1 ≤ x.remaining.toNat) :
    x.turn = (decide (x.remaining.toNat = 1), { x with remaining := x.remaining - 1#32 }) ∧
      (x.remaining - 1#32).toNat = x.remaining.toNat - 1 := by
  have hlt := x.remaining.isLt
  have hsub : (x.remaining - 1#32).toNat = x.remaining.toNat - 1 := by
    rw [BitVec.toNat_sub_of_le (by simpa [BitVec.le_def] using hr)]
    rfl
  have hpos : 0#32 < x.remaining := BitVec.lt_def.mpr (Nat.lt_of_succ_le hr)
  refine ⟨?_, hsub⟩
  simp only [turn, hu, ha, Bool.not_true, Bool.or_false, Bool.false_eq_true, if_false, hpos,
    if_true, Prod.mk.injEq, and_true, decide_eq_decide]
  rw [← BitVec.toNat_inj, hsub]
  simp only [BitVec.toNat_ofNat, Nat.zero_mod]
  omega

/-- One turn more: the slot fires or counts on. -/
theorem AfterTurns.turn (hp : 1 ≤ x₀.periodTicks.toNat) (h : x₀.AfterTurns d false x) :
    x.turn.1 = x₀.fires (d + 1) ∧ x₀.AfterTurns (d + 1) x.turn.1 x.turn.2 := by
  cases hm : x₀.mode with
  | periodic =>
      obtain ⟨ha, hr⟩ := h.periodic hm
      simp only [Bool.false_eq_true, if_false] at hr
      have hlt := Nat.mod_lt d hp
      obtain ⟨hturn, hsub⟩ := turn_armed h.inUse ha (by omega)
      have hfires : x₀.fires (d + 1) = decide (x.remaining.toNat = 1) := by
        simp only [fires, hm, Nat.zero_lt_succ, decide_true, Bool.true_and, decide_eq_decide]
        rcases mod_succ_cases hp d with ⟨h₁, h₂⟩ | ⟨h₁, h₂⟩ <;> omega
      rw [hturn, hfires]
      refine ⟨rfl, h.mode, h.periodTicks, h.callback, h.arg, h.inUse, fun _ => ⟨ha, ?_⟩,
        fun ho => by simp [hm] at ho⟩
      rcases mod_succ_cases hp d with ⟨h₁, h₂⟩ | ⟨h₁, h₂⟩
      · rw [if_pos (by simp only [decide_eq_true_eq]; omega)]
        exact h₂
      · rw [if_neg (by simp only [decide_eq_true_eq]; omega)]
        simp only [hsub]
        omega
  | oneShot =>
      have hs := h.oneShot hm
      simp only [Bool.false_eq_true, if_false] at hs
      by_cases hd : d < x₀.periodTicks.toNat
      · rw [if_pos hd] at hs
        obtain ⟨ha, hr⟩ := hs
        obtain ⟨hturn, hsub⟩ := turn_armed h.inUse ha (by omega)
        have hfires : x₀.fires (d + 1) = decide (x.remaining.toNat = 1) := by
          simp only [fires, hm, decide_eq_decide]
          omega
        rw [hturn, hfires]
        refine ⟨rfl, h.mode, h.periodTicks, h.callback, h.arg, h.inUse,
          fun ho => by simp [hm] at ho, fun _ => ?_⟩
        by_cases hone : x.remaining.toNat = 1
        · rw [if_pos (by simp [hone])]
          omega
        · rw [if_neg (by simp [hone]), if_pos (by omega)]
          refine ⟨ha, ?_⟩
          simp only [hsub]
          omega
      · rw [if_neg hd] at hs
        have hturn := turn_skipped (x := x) (by rw [hs, Bool.and_false])
        have hfires : x₀.fires (d + 1) = false := by
          simp only [fires, hm]
          exact decide_eq_false (by omega)
        rw [hturn, hfires]
        refine ⟨rfl, h.mode, h.periodTicks, h.callback, h.arg, h.inUse,
          fun ho => by simp [hm] at ho, fun _ => ?_⟩
        rw [if_neg (by simp), if_neg (by omega)]
        exact hs

/-- The reload, when the slot's own callback returns. -/
theorem AfterTurns.reload (h : x₀.AfterTurns d true x) :
    x₀.AfterTurns d false x.reload := by
  unfold SoftTimer.reload
  cases hm : x₀.mode with
  | periodic =>
      obtain ⟨ha, hd⟩ := h.periodic hm
      rw [if_pos rfl] at hd
      rw [if_pos (h.mode.trans hm)]
      refine ⟨h.mode, h.periodTicks, h.callback, h.arg, h.inUse, fun _ => ⟨ha, ?_⟩,
        fun ho => by simp [hm] at ho⟩
      simp only [Bool.false_eq_true, if_false, h.periodTicks]
      omega
  | oneShot =>
      have hd := h.oneShot hm
      rw [if_pos rfl] at hd
      rw [if_neg (by simp [h.mode, hm])]
      refine ⟨h.mode, h.periodTicks, h.callback, h.arg, h.inUse, fun ho => by simp [hm] at ho,
        fun _ => ?_⟩
      rw [if_neg (by simp), if_neg (by omega)]

end SoftTimer

/-- The step leaves slot `i` to itself: no call names it, and the pool is not cleared. -/
def leavesSlot (i : Fin cfg.rtosSoftTimerCount) (e : Edge cfg) : Bool :=
  match e.act with
  | .init => false
  | .call (.timer c) => !c.onSlot i
  | _ => true

/-- How often the callback of slot `i` was called in the `n`-th cycle of a history. -/
def invocations (i : Fin cfg.rtosSoftTimerCount) (n : ℕ) : History cfg → ℕ
  | [] => 0
  | e :: tr => invocations i n tr + if callsBack i e ∧ ticks tr = n then 1 else 0

/-- After a start at a moment when `b` more turns of slot `i` were to come in the same
cycle, the slot counts its turns and its callback was called at those at which it fires. -/
def OnSchedule (i : Fin cfg.rtosSoftTimerCount) (x₀ : SoftTimer) (b : ℕ) (tr : History cfg)
    (v : System cfg) : Prop :=
  ∃ d, d + v.phase.turnsToCome i = ticks tr + b ∧
    x₀.AfterTurns d (v.phase.inCallbackOf i) (v.machine.timer.softTimers i) ∧
      (∀ n, invocations i n tr = if x₀.fires (n + b) ∧ n + b ≤ d then 1 else 0) ∧
        ∀ e ∈ tr, callsBack i e → e.obs = .callbackCalled i x₀.callback x₀.arg

theorem TimerCall.exec_slot {t : TimerState cfg} {i : Fin cfg.rtosSoftTimerCount}
    (hu : (t.softTimers i).inUse = true) {c : TimerCall cfg} (hc : c.onSlot i = false) :
    (c.exec t).2.softTimers i = t.softTimers i := by
  have h := c.exec_onSlot t i
  generalize (c.exec t).2.softTimers i = y at h
  cases h with
  | same => rfl
  | created hfree => simp [hu] at hfree
  | started | stopped | deleted => simp [onSlot] at hc

section Steps
variable {u w : System cfg} {a : Action cfg} {o : Observation cfg}
  {i : Fin cfg.rtosSoftTimerCount} {x₀ : SoftTimer} {b n : ℕ} {tr : History cfg}

theorem invocations_cons_of_not (h : callsBack i (⟨u, a, o, w⟩ : Edge cfg) = false) :
    invocations i n (⟨u, a, o, w⟩ :: tr) = invocations i n tr := by
  simp [invocations, h]

/-- A step that neither enters nor leaves a callback of slot `i` is no call of it. -/
theorem callsBack_eq_false (hs : step u a = some (o, w))
    (hown : w.phase.inCallbackOf i = u.phase.inCallbackOf i ∨ u.phase.inCallbackOf i = true) :
    callsBack i (⟨u, a, o, w⟩ : Edge cfg) = false := by
  by_contra hc
  obtain ⟨hbefore, hafter⟩ := phase_of_callsBack hs (by simpa using hc)
  simp [hbefore, hafter] at hown

/-- No tick comes while the pass over the pool is under way. -/
theorem isTick_eq_false (hu : u.phase.turnsToCome i = 1 ∨ u.phase.inCallbackOf i = true) :
    isTick (⟨u, a, o, w⟩ : Edge cfg) = false := by
  by_contra ht
  obtain ⟨left, hp⟩ := phase_of_isTick (by simpa using ht)
  change u.phase = _ at hp
  simp [hp, Phase.turnsToCome, Phase.inCallbackOf] at hu

/-- Between two turns of the slot the account stays as it is. -/
theorem OnSchedule.between (h : OnSchedule i x₀ b tr u)
    (hslot : ∀ d, x₀.AfterTurns d (u.phase.inCallbackOf i) (u.machine.timer.softTimers i) →
      x₀.AfterTurns d (w.phase.inCallbackOf i) (w.machine.timer.softTimers i))
    (hcome : w.phase.turnsToCome i =
      u.phase.turnsToCome i + (if isTick ⟨u, a, o, w⟩ then 1 else 0))
    (hcalls : callsBack i (⟨u, a, o, w⟩ : Edge cfg) = false) :
    OnSchedule i x₀ b (⟨u, a, o, w⟩ :: tr) w := by
  obtain ⟨d, hd, hafter, hinv, hobs⟩ := h
  refine ⟨d, ?_, ?_, fun n => ?_, fun e he hce => ?_⟩
  · rw [ticks_cons, hcome]
    omega
  · exact hslot d hafter
  · rw [invocations_cons_of_not hcalls, hinv]
  · rcases List.mem_cons.mp he with rfl | he
    · simp [hcalls] at hce
    · exact hobs e he hce

/-- The slot has its turn. -/
theorem OnSchedule.turn (hp : 1 ≤ x₀.periodTicks.toNat) (h : OnSchedule i x₀ b tr u)
    (hcome : u.phase.turnsToCome i = 1) (hown : u.phase.inCallbackOf i = false)
    (hslot : w.machine.timer.softTimers i = (u.machine.timer.softTimers i).turn.2)
    (hcome' : w.phase.turnsToCome i = 0)
    (hown' : w.phase.inCallbackOf i = (u.machine.timer.softTimers i).turn.1)
    (hcalls : callsBack i (⟨u, a, o, w⟩ : Edge cfg) = (u.machine.timer.softTimers i).turn.1)
    (hobs' : callsBack i (⟨u, a, o, w⟩ : Edge cfg) →
      o = .callbackCalled i (w.machine.timer.softTimers i).callback
        (w.machine.timer.softTimers i).arg)
    (htick : isTick (⟨u, a, o, w⟩ : Edge cfg) = false) :
    OnSchedule i x₀ b (⟨u, a, o, w⟩ :: tr) w := by
  obtain ⟨d, hd, hafter, hinv, hobs⟩ := h
  rw [hown] at hafter
  obtain ⟨hfires, hnext⟩ := hafter.turn hp
  rw [hcome] at hd
  refine ⟨d + 1, ?_, ?_, fun n => ?_, fun e he hce => ?_⟩
  · rw [ticks_cons, hcome', htick]
    simpa using hd
  · rw [hslot, hown']
    exact hnext
  · -- the turn that is `d + 1` falls in the cycle with the number of ticks so far
    simp only [invocations, hinv, hcalls, hfires]
    by_cases hn : ticks tr = n
    · subst hn
      have hk : ticks tr + b = d + 1 := hd.symm
      by_cases hf : x₀.fires (d + 1)
      · rw [hk, if_neg (by omega), if_pos ⟨hf, rfl⟩, if_pos ⟨hf, le_rfl⟩]
      · rw [hk, if_neg (by omega), if_neg (by simp [hf]), if_neg (by simp [hf])]
    · have hiff : n + b ≤ d + 1 ↔ n + b ≤ d := by omega
      simp only [hn, and_false, if_false, Nat.add_zero, hiff]
  · rcases List.mem_cons.mp he with rfl | he
    · rw [hobs' hce, hslot, hnext.callback, hnext.arg]
    · exact hobs e he hce

theorem OnSchedule.step (hp : 1 ≤ x₀.periodTicks.toNat) (h : OnSchedule i x₀ b tr u)
    (hs : step u a = some (o, w)) (hleaves : leavesSlot i (⟨u, a, o, w⟩ : Edge cfg)) :
    OnSchedule i x₀ b (⟨u, a, o, w⟩ :: tr) w := by
  cases slotStep (i := i) hs with
  | cleared ha => simp [leavesSlot, ha] at hleaves
  | @call c ha ht hphase =>
      subst ha
      have hon : c.onSlot i = false := by simpa [leavesSlot] using hleaves
      have hinUse : (u.machine.timer.softTimers i).inUse = true := by
        obtain ⟨d, -, hafter, -⟩ := h
        exact hafter.inUse
      refine h.between (fun d hd => ?_) ?_ (callsBack_eq_false hs (.inl (by rw [hphase])))
      · rw [hphase, ht, TimerCall.exec_slot hinUse hon]
        exact hd
      · simp [hphase, isTick]
  | kept hslot hown hcome =>
      refine h.between (fun d hd => ?_) hcome (callsBack_eq_false hs (.inl hown))
      rw [hslot, hown]
      exact hd
  | passed hcome hown hturn hslot hcome' hown' =>
      have hcalls := callsBack_eq_false hs (.inl (hown'.trans hown.symm))
      refine h.turn hp hcome hown hslot hcome' (hown'.trans hturn.symm) (hcalls.trans hturn.symm)
        (fun hc => by simp [hcalls] at hc) (isTick_eq_false (.inl hcome))
  | called hcome hown hturn hslot ho hcome' hown' =>
      have hcalls : callsBack i (⟨u, a, o, w⟩ : Edge cfg) = true := by
        rw [ho]
        simp [callsBack]
      refine h.turn hp hcome hown hslot hcome' (hown'.trans hturn.symm) (hcalls.trans hturn.symm)
        (fun _ => ho) (isTick_eq_false (.inl hcome))
  | returned hcome hown hslot hcome' hown' =>
      refine h.between (fun d hd => ?_) ?_ (callsBack_eq_false hs (.inr hown))
      · rw [hown] at hd
        rw [hslot, hown']
        exact hd.reload
      · simp [hcome, hcome', isTick_eq_false (.inr hown)]

end Steps

theorem SoftTimer.fires_iff {x : SoftTimer} {n : ℕ} (hp : 1 ≤ x.periodTicks.toNat)
    (hn : n ≤ x.periodTicks.toNat) : x.fires n ↔ n = x.periodTicks.toNat := by
  unfold fires
  cases x.mode with
  | oneShot => simp
  | periodic =>
      simp only [Bool.and_eq_true, decide_eq_true_eq]
      constructor
      · rintro ⟨hpos, hmod⟩
        exact le_antisymm hn (Nat.le_of_dvd hpos (Nat.dvd_of_mod_eq_zero hmod))
      · intro he
        rw [he, Nat.mod_self]
        exact ⟨hp, rfl⟩

section Start
variable {s₀ s v : System cfg} {tr : History cfg} {i : Fin cfg.rtosSoftTimerCount}
  {o : Observation cfg}

/-- `timer_soft_start` of a slot in use. -/
theorem slot_of_softStart (huse : (s₀.machine.timer.softTimers i).inUse = true)
    (hstart : step s₀ (.call (.timer (.softStart (some i)))) = some (o, s)) :
    s.phase = s₀.phase ∧ s.machine.timer.softTimers i =
      { s₀.machine.timer.softTimers i with
        remaining := (s₀.machine.timer.softTimers i).periodTicks
        active := true } := by
  cases step_cases hstart with
  | call _ hexec =>
      cases Machine.exec_cases hexec with
      | timer =>
          refine ⟨rfl, ?_⟩
          simp only [TimerCall.exec, TimerState.timerSoftStart, TimerState.onSlotInUse_softTimers,
            huse, if_true, Function.update_self]

/-- A started slot is on schedule, unless it is a one-shot slot in its own callback. -/
theorem onSchedule_of_softStart (huse : (s₀.machine.timer.softTimers i).inUse = true)
    (hp : 1 ≤ (s₀.machine.timer.softTimers i).periodTicks.toNat)
    (hstart : step s₀ (.call (.timer (.softStart (some i)))) = some (o, s))
    (hown : s₀.phase.inCallbackOf i = false ∨ (s₀.machine.timer.softTimers i).mode = .periodic)
    (h : Run step s tr v) (hleaves : ∀ e ∈ tr, leavesSlot i e) :
    OnSchedule i (s₀.machine.timer.softTimers i) (s₀.phase.turnsToCome i) tr v := by
  obtain ⟨hphase, hslot⟩ := slot_of_softStart huse hstart
  refine h.history_invariant
    (P := fun tr v => OnSchedule i (s₀.machine.timer.softTimers i) (s₀.phase.turnsToCome i) tr v)
    ?_ (.of_forall hleaves) fun tr u a o w hu hleaves hs => hu.step hp hs hleaves
  generalize s₀.machine.timer.softTimers i = x₀ at *
  refine ⟨0, by simp [hphase], ?_, fun n => ?_, by simp⟩
  · rw [hslot, hphase]
    refine ⟨rfl, rfl, rfl, rfl, huse, fun hm => ⟨rfl, ?_⟩, fun hm => ?_⟩
    · split_ifs <;> simp
    · rw [if_neg (by simpa [hm] using hown), if_pos (by omega)]
      simp
  · rw [if_neg]
    · rfl
    · rintro ⟨hf, hle⟩
      have hz : n + s₀.phase.turnsToCome i = 0 := by omega
      rw [hz, SoftTimer.fires_iff hp (Nat.zero_le _)] at hf
      omega

end Start

/-- The step starts slot `i`. -/
def startsSlot (i : Fin cfg.rtosSoftTimerCount) (e : Edge cfg) : Bool :=
  e.act = .call (.timer (.softStart (some i)))

/-- Slot `i` is not armed, or it is a one-shot slot whose callback is about to return. -/
def Silent (i : Fin cfg.rtosSoftTimerCount) (u : System cfg) : Prop :=
  (u.machine.timer.softTimers i).inUse = true → (u.machine.timer.softTimers i).active = true →
    u.phase.inCallbackOf i = true ∧ (u.machine.timer.softTimers i).mode = .oneShot

section Steps
variable {u w : System cfg} {a : Action cfg} {o : Observation cfg}
  {i : Fin cfg.rtosSoftTimerCount}

/-- A call that does not start the slot does not arm it. -/
theorem Silent.exec {t : TimerState cfg} {c : TimerCall cfg} (hc : c ≠ .softStart (some i))
    (h : ((c.exec t).2.softTimers i).active = true) :
    (c.exec t).2.softTimers i = t.softTimers i := by
  have hon := c.exec_onSlot t i
  generalize (c.exec t).2.softTimers i = y at hon h
  cases hon with
  | same => rfl
  | started => exact absurd rfl hc
  | created | stopped | deleted => cases h

/-- A slot that is not armed is skipped at its turn. -/
theorem Silent.turn (h : Silent i u) (hown : u.phase.inCallbackOf i = false) :
    (u.machine.timer.softTimers i).turn = (false, u.machine.timer.softTimers i) := by
  refine SoftTimer.turn_skipped ?_
  by_contra hne
  simp only [Bool.not_eq_false, Bool.and_eq_true] at hne
  have hin := (h hne.1 hne.2).1
  rw [hown] at hin
  cases hin

theorem Silent.not_called (h : Silent i u) (hs : MiniRtos.step u a = some (o, w)) :
    ¬ callsBack i (⟨u, a, o, w⟩ : Edge cfg) := by
  intro hc
  obtain ⟨hown, hown'⟩ := phase_of_callsBack hs hc
  cases slotStep (i := i) hs with
  | cleared _ _ hp => simp [hp, Phase.inCallbackOf] at hown'
  | call _ _ hp => simp [hp, hown] at hown'
  | kept _ he _ => simp [he, hown] at hown'
  | passed _ _ _ _ _ he => simp [he] at hown'
  | called _ _ hfire => simp [h.turn hown] at hfire
  | returned _ he => simp [he] at hown

/-- The slot stays silent: its callback's return reloads a periodic slot, which does not
arm it, and disarms a one-shot slot. -/
theorem Silent.step (h : Silent i u) (hs : MiniRtos.step u a = some (o, w))
    (hstarts : ¬ startsSlot i (⟨u, a, o, w⟩ : Edge cfg)) : Silent i w := by
  intro hu ha
  cases slotStep (i := i) hs with
  | cleared _ hz => simp [hz, SoftTimer.zero] at hu
  | @call c hact ht hphase =>
      subst hact
      rw [ht] at hu ha ⊢
      have hkept := Silent.exec (by simpa [startsSlot] using hstarts) ha
      rw [hkept] at hu ha ⊢
      rw [hphase]
      exact h hu ha
  | kept hslot hown _ =>
      rw [hslot] at hu ha ⊢
      rw [hown]
      exact h hu ha
  | passed _ hown _ hslot _ _ =>
      rw [hslot, h.turn hown] at hu ha
      have hin := (h hu ha).1
      rw [hown] at hin
      cases hin
  | called _ hown hfire => simp [h.turn hown] at hfire
  | returned _ _ hslot _ _ =>
      rw [hslot, SoftTimer.reload] at hu ha
      by_cases hm : (u.machine.timer.softTimers i).mode = .periodic
      · rw [if_pos hm] at hu ha
        have hone := (h hu ha).2
        rw [hm] at hone
        cases hone
      · rw [if_neg hm] at ha
        cases ha

end Steps

/-- Nobody calls the callback of a silent slot before the slot is started again. -/
theorem Silent.run {s v : System cfg} {tr : History cfg} {i : Fin cfg.rtosSoftTimerCount}
    (hs : Silent i s) (h : Run MiniRtos.step s tr v) (hstarts : ∀ e ∈ tr, ¬ startsSlot i e) :
    Silent i v ∧ ∀ e ∈ tr, ¬ callsBack i e :=
  h.edge_invariant hs hstarts fun _ _ _ _ hu hst hstep =>
    ⟨hu.step hstep hst, hu.not_called hstep⟩

theorem invocations_eq_zero {i : Fin cfg.rtosSoftTimerCount} {tr : History cfg}
    (h : ∀ e ∈ tr, ¬ callsBack i e) (n : ℕ) : invocations i n tr = 0 := by
  induction tr with
  | nil => rfl
  | cons e tr ih =>
      have hc := h e (by simp)
      simp [invocations, hc, ih fun d hd => h d (by simp [hd])]

/-- `timer_soft_stop` and `timer_soft_delete` of slot `i`. -/
def TimerCall.stops (i : Fin cfg.rtosSoftTimerCount) : TimerCall cfg → Bool
  | .softStop timer | .softDelete timer => timer = some i
  | _ => false

theorem silent_of_stops {s₀ s : System cfg} {i : Fin cfg.rtosSoftTimerCount} {c : TimerCall cfg}
    {o : Observation cfg} (hc : c.stops i) (hstep : step s₀ (.call (.timer c)) = some (o, s)) :
    Silent i s := by
  intro hu ha
  cases step_cases hstep with
  | call _ hexec =>
      cases Machine.exec_cases hexec with
      | timer =>
          cases c with
          | softStop timer | softDelete timer =>
              obtain rfl : timer = some i := by simpa [TimerCall.stops] using hc
              simp only [TimerCall.exec, TimerState.timerSoftStop, TimerState.timerSoftDelete,
                TimerState.onSlotInUse_softTimers, Function.update_self] at hu ha
              split_ifs at hu ha with hin
              exact absurd hu hin
          | _ => simp [TimerCall.stops] at hc

end MiniRtos
