import MiniRtos.EventTable

/-!
# A woken waiter finds its flags cleared

`event_flags_set` clears the flags of every entry it selects before it makes the task
READY, and the woken task has to call `event_flags_wait` again to learn what happened.
Nothing else hands the event over, so the second call blocks once more, for every mask,
every table and every way the steps in between are ordered.
-/
namespace MiniRtos
open TransitionSystem
variable {cfg : Config}

/-- In its run task `t` waits for `mask` on object `i`, and that blocks it. -/
structure WaitBlocks (s s₁ : System cfg) (i : ℕ) (mask : BitVec 32) (t : ℕ) : Prop where
  reachable : Reachable s
  phase : ∃ left, s.phase = .task left t
  step : step s (.call (.event (.wait (some i) mask))) = some (.returned (.bool false), s₁)
  before : t ∉ s.machine.sched.blockedOn .event
  after : t ∈ s₁.machine.sched.blockedOn .event

/-- Task `t` stays blocked and does not wait on object `i` once more. -/
def staysBlocked (i t : ℕ) (e : Edge cfg) : Bool :=
  decide (t ∈ e.dst.machine.sched.blockedOn .event) &&
    match e.act with
    | .call (.event (.wait ef _)) => !(ef = some i ∧ e.src.machine.sched.currentTaskIndex = t)
    | _ => true

/-- Somebody sets flags of object `i`, and that wakes task `t`. -/
structure SetWakes (u u₁ : System cfg) (i : ℕ) (x : BitVec 32) (t : ℕ) : Prop where
  step : step u (.call (.event (.set (some i) x))) = some (.returned .void, u₁)
  woken : t ∉ u₁.machine.sched.blockedOn .event

/-- The step is no call on object `i`. -/
def quietOn (i : ℕ) (e : Edge cfg) : Bool :=
  match e.act with
  | .call (.event c) => !c.onFlags i
  | _ => true

/-- Task `t` is running again and waits for the same flags, with this result. -/
structure Rechecks (w w' : System cfg) (i : ℕ) (mask : BitVec 32) (t : ℕ) (result : Bool) :
    Prop where
  phase : ∃ left, w.phase = .task left t
  step : step w (.call (.event (.wait (some i) mask))) = some (.returned (.bool result), w')

/-- A waiter that was woken receives its event. -/
def EventsDelivered (cfg : Config) : Prop :=
  ∀ (s s₁ u u₁ w w' : System cfg) (tr₁ tr₂ : History cfg) (i t : ℕ) (mask x : BitVec 32)
    (result : Bool), WaitBlocks s s₁ i mask t → Run step s₁ tr₁ u →
      (∀ e ∈ tr₁, staysBlocked i t e) → SetWakes u u₁ i x t → Run step u₁ tr₂ w →
        (∀ e ∈ tr₂, quietOn i e) → Rechecks w w' i mask t result → result = true

/-- While task `t` is blocked by its wait for `mask`, the table holds that entry, or none
of `t` if the object was initialised again. -/
def Recorded (i : ℕ) (mask : BitVec 32) (t : ℕ) (s : System cfg) : Prop :=
  ⟨t, mask⟩ ∈ (s.machine.objects.eventFlags i).entries ∨
    ∀ w ∈ (s.machine.objects.eventFlags i).entries, w.taskIndex ≠ t

section Steps
variable {u w : System cfg} {i t : ℕ} {mask : BitVec 32}

theorem WaitBlocks.recorded {s s₁ : System cfg} (h : WaitBlocks s s₁ i mask t) :
    mask ≠ 0#32 ∧ Recorded i mask t s₁ := by
  obtain ⟨left, hp⟩ := h.phase
  have hcur : s.machine.sched.currentTaskIndex = t := (h.reachable.inv.task left t hp).2
  have hbefore := h.before
  have hafter := h.after
  cases step_cases h.step with
  | @call _ _ m _ hexec =>
      obtain ⟨-, hsched, hobj⟩ := Machine.exec_event hexec
      rcases (s.machine.objects.eventFlags i).eventFlagsWait_cases s.machine.sched mask with
        ⟨-, hs⟩ | hparks
      · rw [hsched] at hafter
        exact absurd (hs ▸ hafter) hbefore
      · refine ⟨hparks.mask_ne, .inl ?_⟩
        rw [hobj, EventCall.exec_wait, hparks.entries, hcur]
        exact Multiset.mem_cons_self _ _

/-- An event wake of a task that stays blocked did not select it. -/
theorem not_selected_of_blocked {m m' : Machine cfg} {x : BitVec 32} {v : Value} (hx : x ≠ 0#32)
    (hexec : m.exec (.event (.set (some i) x)) = some (v, m'))
    (hstays : t ∈ m'.sched.blockedOn .event) :
    ∀ e ∈ EventFlags.selected (m.objects.eventFlags i).waiterCount
      ((m.objects.eventFlags i).flags ||| x) (m.objects.eventFlags i).waiters, e.taskIndex ≠ t := by
  intro e he hte
  obtain ⟨hlt, hst⟩ := Sched.mem_blockedOn.mp hstays
  rw [Machine.exec_sched hexec] at hlt hst
  simp only [Machine.effect, EventCall.effect, if_neg hx] at hlt hst
  rw [Effect.apply_taskCount _ (by simp)] at hlt
  rw [Sched.wake_status, if_pos ⟨List.mem_map.mpr ⟨e, he, hte⟩, hlt⟩] at hst
  cases hst

theorem Recorded.step (h : Recorded i mask t u) {a : Action cfg} {o : Observation cfg}
    (hs : step u a = some (o, w)) (hstays : staysBlocked i t (⟨u, a, o, w⟩ : Edge cfg)) :
    Recorded i mask t w := by
  simp only [staysBlocked, Bool.and_eq_true, decide_eq_true_eq] at hstays
  obtain ⟨hblocked, hwait⟩ := hstays
  cases hc : step_cases hs with
  | @call c v m _ hexec =>
      by_cases hon : ∀ c', c = .event c' → c'.onFlags i = false
      · simpa only [Recorded, Machine.exec_eventFlags hexec hon] using h
      push Not at hon
      obtain ⟨c, rfl, hon⟩ := hon
      obtain ⟨-, hsched, hobj⟩ := Machine.exec_event hexec
      cases c with
      | init ef =>
          obtain rfl : ef = some i := by simpa [EventCall.onFlags] using hon
          refine .inr ?_
          simp [hobj, EventCall.exec, Objects.setEventFlags, EventFlags.eventFlagsInit,
            EventFlags.entries]
      | set ef x =>
          obtain rfl : ef = some i := by simpa [EventCall.onFlags] using hon
          by_cases hx : x = 0#32
          · simpa [Recorded, hobj, EventCall.exec_set, EventFlags.eventFlagsSet, hx] using h
          · have hsel := not_selected_of_blocked hx hexec hblocked
            obtain ⟨hent, -⟩ :=
              (u.machine.objects.eventFlags i).eventFlagsSet_spec u.machine.sched hx
            simp only [Recorded, hobj, EventCall.exec_set]
            simp only [Recorded, hent, Multiset.mem_add, Multiset.mem_coe] at h
            rcases h with (h | h) | h
            · exact absurd rfl (hsel _ h)
            · exact .inl h
            · exact .inr fun e he => h e (.inr he)
      | clear ef x =>
          obtain rfl : ef = some i := by simpa [EventCall.onFlags] using hon
          simpa [Recorded, hobj, EventCall.exec, Objects.setEventFlags,
            EventFlags.eventFlagsClear, EventFlags.entries] using h
      | get ef =>
          obtain rfl : ef = some i := by simpa [EventCall.onFlags] using hon
          simpa [Recorded, hobj, EventCall.exec] using h
      | wait ef x =>
          obtain rfl : ef = some i := by simpa [EventCall.onFlags] using hon
          have hne : u.machine.sched.currentTaskIndex ≠ t := by simpa using hwait
          rcases (u.machine.objects.eventFlags i).eventFlagsWait_cases u.machine.sched x with
            ⟨he, -⟩ | hparks
          · simpa only [Recorded, hobj, EventCall.exec_wait, he] using h
          · simp only [Recorded, hobj, EventCall.exec_wait, hparks.entries, Multiset.mem_cons]
            rcases h with h | h
            · exact .inl (.inr h)
            · refine .inr ?_
              rintro e (rfl | he)
              · exact hne
              · exact h e he
  | _ => exact h

/-- After the wake the flags that are left do not satisfy the waiter's mask. -/
theorem SetWakes.unsatisfied {u₁ : System cfg} {x : BitVec 32} (h : SetWakes u u₁ i x t)
    (hblocked : t ∈ u.machine.sched.blockedOn .event) (hm : mask ≠ 0#32)
    (hr : Recorded i mask t u) :
    ¬ EventFlags.satisfied (u₁.machine.objects.eventFlags i).flags mask := by
  have hwoken := h.woken
  cases step_cases h.step with
  | @call _ _ m _ hexec =>
      obtain ⟨-, -, hobj⟩ := Machine.exec_event hexec
      obtain ⟨hlt, hst⟩ := Sched.mem_blockedOn.mp hblocked
      have hsched := Machine.exec_sched hexec
      simp only [Machine.effect, EventCall.effect] at hsched
      by_cases hx : x = 0#32
      · rw [if_pos hx] at hsched
        exact absurd (hsched ▸ hblocked) hwoken
      rw [if_neg hx] at hsched
      obtain ⟨hent, hunsat⟩ :=
        (u.machine.objects.eventFlags i).eventFlagsSet_spec u.machine.sched hx
      -- the wake went through an entry of the task, so the recorded entry is there
      have hsel : ∃ e ∈ (u.machine.objects.eventFlags i).entries, e.taskIndex = t := by
        by_contra hnone
        push Not at hnone
        refine hwoken (Sched.mem_blockedOn.mpr ?_)
        rw [hsched, Effect.apply_taskCount _ (by simp), Sched.wake_status, if_neg]
        · exact ⟨hlt, hst⟩
        · rintro ⟨ht, -⟩
          obtain ⟨e, he, hte⟩ := List.mem_map.mp ht
          refine hnone e ?_ hte
          rw [hent]
          exact Multiset.mem_add.mpr (.inl he)
      have hmem : ⟨t, mask⟩ ∈ (u.machine.objects.eventFlags i).entries := by
        rcases hr with hr | hr
        · exact hr
        · obtain ⟨e, he, hte⟩ := hsel
          exact absurd hte (hr e he)
      rw [hobj, EventCall.exec_set]
      exact hunsat _ hmem hm

theorem flags_quiet {a : Action cfg} {o : Observation cfg} (hs : step u a = some (o, w))
    (hq : quietOn i (⟨u, a, o, w⟩ : Edge cfg)) :
    w.machine.objects.eventFlags i = u.machine.objects.eventFlags i := by
  cases hc : step_cases hs with
  | @call c v m _ hexec =>
      refine Machine.exec_eventFlags hexec ?_
      rintro c rfl
      simpa [quietOn] using hq
  | _ => rfl

end Steps

/-- Whatever happens in between, the wait a woken task repeats blocks it again. -/
theorem woken_waiter_blocks_again {s s₁ u u₁ w w' : System cfg} {tr₁ tr₂ : History cfg}
    {i t : ℕ} {mask x : BitVec 32} {result : Bool} (hwait : WaitBlocks s s₁ i mask t)
    (h₁ : Run step s₁ tr₁ u) (hstays : ∀ e ∈ tr₁, staysBlocked i t e)
    (hset : SetWakes u u₁ i x t) (h₂ : Run step u₁ tr₂ w) (hquiet : ∀ e ∈ tr₂, quietOn i e)
    (hcheck : Rechecks w w' i mask t result) : result = false := by
  obtain ⟨hm, hrec⟩ := hwait.recorded
  have hu : t ∈ u.machine.sched.blockedOn .event ∧ Recorded i mask t u := by
    refine h₁.invariant_on
      (P := fun u => t ∈ u.machine.sched.blockedOn .event ∧ Recorded i mask t u)
      ⟨hwait.after, hrec⟩ hstays ?_
    intro u a o w hu hok hs
    refine ⟨?_, hu.2.step hs hok⟩
    simp only [staysBlocked, Bool.and_eq_true, decide_eq_true_eq] at hok
    exact hok.1
  have hu₁ := hset.unsatisfied hu.1 hm hu.2
  have hw : w.machine.objects.eventFlags i = u₁.machine.objects.eventFlags i := by
    refine h₂.invariant_on
      (P := fun w => w.machine.objects.eventFlags i = u₁.machine.objects.eventFlags i)
      rfl hquiet ?_
    intro u a o w hu hok hs
    exact (flags_quiet hs hok).trans hu
  cases step_cases hcheck.step with
  | call _ hexec =>
      obtain ⟨hv, -, -⟩ := Machine.exec_event hexec
      simp only [EventCall.exec, Value.bool.injEq] at hv
      rw [hv, EventFlags.eventFlagsWait, if_neg hm, if_neg (hw ▸ hu₁)]
      split_ifs <;> rfl

/-- A task of priority 2 waits for flag 1, and a task of priority 1 sets it. -/
def deliveryStart : List (Action Config.default) :=
  [.call (.event (.init (some 0))), .call (.task (.create 2 0x1000#64)),
    .call (.task (.create 1 0x2000#64)), .run 3] ++ cycleActions _

/-- Every premise of event delivery holds in one run, and the second wait gives `false`. -/
theorem delivery_scenario :
    ∃ (s s₁ u u₁ w w' : System .default) (tr₁ tr₂ : History .default),
      WaitBlocks s s₁ 0 1#32 0 ∧ Run step s₁ tr₁ u ∧ (∀ e ∈ tr₁, staysBlocked 0 0 e) ∧
        SetWakes u u₁ 0 1#32 0 ∧ Run step u₁ tr₂ w ∧ (∀ e ∈ tr₂, quietOn 0 e) ∧
          Rechecks w w' 0 1#32 0 false := by
  let s := (System.after _ deliveryStart).2
  let s₁ := (played step s [.call (.event (.wait (some 0) 1#32))]).2
  let r₁ := played step s₁ (.ret :: cycleActions _)
  let u₁ := (played step r₁.2 [.call (.event (.set (some 0) 1#32))]).2
  let r₂ := played step u₁ (.ret :: cycleActions _)
  let w' := (played step r₂.2 [.call (.event (.wait (some 0) 1#32))]).2
  refine ⟨s, s₁, r₁.2, u₁, r₂.2, w', r₁.1, r₂.1, ⟨System.after_reachable _, ⟨2, ?_⟩,
    step_eq_played ?_, ?_, ?_⟩, run_played _ _, ?_, ⟨step_eq_played ?_, ?_⟩, run_played _ _, ?_,
      ⟨⟨0, ?_⟩, step_eq_played ?_⟩⟩ <;> decide +kernel

theorem events_not_delivered : ¬ EventsDelivered .default := by
  intro h
  obtain ⟨s, s₁, u, u₁, w, w', tr₁, tr₂, hwait, h₁, hstays, hset, h₂, hquiet, hcheck⟩ :=
    delivery_scenario
  exact absurd (h _ _ _ _ _ _ _ _ _ _ _ _ _ hwait h₁ hstays hset h₂ hquiet hcheck) (by decide)

theorem woken_waiter_blocks_again_scenario : ∃ (w w' : System .default) (result : Bool),
    Rechecks w w' 0 1#32 0 result ∧ result = false := by
  obtain ⟨s, s₁, u, u₁, w, w', tr₁, tr₂, hwait, h₁, hstays, hset, h₂, hquiet, hcheck⟩ :=
    delivery_scenario
  exact ⟨w, w', false, hcheck,
    woken_waiter_blocks_again hwait h₁ hstays hset h₂ hquiet hcheck⟩

end MiniRtos
