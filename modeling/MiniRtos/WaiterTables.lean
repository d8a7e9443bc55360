import MiniRtos.EventTable

/-!
# When the waiter tables are exact

A task has an entry exactly while it is blocked on events, as long as `event_flags_set`
is the only thing that takes a task out of that state. Two other operations do so without
telling the table: `rtos_suspend_task` on such a task, and a call from outside the task
functions that blocks the current task for another reason. In the runs without these the
tables are exact, and `event_flags_wait` never finds a table full.
-/
namespace MiniRtos
open TransitionSystem
variable {cfg : Config}

/-- How many entries of object `i` name task `t`. -/
def Objects.entryCount (o : Objects) (i t : ℕ) : ℕ :=
  ((o.eventFlags i).entries.map (·.taskIndex)).count (t : ℤ)

/-- The tables name the tasks that are blocked on events, each of them once. -/
structure ExactTables (o : Objects) (s : Sched cfg) : Prop where
  valid : ∀ i, ∀ w ∈ (o.eventFlags i).entries, ∃ t < s.taskCount, w.taskIndex = t
  waiting : ∀ t ∈ s.blockedOn .event, ∃ i, ∀ j, o.entryCount j t = if j = i then 1 else 0
  others : ∀ t < s.taskCount, t ∉ s.blockedOn .event → ∀ j, o.entryCount j t = 0

section Tables
variable {o : Objects} {s : Sched cfg} {i : ℕ} {ef : EventFlags}

theorem Objects.entryCount_of_ne (o : Objects) {j : ℕ} (h : j ≠ i) (t : ℕ) :
    (o.setEventFlags i ef).entryCount j t = o.entryCount j t := by
  simp only [entryCount, o.setEventFlags_of_ne h]

theorem wake_blockedOn {ts : List ℤ} {t : ℕ} :
    t ∈ (Effect.apply s (.wake ts)).blockedOn .event ↔
      t ∈ s.blockedOn .event ∧ (t : ℤ) ∉ ts := by
  rw [Sched.mem_blockedOn, Sched.mem_blockedOn, Effect.apply_taskCount s (by simp),
    Sched.wake_status]
  by_cases hlt : t < s.taskCount
  · by_cases hm : (t : ℤ) ∈ ts
    · simp [hlt, hm]
    · simp only [hlt, hm, if_false, not_false_eq_true, and_true, true_and]
  · simp [hlt]

theorem park_blockedOn {t u : ℕ} (hlt : t < s.taskCount) (hcur : s.currentTaskIndex = t) :
    u ∈ (s.schedulerSetCurrentTaskState .blocked .event).blockedOn .event ↔
      u = t ∨ u ∈ s.blockedOn .event := by
  simp only [Sched.mem_blockedOn, Sched.schedulerSetCurrentTaskState,
    Sched.setTaskState_taskCount, Sched.setTaskState_status, hcur, Int.natCast_inj]
  by_cases hu : u = t
  · subst hu
    simp [hlt]
  · simp [hu]

end Tables

section Discipline

/-- A task's `event_flags_wait` gave it `false`. -/
def waitGaveFalse (e : Edge cfg) : Bool :=
  match e.src.phase, e.act, e.obs with
  | .task _ _, .call (.event (.wait _ _)), .returned (.bool false) => true
  | _, _, _ => false

/-- How the program uses event flags: only tasks wait, a task returns at once when its
wait gave it `false`, objects are initialised while nobody waits on them, and the
kernel is not initialised again. -/
def usesEvents (e : Edge cfg) (tr : History cfg) : Bool :=
  (tr.head?.all fun d => !waitGaveFalse d || e.act = .ret) &&
    match e.act with
    | .init => false
    | .call (.event (.wait _ _)) => e.src.phase.isTask
    | .call (.event (.init (some i))) => (e.src.machine.objects.eventFlags i).waiterCount = 0
    | _ => true

theorem ret_of_waitGaveFalse {e d : Edge cfg} {tr : History cfg} (h : usesEvents e tr)
    (hd : d ∈ tr.head?) (hw : waitGaveFalse d) : e.act = .ret := by
  simp only [usesEvents, Bool.and_eq_true, Option.all_eq_true] at h
  simpa [hw] using h.1 d hd

/-- Nothing but `event_flags_set` takes a task out of its wait on events. -/
def keepsEventWaits (e : Edge cfg) : Bool :=
  match e.act with
  | .call (.task (.suspend taskId)) =>
      (e.src.machine.sched.taskIndexFromId taskId).all fun t =>
        t ∉ e.src.machine.sched.blockedOn .event
  | .call c =>
      !e.src.machine.blocksCurrent c || e.src.phase.isTask ||
        e.src.machine.sched.rtosCurrentTask.all fun t =>
          t ∉ e.src.machine.sched.blockedOn .event
  | _ => true

/-- All event flags objects are initialised: none has a live entry. -/
def EventsInitialised (s : System cfg) : Prop :=
  ∀ i, (s.machine.objects.eventFlags i).waiterCount = 0

end Discipline

namespace ExactTables
variable {o o' : Objects} {s s' : Sched cfg}

theorem congr (h : ExactTables o s)
    (hent : ∀ i, (o'.eventFlags i).entries = (o.eventFlags i).entries)
    (hcount : s.taskCount ≤ s'.taskCount)
    (hold : ∀ t < s.taskCount, t ∈ s'.blockedOn .event ↔ t ∈ s.blockedOn .event)
    (hnew : ∀ t ∈ s'.blockedOn .event, t < s.taskCount) : ExactTables o' s' := by
  have hcnt : ∀ i t, o'.entryCount i t = o.entryCount i t := fun i t => by
    simp only [Objects.entryCount, hent]
  refine ⟨fun i w hw => ?_, fun t ht => ?_, fun t hlt ht j => ?_⟩
  · obtain ⟨t, hlt, hwt⟩ := h.valid i w (hent i ▸ hw)
    exact ⟨t, hlt.trans_le hcount, hwt⟩
  · obtain ⟨i, hi⟩ := h.waiting t ((hold t (hnew t ht)).mp ht)
    exact ⟨i, fun j => (hcnt j t).trans (hi j)⟩
  · rw [hcnt]
    by_cases hold' : t < s.taskCount
    · exact h.others t hold' (fun hb => ht ((hold t hold').mpr hb)) j
    · refine Multiset.count_eq_zero.mpr fun hm => ?_
      obtain ⟨w, hw, hwt⟩ := Multiset.mem_map.mp hm
      obtain ⟨t', hlt', hwt'⟩ := h.valid j w hw
      omega

theorem entryCount_le_one (h : ExactTables o s) {t : ℕ} (ht : t < s.taskCount) (i : ℕ) :
    o.entryCount i t ≤ 1 := by
  by_cases hb : t ∈ s.blockedOn .event
  · obtain ⟨i', hi'⟩ := h.waiting t hb
    rw [hi']
    split_ifs <;> omega
  · rw [h.others t ht hb]
    omega

/-- Every entry names a task that is blocked on events. -/
theorem blocked_of_mem (h : ExactTables o s) {i : ℕ} {w : EventWaiter}
    (hw : w ∈ (o.eventFlags i).entries) : ∃ t ∈ s.blockedOn .event, w.taskIndex = t := by
  obtain ⟨t, hlt, hwt⟩ := h.valid i w hw
  refine ⟨t, ?_, hwt⟩
  by_contra hb
  have hzero := h.others t hlt hb i
  exact Multiset.count_eq_zero.mp hzero (Multiset.mem_map.mpr ⟨w, hw, hwt⟩)

/-- Taking entries out of one table and waking just their tasks. -/
theorem wake (h : ExactTables o s) {i : ℕ} {ws : List EventWaiter} {ef : EventFlags}
    (hent : (o.eventFlags i).entries = (ws : Multiset EventWaiter) + ef.entries) :
    ExactTables (o.setEventFlags i ef) (Effect.apply s (.wake (ws.map (·.taskIndex)))) := by
  have hcount := Effect.apply_taskCount s (e := .wake (ws.map (·.taskIndex))) (by simp)
  have hsum : ∀ t, o.entryCount i t =
      ((ws : Multiset EventWaiter).map (·.taskIndex)).count (t : ℤ) +
        (o.setEventFlags i ef).entryCount i t := fun t => by
    simp only [Objects.entryCount, o.setEventFlags_at, hent, Multiset.map_add,
      Multiset.count_add]
  have hle : ∀ j t, (o.setEventFlags i ef).entryCount j t ≤ o.entryCount j t := fun j t => by
    by_cases hj : j = i
    · rw [hj, hsum]
      omega
    · exact (o.entryCount_of_ne hj t).le
  refine ⟨fun j w hw => ?_, fun t ht => ?_, fun t hlt ht j => ?_⟩
  · rw [hcount]
    refine h.valid j w ?_
    by_cases hj : j = i
    · subst hj
      rw [o.setEventFlags_at] at hw
      rw [hent]
      exact Multiset.mem_add.mpr (.inr hw)
    · exact o.setEventFlags_of_ne hj ef ▸ hw
  · obtain ⟨hb, hns⟩ := wake_blockedOn.mp ht
    obtain ⟨i', hi'⟩ := h.waiting t hb
    refine ⟨i', fun j => ?_⟩
    rw [← hi' j]
    by_cases hj : j = i
    · rw [hj, hsum, Multiset.count_eq_zero.mpr (by simpa using hns), Nat.zero_add]
    · exact o.entryCount_of_ne hj t
  · rw [hcount] at hlt
    by_cases hb : t ∈ s.blockedOn .event
    · -- a blocked task that was woken had its only entry among those taken out
      have hsel : (t : ℤ) ∈ ws.map (·.taskIndex) := by
        by_contra hns
        exact ht (wake_blockedOn.mpr ⟨hb, hns⟩)
      have hpos : 0 < ((ws : Multiset EventWaiter).map (·.taskIndex)).count (t : ℤ) :=
        Multiset.count_pos.mpr (by simpa using hsel)
      have hsumt := hsum t
      obtain ⟨i', hi'⟩ := h.waiting t hb
      have hii : i = i' := by
        by_contra hne
        have := hi' i
        rw [if_neg hne] at this
        omega
      by_cases hj : j = i
      · have hone := h.entryCount_le_one hlt i
        rw [hj]
        omega
      · rw [o.entryCount_of_ne hj, hi', if_neg (fun he => hj (he.trans hii.symm))]
    · have := hle j t
      rw [h.others t hlt hb j] at this
      omega

/-- Blocking a task on events and recording it. -/
theorem park (h : ExactTables o s) {i t : ℕ} {mask : BitVec 32} {ef : EventFlags}
    (hlt : t < s.taskCount) (hfree : t ∉ s.blockedOn .event) (hcur : s.currentTaskIndex = t)
    (hent : ef.entries = ⟨t, mask⟩ ::ₘ (o.eventFlags i).entries) :
    ExactTables (o.setEventFlags i ef) (s.schedulerSetCurrentTaskState .blocked .event) := by
  have hcnt : ∀ j u, (o.setEventFlags i ef).entryCount j u =
      o.entryCount j u + if j = i ∧ u = t then 1 else 0 := fun j u => by
    by_cases hj : j = i
    · subst hj
      simp [Objects.entryCount, o.setEventFlags_at, hent, Multiset.count_cons, eq_comm]
    · simp [o.entryCount_of_ne hj, hj]
  refine ⟨fun j w hw => ?_, fun u hu => ?_, fun u hlu hu j => ?_⟩
  · simp only [Sched.schedulerSetCurrentTaskState, Sched.setTaskState_taskCount]
    by_cases hj : j = i
    · subst hj
      rw [o.setEventFlags_at, hent, Multiset.mem_cons] at hw
      rcases hw with rfl | hw
      · exact ⟨t, hlt, rfl⟩
      · exact h.valid j w hw
    · exact h.valid j w (o.setEventFlags_of_ne hj ef ▸ hw)
  · rcases (park_blockedOn hlt hcur).mp hu with rfl | hb
    · refine ⟨i, fun j => ?_⟩
      rw [hcnt, h.others u hlt hfree j]
      by_cases hj : j = i <;> simp [hj]
    · obtain ⟨i', hi'⟩ := h.waiting u hb
      refine ⟨i', fun j => ?_⟩
      have hne : u ≠ t := fun he => hfree (he ▸ hb)
      simp [hcnt, hi', hne]
  · simp only [Sched.schedulerSetCurrentTaskState, Sched.setTaskState_taskCount] at hlu
    rw [park_blockedOn hlt hcur, not_or] at hu
    rw [hcnt, h.others u hlu hu.2 j, if_neg (fun hc => hu.1 hc.2)]

/-- A task that is not blocked leaves room in every table that is as long as the task
table. -/
theorem room (h : ExactTables o s) (hs : s.Shape) {t : ℕ} (ht : t < s.taskCount)
    (hfree : t ∉ s.blockedOn .event) (i : ℕ) :
    (o.eventFlags i).waiterCount < cfg.rtosMaxTasks := by
  have hcard : ((o.eventFlags i).entries.map (·.taskIndex)).card =
      (o.eventFlags i).waiterCount := by
    rw [Multiset.card_map, EventFlags.entries, SlotTable.card_entries]
  have hmem : ∀ a ∈ (o.eventFlags i).entries.map (·.taskIndex), ∃ u ∈ s.blockedOn .event,
      a = (u : ℤ) := fun a ha => by
    obtain ⟨w, hw, rfl⟩ := Multiset.mem_map.mp ha
    exact h.blocked_of_mem hw
  have hnodup : ((o.eventFlags i).entries.map (·.taskIndex)).Nodup := by
    refine Multiset.nodup_iff_count_le_one.mpr fun a => ?_
    by_cases ha : a ∈ (o.eventFlags i).entries.map (·.taskIndex)
    · obtain ⟨u, hu, rfl⟩ := hmem a ha
      exact h.entryCount_le_one (Sched.mem_blockedOn.mp hu).1 i
    · rw [Multiset.count_eq_zero.mpr ha]
      omega
  have hsub : (o.eventFlags i).entries.map (·.taskIndex) ⊆
      ((Multiset.range s.taskCount).erase t).map Nat.cast := fun a ha => by
    obtain ⟨u, hu, rfl⟩ := hmem a ha
    have hut : u ≠ t := fun he => hfree (he ▸ hu)
    refine Multiset.mem_map.mpr ⟨u, ?_, rfl⟩
    rw [Multiset.mem_erase_of_ne hut]
    exact Multiset.mem_range.mpr (Sched.mem_blockedOn.mp hu).1
  have hle := Multiset.card_le_card ((Multiset.le_iff_subset hnodup).mpr hsub)
  rw [hcard, Multiset.card_map, Multiset.card_erase_of_mem (Multiset.mem_range.mpr ht),
    Multiset.card_range, Nat.pred_eq_sub_one] at hle
  have := hs.count_le
  omega

end ExactTables

section Steps
variable {u w : System cfg} {a : Action cfg} {o : Observation cfg} {tr : History cfg}

/-- The kernel itself blocks no task on events and wakes none that is. -/
theorem StepCases.blockedOn_event (h : StepCases u a o w) (hu : Inv u) (hi : a ≠ .init)
    (hc : ∀ c, a ≠ .call c) (t : ℕ) :
    t ∈ w.machine.sched.blockedOn .event ↔ t ∈ u.machine.sched.blockedOn .event := by
  simp only [Sched.mem_blockedOn, (h.taskCount hu hi).2 hc]
  refine and_congr_right fun _ => ?_
  cases h.status hu t with
  | kept he => rw [he]
  | called ha => exact absurd ha (hc _)
  | awoken h₁ h₂ => simp [h₁, h₂]
  | dispatched _ _ h₁ h₂ =>
      rw [h₂]
      simp [Sched.status, h₁]
  | takenBack h₁ h₂ =>
      rw [h₂]
      simp [Sched.status, h₁]

/-- While a task that is blocked on events is still executing, its wait was the last
thing it did. -/
def JustWaited (tr : History cfg) (s : System cfg) : Prop :=
  ∀ left t, s.phase = .task left t → t ∈ s.machine.sched.blockedOn .event →
    ∃ d ∈ tr.head?, waitGaveFalse d

structure EventInv (tr : History cfg) (s : System cfg) : Prop where
  inv : Inv s
  tables : ExactTables s.machine.objects s.machine.sched
  waited : JustWaited tr s

/-- A task that makes a call is not blocked on events. -/
theorem EventInv.caller_free (h : EventInv tr u) {c : Call cfg}
    (hok : usesEvents (⟨u, .call c, o, w⟩ : Edge cfg) tr) {left t : ℕ}
    (hp : u.phase = .task left t) : t ∉ u.machine.sched.blockedOn .event := fun hb => by
  obtain ⟨d, hd, hwait⟩ := h.waited left t hp hb
  cases ret_of_waitGaveFalse hok hd hwait

/-- Nor is a current task that somebody's call blocks. -/
theorem EventInv.current_free (h : EventInv tr u) {c : Call cfg}
    (hok : usesEvents (⟨u, .call c, o, w⟩ : Edge cfg) tr)
    (hkeep : keepsEventWaits (⟨u, .call c, o, w⟩ : Edge cfg)) {t : ℕ}
    (hcur : u.machine.sched.rtosCurrentTask = some t) (hb : u.machine.blocksCurrent c) :
    t ∉ u.machine.sched.blockedOn .event := by
  by_cases hp : ∃ left t', u.phase = .task left t'
  · obtain ⟨left, t', hp⟩ := hp
    obtain ⟨hlt, hcur'⟩ := h.inv.task left t' hp
    have ht : t' = t := by
      have := ((Sched.rtosCurrentTask_eq_some _).mp hcur).1
      omega
    exact ht ▸ h.caller_free hok hp
  · have hnot : u.phase.isTask = false := by
      rw [← Bool.not_eq_true, Phase.isTask_iff]
      exact hp
    by_cases hsus : ∃ taskId, c = .task (.suspend taskId)
    · obtain ⟨taskId, rfl⟩ := hsus
      cases hid : u.machine.sched.taskIndexFromId taskId <;>
        simp [Machine.blocksCurrent, Machine.effect, TaskCall.effect, hid] at hb
    · push Not at hsus
      simp only [keepsEventWaits] at hkeep
      simpa [hb, hnot, hcur] using hkeep

/-- Calls other than waits and sets leave the set of waiting tasks as it is. -/
theorem EventInv.blockedOn_event (h : EventInv tr u) {c : Call cfg} {v : Value}
    {m : Machine cfg} (hc : u.machine.exec c = some (v, m))
    (hok : usesEvents (⟨u, .call c, .returned v, ⟨m, u.phase⟩⟩ : Edge cfg) tr)
    (hkeep : keepsEventWaits (⟨u, .call c, .returned v, ⟨m, u.phase⟩⟩ : Edge cfg))
    (hset : ∀ i x, c ≠ .event (.set (some i) x)) (hwait : ∀ i x, c ≠ .event (.wait (some i) x))
    {t : ℕ} (hlt : t < u.machine.sched.taskCount) :
    t ∈ m.sched.blockedOn .event ↔ t ∈ u.machine.sched.blockedOn .event := by
  have hs := Machine.exec_sched hc
  have hlt' : t < m.sched.taskCount := by
    rw [hs]
    exact hlt.trans_le (Effect.taskCount_le _ _)
  have hfree := fun hcur hb => h.current_free (t := t) hok hkeep hcur hb
  simp only [Sched.mem_blockedOn, hlt, hlt', true_and] at hfree ⊢
  rw [hs]
  rcases Effect.apply_status u.machine.sched (u.machine.effect c) t with he | he
  · rw [he]
  generalize hst : ((u.machine.effect c).apply u.machine.sched).status t = st at he ⊢
  cases Machine.statusChange_of_changes he with
  | created ht => omega
  | slept hcur => simpa using hfree hcur rfl
  | suspended hid =>
      simpa [keepsEventWaits, hid, Sched.mem_blockedOn, hlt] using hkeep
  | resumed _ hsus => simp [Sched.status, hsus]
  | parked hr _ heff hcur =>
      have := hfree hcur (by simp [Machine.blocksCurrent, Machine.effect, heff])
      simpa [hr] using this
  | unblocked hr _ _ hb =>
      have := (Sched.mem_blockedOn.mp (List.argmax_mem hb)).2
      rw [this]
      simpa using fun he => hr he
  | waited => exact absurd rfl (hwait _ _)
  | woken => exact absurd rfl (hset _ _)

theorem EventInv.tables_set (h : EventInv tr u) {i : ℕ} {x : BitVec 32} {v : Value}
    {m : Machine cfg} (hc : u.machine.exec (.event (.set (some i) x)) = some (v, m)) :
    ExactTables m.objects m.sched := by
  obtain ⟨-, hsched, hobj⟩ := Machine.exec_event hc
  by_cases hx : x = 0#32
  · simp only [EventCall.exec, EventFlags.eventFlagsSet, if_pos hx] at hsched hobj
    rw [hobj, hsched, Objects.setEventFlags_self]
    exact h.tables
  · have hent := ((u.machine.objects.eventFlags i).eventFlagsSet_spec u.machine.sched hx).1
    rw [Machine.exec_sched hc, hobj]
    simp only [Machine.effect, EventCall.effect, if_neg hx]
    exact h.tables.wake hent

theorem EventInv.tables_wait (h : EventInv tr u) {i : ℕ} {x : BitVec 32} {v : Value}
    {m : Machine cfg} (hc : u.machine.exec (.event (.wait (some i) x)) = some (v, m))
    (hok : usesEvents
      (⟨u, .call (.event (.wait (some i) x)), .returned v, ⟨m, u.phase⟩⟩ : Edge cfg) tr) :
    ExactTables m.objects m.sched := by
  have htask : u.phase.isTask := by
    simp only [usesEvents, Bool.and_eq_true] at hok
    exact hok.2
  obtain ⟨left, t, hp⟩ := Phase.isTask_iff.mp htask
  obtain ⟨-, hsched, hobj⟩ := Machine.exec_event hc
  rcases (u.machine.objects.eventFlags i).eventFlagsWait_cases u.machine.sched x with
    ⟨he, hk⟩ | hparks
  · have hsame : m.sched = u.machine.sched := hsched.trans hk
    rw [hsame]
    refine h.tables.congr (fun j => ?_) le_rfl (fun t _ => Iff.rfl)
      fun t ht => (Sched.mem_blockedOn.mp ht).1
    rw [hobj]
    by_cases hj : j = i
    · rw [hj, EventCall.exec_wait, he]
    · rw [EventCall.exec, Objects.setEventFlags_of_ne _ hj]
  · obtain ⟨hlt, hcur⟩ := h.inv.task left t hp
    have hent := hparks.entries
    rw [hcur] at hent
    rw [hobj, hsched, EventCall.exec]
    simp only [hparks.sched]
    exact h.tables.park hlt (h.caller_free hok hp) hcur hent

/-- Calls other than waits and sets leave the entries as they are. -/
theorem entries_kept {c : Call cfg} {v : Value} {m : Machine cfg}
    (hc : u.machine.exec c = some (v, m))
    (hok : usesEvents (⟨u, .call c, .returned v, ⟨m, u.phase⟩⟩ : Edge cfg) tr)
    (hset : ∀ i x, c ≠ .event (.set (some i) x)) (hwait : ∀ i x, c ≠ .event (.wait (some i) x))
    (j : ℕ) : (m.objects.eventFlags j).entries = (u.machine.objects.eventFlags j).entries := by
  by_cases hon : ∀ c', c = .event c' → c'.onFlags j = false
  · rw [Machine.exec_eventFlags hc hon]
  push Not at hon
  obtain ⟨c, rfl, hon⟩ := hon
  obtain ⟨-, -, hobj⟩ := Machine.exec_event hc
  rw [hobj]
  cases c with
  | init ef =>
      obtain rfl : ef = some j := by simpa [EventCall.onFlags] using hon
      have hzero : (u.machine.objects.eventFlags j).waiterCount = 0 := by
        simp only [usesEvents, Bool.and_eq_true, decide_eq_true_eq] at hok
        exact hok.2
      simp [EventCall.exec, Objects.setEventFlags, EventFlags.eventFlagsInit, EventFlags.entries,
        hzero]
  | clear ef x =>
      obtain rfl : ef = some j := by simpa [EventCall.onFlags] using hon
      simp [EventCall.exec, Objects.setEventFlags, EventFlags.eventFlagsClear, EventFlags.entries]
  | get ef => cases ef <;> rfl
  | set ef x =>
      obtain rfl : ef = some j := by simpa [EventCall.onFlags] using hon
      exact absurd rfl (hset _ _)
  | wait ef x =>
      obtain rfl : ef = some j := by simpa [EventCall.onFlags] using hon
      exact absurd rfl (hwait _ _)

theorem EventInv.tables_step (h : EventInv tr u) {c : Call cfg} {v : Value}
    {m : Machine cfg} (hs : step u (.call c) = some (.returned v, ⟨m, u.phase⟩))
    (hc : u.machine.exec c = some (v, m))
    (hok : usesEvents (⟨u, .call c, .returned v, ⟨m, u.phase⟩⟩ : Edge cfg) tr)
    (hkeep : keepsEventWaits (⟨u, .call c, .returned v, ⟨m, u.phase⟩⟩ : Edge cfg)) :
    ExactTables m.objects m.sched := by
  by_cases hset : ∃ i x, c = .event (.set (some i) x)
  · obtain ⟨i, x, rfl⟩ := hset
    exact h.tables_set hc
  by_cases hwait : ∃ i x, c = .event (.wait (some i) x)
  · obtain ⟨i, x, rfl⟩ := hwait
    exact h.tables_wait hc hok
  push Not at hset hwait
  have hsc := step_cases hs
  refine h.tables.congr (entries_kept hc hok hset hwait) (hsc.taskCount h.inv (by simp)).1
    (fun t => h.blockedOn_event hc hok hkeep hset hwait) fun t ht => ?_
  by_contra hge
  obtain ⟨hlt, hst⟩ := Sched.mem_blockedOn.mp ht
  have hnew := hsc.status_new h.inv (by simp) (not_lt.mp hge) hlt
  cases hst.symm.trans hnew

/-- A task that is found blocked on events after its own call has just waited. -/
theorem EventInv.waited_step (h : EventInv tr u) {c : Call cfg} {v : Value}
    {m : Machine cfg} (hc : u.machine.exec c = some (v, m))
    (hok : usesEvents (⟨u, .call c, .returned v, ⟨m, u.phase⟩⟩ : Edge cfg) tr) :
    JustWaited (⟨u, .call c, .returned v, ⟨m, u.phase⟩⟩ :: tr) ⟨m, u.phase⟩ := by
  intro left t hp hb
  refine ⟨_, rfl, ?_⟩
  have hp' : u.phase = .task left t := hp
  have hfree := h.caller_free hok hp'
  obtain ⟨hlt, -⟩ := h.inv.task left t hp'
  obtain ⟨-, hst⟩ := Sched.mem_blockedOn.mp hb
  have hs := Machine.exec_sched hc
  rcases Effect.apply_status u.machine.sched (u.machine.effect c) t with he | he
  · rw [← hs, hst] at he
    exact absurd (Sched.mem_blockedOn.mpr ⟨hlt, he.symm⟩) hfree
  rw [← hs, hst] at he
  cases Machine.statusChange_of_changes he with
  | parked hr => exact absurd rfl hr
  | @waited i x _ heff _ =>
      obtain ⟨hv, hsched, -⟩ := Machine.exec_event hc
      rcases (u.machine.objects.eventFlags i).eventFlagsWait_cases u.machine.sched x with
        ⟨-, hk⟩ | hparks
      · have hsame : m.sched = u.machine.sched := hsched.trans hk
        exact absurd (hsame ▸ hb) hfree
      · simp [waitGaveFalse, hp', hv, EventCall.exec, hparks.result]

theorem EventInv.step (h : EventInv tr u) (hok : usesEvents (⟨u, a, o, w⟩ : Edge cfg) tr)
    (hkeep : keepsEventWaits (⟨u, a, o, w⟩ : Edge cfg)) (hs : step u a = some (o, w)) :
    EventInv (⟨u, a, o, w⟩ :: tr) w := by
  have hsc := step_cases hs
  have hi : a ≠ .init := by
    rintro rfl
    simp [usesEvents] at hok
  by_cases hcall : ∃ c, a = .call c
  · obtain ⟨c, rfl⟩ := hcall
    cases hsc with
    | call _ hc => exact ⟨h.inv.step hs, h.tables_step hs hc hok hkeep, h.waited_step hc hok⟩
  push Not at hcall
  have hb := hsc.blockedOn_event h.inv hi hcall
  refine ⟨h.inv.step hs, ?_, fun left t hp hbt => ?_⟩
  · refine h.tables.congr (fun i => by rw [hsc.objects hcall])
      (hsc.taskCount h.inv hi).1 (fun t _ => hb t) fun t ht => ?_
    exact (Sched.mem_blockedOn.mp ((hb t).mp ht)).1
  · -- only a dispatch enters a task function, and then the task is running
    have hst := (Sched.mem_blockedOn.mp hbt).2
    cases hsc with
    | @taskCalled left' t' b sched active hd he =>
        cases hp
        have r := Sched.Decides.runs h.inv.wellFormed (he ▸ h.inv.decides hd)
        have := r.status t
        rw [if_pos rfl] at this
        simp [this] at hst
    | call => exact absurd rfl (hcall _)
    | init => exact absurd rfl hi
    | _ => simp_all

end Steps

/-- The waiter tables tell who waits, and `event_flags_set` wakes only those. -/
structure WaitersExact (s : System cfg) : Prop where
  entry_iff : ∀ t < s.machine.sched.taskCount,
    (∃ i, 0 < s.machine.objects.entryCount i t) ↔ t ∈ s.machine.sched.blockedOn .event
  once : ∀ t ∈ s.machine.sched.blockedOn .event,
    ∃ i, s.machine.objects.entryCount i t = 1 ∧ ∀ j ≠ i, s.machine.objects.entryCount j t = 0
  wakes : ∀ i mask, ∀ w ∈ EventFlags.selected (s.machine.objects.eventFlags i).waiterCount
      ((s.machine.objects.eventFlags i).flags ||| mask) (s.machine.objects.eventFlags i).waiters,
    ∃ t ∈ s.machine.sched.blockedOn .event, w.taskIndex = t

/-- No `event_flags_wait` of the run found its table full. -/
def NeverFull (tr : History cfg) : Prop :=
  cfg.rtosEventMaxWaiters = cfg.rtosMaxTasks →
    ∀ e ∈ tr, ∀ i mask, e.act = .call (.event (.wait (some i) mask)) →
      (e.src.machine.objects.eventFlags i).waiterCount < cfg.rtosEventMaxWaiters

/-- The waiter tables are exact and never full, in every run that uses events properly. -/
def TablesExact (cfg : Config) : Prop :=
  ∀ (s v : System cfg) (tr : History cfg), Initial s → EventsInitialised s → Run step s tr v →
    Disciplined (fun e tr => usesEvents e tr) tr → WaitersExact v ∧ NeverFull tr

theorem EventInv.waitersExact {tr : History cfg} {s : System cfg} (h : EventInv tr s) :
    WaitersExact s where
  entry_iff t ht := by
    constructor
    · rintro ⟨i, hi⟩
      by_contra hb
      rw [h.tables.others t ht hb i] at hi
      omega
    · intro hb
      obtain ⟨i, hi⟩ := h.tables.waiting t hb
      exact ⟨i, by rw [hi, if_pos rfl]; omega⟩
  once t hb := by
    obtain ⟨i, hi⟩ := h.tables.waiting t hb
    exact ⟨i, by rw [hi, if_pos rfl], fun j hj => by rw [hi, if_neg hj]⟩
  wakes i mask w hw := by
    obtain ⟨k, hk, rfl⟩ := EventFlags.selected_subset _ _ _ w hw
    exact h.tables.blocked_of_mem (EventFlags.mem_entries.mpr ⟨k, hk, rfl⟩)

theorem EventInv.initial {s : System cfg} (hi : Initial s) (he : EventsInitialised s) :
    EventInv [] s := by
  have hcount : s.machine.sched.taskCount = 0 := by
    obtain ⟨-, m, hm⟩ := hi
    rw [hm]
    rfl
  refine ⟨hi.inv, ⟨fun i w hw => ?_, fun t ht => ?_, fun t ht => ?_⟩, fun left t hp => ?_⟩
  · simp [EventFlags.entries, he i] at hw
  · have := (Sched.mem_blockedOn.mp ht).1
    omega
  · omega
  · simp [hi.1] at hp

/-- As long as nothing else takes a task out of its wait on events, the tables are exact
and `event_flags_wait` never finds one full. -/
theorem waiters_exact {s v : System cfg} {tr : History cfg} (hi : Initial s)
    (he : EventsInitialised s) (h : Run step s tr v)
    (huse : Disciplined (fun e tr => usesEvents e tr) tr)
    (hkeep : ∀ e ∈ tr, keepsEventWaits e) : WaitersExact v ∧ NeverFull tr := by
  have hinv : EventInv tr v ∧ NeverFull tr := by
    refine h.history_invariant (P := fun tr v => EventInv tr v ∧ NeverFull tr)
      ⟨.initial hi he, fun _ e he => by simp at he⟩ (huse.and hkeep) ?_
    rintro tr u a o w ⟨hu, hfull⟩ ⟨hok, hkeep⟩ hs
    refine ⟨hu.step hok hkeep hs, fun hmax e he i mask ha => ?_⟩
    rcases List.mem_cons.mp he with rfl | he
    · obtain rfl : a = _ := ha
      have htask : u.phase.isTask := by
        simp only [usesEvents, Bool.and_eq_true] at hok
        exact hok.2
      obtain ⟨left, t, hp⟩ := Phase.isTask_iff.mp htask
      rw [hmax]
      exact hu.tables.room hu.inv.wellFormed.toShape (hu.inv.task left t hp).1
        (hu.caller_free hok hp) i
    · exact hfull hmax e he i mask ha
  exact ⟨hinv.1.waitersExact, hinv.2⟩

/-- The first of two tasks waits for a flag. -/
def waitRun : List (Action Config.default) :=
  [.call (.event (.init (some 0))), .call (.task (.create 1 0x1000#64)),
    .call (.task (.create 1 0x2000#64)), .run 2] ++ cycleActions _ ++
    [.call (.event (.wait (some 0) 1#32)), .ret] ++ cycleActions _

theorem boot_eventsInitialised : EventsInitialised (System.boot .default) := fun _ => rfl

theorem waiters_exact_waitRun :
    (System.after _ waitRun).2.machine.objects.entryCount 0 0 = 1 ∧
      WaitersExact (System.after _ waitRun).2 ∧ NeverFull (System.after _ waitRun).1 :=
  ⟨by decide +kernel,
    waiters_exact (System.boot_initial _) boot_eventsInitialised (run_played _ waitRun)
      (by decide +kernel) (by decide +kernel)⟩

/-- Then the second one suspends it: its entry stays. -/
theorem tables_not_exact : ¬ TablesExact .default := by
  intro h
  obtain ⟨hexact, -⟩ := h _ _ _ (System.boot_initial _) boot_eventsInitialised
    (run_played _ (waitRun ++ [.call (.task (.suspend 1))])) (by decide +kernel)
  have hentry := (hexact.entry_iff 0 (by decide +kernel)).mp ⟨0, by decide +kernel⟩
  exact absurd hentry (by decide +kernel)

end MiniRtos
