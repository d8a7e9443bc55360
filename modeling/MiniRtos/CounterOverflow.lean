import MiniRtos.CounterRange
import MiniRtos.QueueRefinement

/-!
# When a signed counter overflows

The invariant collects what bounds each counter. Every step whose arithmetic stays in the
range of `int` keeps it, and the only two that leave the range start from a count at its
limit: the tick of a sleeper with `INT_MIN` ticks to go, which the program asked for by
`rtos_task_sleep`, and a signal to a semaphore that already counts `INT_MAX`.
-/
namespace MiniRtos
open TransitionSystem Sched
variable {cfg : Config}

/-- The indices and the count of a message queue in use. -/
def MessageQueue.InRange (cfg : Config) (queue : MessageQueue) : Prop :=
  (0 ≤ queue.front ∧ queue.front < cfg.rtosQueueSize) ∧
    (0 ≤ queue.rear ∧ queue.rear < cfg.rtosQueueSize) ∧
      0 ≤ queue.count ∧ queue.count ≤ cfg.rtosQueueSize

instance (queue : MessageQueue) : Decidable (queue.InRange cfg) :=
  inferInstanceAs (Decidable (_ ∧ _))

theorem queueInit_inRange (queue : MessageQueue) : (queueInit queue).InRange cfg := by
  have hpos := cfg.queueSize_pos
  simp only [MessageQueue.InRange, queueInit]
  omega

theorem tmod_queueSize (cfg : Config) {x : ℤ} (hx : 0 ≤ x) :
    0 ≤ x.tmod cfg.rtosQueueSize ∧ x.tmod cfg.rtosQueueSize < cfg.rtosQueueSize := by
  have hpos := cfg.queueSize_pos
  exact ⟨Int.tmod_nonneg _ hx, Int.tmod_lt_of_pos _ (by omega)⟩

section Transfers
variable {queue : MessageQueue}

theorem MessageQueue.InRange.sent (h : queue.InRange cfg)
    (hfull : queue.count ≠ cfg.rtosQueueSize) (buffer : ℤ → ℤ) :
    ({ queue with
        buffer := buffer
        rear := (queue.rear + 1).tmod cfg.rtosQueueSize
        count := queue.count + 1 } : MessageQueue).InRange cfg := by
  obtain ⟨hfront, hrear, hcount⟩ := h
  refine ⟨hfront, tmod_queueSize cfg (by omega), ?_⟩
  dsimp only
  omega

theorem MessageQueue.InRange.received (h : queue.InRange cfg) (hempty : queue.count ≠ 0) :
    ({ queue with
        front := (queue.front + 1).tmod cfg.rtosQueueSize
        count := queue.count - 1 } : MessageQueue).InRange cfg := by
  obtain ⟨hfront, hrear, hcount⟩ := h
  refine ⟨tmod_queueSize cfg (by omega), hrear, ?_⟩
  dsimp only
  omega

/-- What both transfers compute: an index moved on, and the new count. -/
theorem allInt_transfer {i n : ℤ} (hi : 0 ≤ i ∧ i < cfg.rtosQueueSize) (hn : IsInt n) :
    AllInt [i + 1, (i + 1).tmod cfg.rtosQueueSize, n] := by
  have hsize := cfg.queueSize_int
  have hmod := tmod_queueSize cfg (x := i + 1) (by omega)
  refine List.forall_mem_cons.mpr ⟨?_, List.forall_mem_cons.mpr ⟨?_, ?_⟩⟩
  · constructor <;> omega
  · constructor <;> omega
  · exact List.forall_mem_singleton.mpr hn

end Transfers

/-- The counters of application objects; `ready` are the queues in use. -/
structure Objects.InRange (cfg : Config) (o : Objects) (ready : ℕ → Prop) : Prop where
  semaphores : ∀ i, IsInt (o.semaphores i).count
  queues : ∀ q, ready q → (o.queues q).InRange cfg
  eventFlags : ∀ i, (o.eventFlags i).waiterCount < 2 ^ 31

/-- The queue a call puts a value in or takes one from. -/
def SyncCall.usedQueue : SyncCall → Option ℕ
  | .queueSend q _ | .queueReceive q => some q
  | _ => none

def Action.usedQueue : Action cfg → Option ℕ
  | .call (.sync c) => c.usedQueue
  | _ => none

section Objects
variable {o o' : Objects} {ready : ℕ → Prop}

theorem Objects.InRange.setSemaphore (h : o.InRange cfg ready) {i : ℕ} {n : ℤ} (hn : IsInt n) :
    (o.setSemaphore i ⟨n⟩).InRange cfg ready where
  semaphores j := by
    by_cases hj : j = i
    · simpa [Objects.setSemaphore, hj] using hn
    · simpa [Objects.setSemaphore, hj] using h.semaphores j
  queues := h.queues
  eventFlags := h.eventFlags

theorem Objects.InRange.setMutex (h : o.InRange cfg ready) (i : ℕ) (x : Mutex) :
    (o.setMutex i x).InRange cfg ready := ⟨h.semaphores, h.queues, h.eventFlags⟩

theorem Objects.InRange.setQueue (h : o.InRange cfg ready) {i : ℕ} {x : MessageQueue}
    (hx : x.InRange cfg) : (o.setQueue i x).InRange cfg fun q => ready q ∨ q = i where
  semaphores := h.semaphores
  queues q hq := by
    by_cases hqi : q = i
    · simpa [Objects.setQueue, hqi] using hx
    · simpa [Objects.setQueue, hqi] using h.queues q (hq.resolve_right hqi)
  eventFlags := h.eventFlags

theorem Objects.InRange.mono {ready' : ℕ → Prop} (h : o.InRange cfg ready)
    (hr : ∀ q, ready' q → ready q) : o.InRange cfg ready' :=
  ⟨h.semaphores, fun q hq => h.queues q (hr q hq), h.eventFlags⟩

/-- One call on a semaphore, a mutex or a queue. -/
theorem SyncOutcome.inRange {s : Sched cfg} {c : SyncCall} {v : Value} {e : Effect}
    (h : SyncOutcome s o c v e o') (ho : o.InRange cfg ready)
    (hint : ∀ i n, c = .semaphoreInit i n → IsInt n) (hused : ∀ q ∈ c.usedQueue, ready q)
    (hlimit : ∀ i, c = .semSignal i → (o.semaphores i).count ≠ 2 ^ 31 - 1) :
    AllInt (c.arithmetic cfg o) ∧ o'.InRange cfg fun q => ready q ∨ c = .queueInit q := by
  have hsize := cfg.queueSize_int
  have hpos := cfg.queueSize_pos
  cases h with
  | @semaphoreInit i n =>
      exact ⟨allInt_nil, (ho.setSemaphore (hint i n rfl)).mono (by simp)⟩
  | @semTaken i hcount =>
      have hdown : IsInt ((o.semaphores i).count - 1) := by
        obtain ⟨hlow, hhigh⟩ := ho.semaphores i
        constructor <;> omega
      refine ⟨?_, (ho.setSemaphore hdown).mono (by simp)⟩
      simp only [SyncCall.arithmetic, if_pos hcount]
      exact List.forall_mem_singleton.mpr hdown
  | @semRefused i _ hcount =>
      refine ⟨?_, ho.mono (by simp)⟩
      simp only [SyncCall.arithmetic, if_neg (not_lt.mpr hcount)]
      exact allInt_nil
  | @semSignalled i =>
      have hup : IsInt ((o.semaphores i).count + 1) := by
        obtain ⟨hlow, hhigh⟩ := ho.semaphores i
        have hne := hlimit i rfl
        constructor <;> omega
      exact ⟨List.forall_mem_singleton.mpr hup, (ho.setSemaphore hup).mono (by simp)⟩
  | mutexInit | mutexTaken | mutexReleased =>
      exact ⟨allInt_nil, (ho.setMutex _ _).mono (by simp)⟩
  | mutexHeld | mutexRefused | mutexIgnored => exact ⟨allInt_nil, ho.mono (by simp)⟩
  | @queueInit i =>
      exact ⟨allInt_nil, (ho.setQueue (queueInit_inRange _)).mono (by simp [eq_comm])⟩
  | @queueSent i value hfull =>
      have hready := hused i rfl
      have hqueue := ho.queues i hready
      refine ⟨?_, (ho.setQueue (hqueue.sent hfull _)).mono (by simpa using fun q => .inl)⟩
      obtain ⟨hfront, hrear, hcount⟩ := hqueue
      simp only [SyncCall.arithmetic, if_neg hfull]
      exact allInt_transfer hrear (by constructor <;> omega)
  | queueFull hfull =>
      refine ⟨?_, ho.mono (by simp)⟩
      simp only [SyncCall.arithmetic, if_pos hfull]
      exact allInt_nil
  | @queueReceived i hempty =>
      have hready := hused i rfl
      have hqueue := ho.queues i hready
      refine ⟨?_, (ho.setQueue (hqueue.received hempty)).mono (by simpa using fun q => .inl)⟩
      obtain ⟨hfront, hrear, hcount⟩ := hqueue
      simp only [SyncCall.arithmetic, if_neg hempty]
      exact allInt_transfer hfront (by constructor <;> omega)
  | queueEmpty hempty =>
      refine ⟨?_, ho.mono (by simp)⟩
      simp only [SyncCall.arithmetic, if_pos hempty]
      exact allInt_nil

theorem Objects.InRange.setEventFlags (h : o.InRange cfg ready) {i : ℕ} {ef : EventFlags}
    (hef : ef.waiterCount < 2 ^ 31) : (o.setEventFlags i ef).InRange cfg ready where
  semaphores := h.semaphores
  queues := h.queues
  eventFlags j := by
    by_cases hj : j = i
    · rwa [hj, o.setEventFlags_at]
    · rw [o.setEventFlags_of_ne hj]
      exact h.eventFlags j

/-- Every selected entry leaves the table. -/
theorem EventFlags.eventFlagsSet_waiterCount (ef : EventFlags) (s : Sched cfg)
    {mask : BitVec 32} (hm : mask ≠ 0#32) :
    ef.waiterCount = (selected ef.waiterCount (ef.flags ||| mask) ef.waiters).length +
      (ef.eventFlagsSet s mask).1.waiterCount := by
  have hcard := congrArg Multiset.card (ef.eventFlagsSet_spec s hm).1
  rwa [Multiset.card_add, Multiset.coe_card, entries, entries, SlotTable.card_entries,
    SlotTable.card_entries] at hcard

/-- One call on event flags. -/
theorem EventCall.inRange (s : Sched cfg) (c : EventCall) (ho : o.InRange cfg ready) :
    AllInt (c.arithmetic cfg o) ∧ (c.exec s o).2.2.InRange cfg ready := by
  have hwaiters := cfg.eventMaxWaiters_le
  have hmax := cfg.maxTasks_int
  cases c with
  | init ef =>
      cases ef with
      | none => exact ⟨allInt_nil, ho⟩
      | some i => exact ⟨allInt_nil, ho.setEventFlags (by simp [EventFlags.eventFlagsInit])⟩
  | set ef mask =>
      cases ef with
      | none => exact ⟨allInt_nil, ho⟩
      | some i =>
          have hcount := ho.eventFlags i
          by_cases hm : mask = 0#32
          · simp only [EventCall.arithmetic, if_pos hm]
            refine ⟨allInt_nil, ho.setEventFlags ?_⟩
            simpa [EventFlags.eventFlagsSet, hm] using hcount
          · have hleft := (o.eventFlags i).eventFlagsSet_waiterCount s hm
            refine ⟨?_, ho.setEventFlags (by omega)⟩
            simp only [EventCall.arithmetic, if_neg hm]
            refine List.forall_mem_cons.mpr ⟨by constructor <;> omega, fun x hx => ?_⟩
            obtain ⟨k, hk, rfl⟩ := List.mem_map.mp hx
            have hlt := List.mem_range.mp hk
            constructor <;> omega
  | clear ef mask =>
      cases ef with
      | none => exact ⟨allInt_nil, ho⟩
      | some i => exact ⟨allInt_nil, ho.setEventFlags (ho.eventFlags i)⟩
  | wait ef mask =>
      cases ef with
      | none => exact ⟨allInt_nil, ho⟩
      | some i =>
          have hcount := ho.eventFlags i
          simp only [EventCall.arithmetic, EventCall.exec, EventFlags.eventFlagsWait]
          split_ifs with hm hs hfull
          · exact ⟨allInt_nil, ho.setEventFlags hcount⟩
          · exact ⟨allInt_nil, ho.setEventFlags hcount⟩
          · exact ⟨allInt_nil, ho.setEventFlags hcount⟩
          · refine ⟨List.forall_mem_singleton.mpr ?_, ho.setEventFlags ?_⟩
            · constructor <;> omega
            · dsimp only
              omega
  | get ef =>
      cases ef with
      | none => exact ⟨allInt_nil, ho⟩
      | some i => exact ⟨allInt_nil, ho⟩

end Objects

section Pools
variable {p p' : Pool cfg} {l : List ℤ}

theorem Pool.Represents.length_le (h : p.Represents l) : l.length ≤ cfg.rtosPoolBlockCount := by
  have hsub : l ⊆ allBlocks cfg := by
    intro i hi
    obtain ⟨hlow, hhigh⟩ := ((h.free i).mp hi).1
    exact List.mem_map.mpr ⟨i.toNat, List.mem_range.mpr (by omega), by omega⟩
  simpa [allBlocks] using (h.chain.nodup.subperm hsub).length_le

/-- One call on the pool, with any address. -/
theorem MemoryCall.inRange {c : MemoryCall} {v : Value} (h : p.Represents l)
    (hc : c.exec p = some (v, p')) : AllInt (c.arithmetic p) ∧ ∃ l', p'.Represents l' := by
  have havailable := h.available
  have hlength := h.length_le
  have hcount := cfg.poolBlockCount_int
  cases c with
  | alloc =>
      simp only [MemoryCall.exec, Option.some.injEq, Prod.mk.injEq] at hc
      obtain ⟨-, rfl⟩ := hc
      refine ⟨?_, _, h.memoryAlloc.2⟩
      simp only [MemoryCall.arithmetic]
      split_ifs
      · exact allInt_nil
      · exact List.forall_mem_singleton.mpr (by constructor <;> omega)
  | free ptr =>
      simp only [MemoryCall.exec, Option.some.injEq, Prod.mk.injEq] at hc
      obtain ⟨-, rfl⟩ := hc
      simp only [MemoryCall.arithmetic]
      split_ifs with hnull hidx hfree
      · exact ⟨allInt_nil, l, by rwa [Pool.memoryFree_rejected (.inl hnull)]⟩
      · exact ⟨allInt_nil, l, by rwa [Pool.memoryFree_rejected (.inr hidx)]⟩
      · refine ⟨allInt_nil, l, ?_⟩
        rwa [Pool.memoryFree_of_index hnull rfl (not_lt.mp hidx), if_pos hfree]
      · have hpushed := h.push (Pool.isBlock_blockIndex hidx) hfree
        have hlonger := hpushed.length_le
        simp only [List.length_cons] at hlonger
        refine ⟨List.forall_mem_singleton.mpr (by constructor <;> omega),
          Pool.blockIndex cfg ptr :: l, ?_⟩
        rw [Pool.memoryFree_of_index hnull rfl (not_lt.mp hidx), if_neg hfree]
        exact hpushed
  | availableBlocks =>
      simp only [MemoryCall.exec, Option.some.injEq, Prod.mk.injEq] at hc
      obtain ⟨-, rfl⟩ := hc
      exact ⟨allInt_nil, l, h⟩
  | write idx offset byte =>
      simp only [MemoryCall.exec] at hc
      split_ifs at hc with hlive
      simp only [Option.some.injEq, Prod.mk.injEq] at hc
      obtain ⟨-, rfl⟩ := hc
      exact ⟨allInt_nil, l, h.clientWrite hlive.2.2.2 offset byte⟩

end Pools

/-- Everything that keeps the counters in range, between two steps. -/
structure CountersInRange (ready : ℕ → Prop) (u : System cfg) : Prop where
  inv : Inv u
  sleepTicks : u.machine.sched.SleepTicksInt
  objects : u.machine.objects.InRange cfg ready
  pool : ∃ l, u.machine.pool.Represents l

/-- The step moves a counter on that has reached its last value: it signals a semaphore
with count `INT_MAX`, or it is the tick of a sleeper with `INT_MIN` ticks to go. -/
def atLimit (e : Edge cfg) : Bool :=
  match e.act, e.src.phase with
  | .call (.sync (.semSignal i)), _ => (e.src.machine.objects.semaphores i).count = 2 ^ 31 - 1
  | .advance, .cycleTop (_ + 1) =>
      (List.range e.src.machine.sched.taskCount).any fun i =>
        e.src.machine.sched.Sleeper i ∧ (e.src.machine.sched.taskList i).sleepTicks = -2 ^ 31
  | _, _ => false

/-- The arguments that are stored in counters are `int`s. -/
def intArguments (e : Edge cfg) : Bool :=
  match e.act with
  | .call (.task (.sleep n)) | .call (.sync (.semaphoreInit _ n)) => IsInt n
  | _ => true

theorem Machine.effect_eq_sleep {m : Machine cfg} {c : Call cfg} {n : ℤ}
    (h : m.effect c = .sleep n) : c = .task (.sleep n) := by
  cases c with
  | task c =>
      cases c with
      | sleep ticks =>
          cases h
          rfl
      | suspend taskId | resume taskId =>
          simp only [effect, TaskCall.effect] at h
          grind
      | _ => cases h
  | sync c =>
      cases c with
      | semWait i | mutexLock i | mutexUnlock i | queueSend i value | queueReceive i =>
          simp only [effect, SyncCall.effect] at h
          split_ifs at h
      | _ => cases h
  | event c =>
      cases c with
      | set ef mask | wait ef mask =>
          cases ef with
          | none => cases h
          | some i =>
              simp only [effect, EventCall.effect] at h
              split_ifs at h
      | _ => cases h
  | _ => cases h

section Steps
variable {u w : System cfg} {a : Action cfg} {o : Observation cfg} {ready : ℕ → Prop}

theorem Machine.arithmetic_inRange {m m' : Machine cfg} {c : Call cfg} {v : Value}
    (h : m.exec c = some (v, m')) (hshape : m.sched.Shape)
    (hobjects : m.objects.InRange cfg ready) (hpool : ∃ l, m.pool.Represents l)
    (hint : ∀ i n, c = .sync (.semaphoreInit i n) → IsInt n)
    (hused : ∀ c', c = .sync c' → ∀ q ∈ c'.usedQueue, ready q)
    (hlimit : ∀ i, c = .sync (.semSignal i) → (m.objects.semaphores i).count ≠ 2 ^ 31 - 1) :
    AllInt (m.arithmetic c) ∧
      (m'.objects.InRange cfg fun q => ready q ∨ c = .sync (.queueInit q)) ∧
        ∃ l, m'.pool.Represents l := by
  have heffect := hshape.effectArithmetic (m.effect c)
  cases Machine.exec_cases h with
  | task | timer | context =>
      exact ⟨allInt_append allInt_nil heffect, hobjects.mono (by simp), hpool⟩
  | @sync c v sched objects hcall =>
      obtain ⟨hall, hrange⟩ := (SyncCall.exec_outcome hcall).1.inRange hobjects
        (fun i n hc => hint i n (congrArg Call.sync hc)) (hused c rfl)
        fun i hc => hlimit i (congrArg Call.sync hc)
      exact ⟨allInt_append hall heffect, hrange.mono (by simp), hpool⟩
  | @event c =>
      obtain ⟨hall, hrange⟩ := c.inRange m.sched hobjects
      exact ⟨allInt_append hall heffect, hrange.mono (by simp), hpool⟩
  | memory hcall =>
      obtain ⟨l, hl⟩ := hpool
      obtain ⟨hall, hrest⟩ := MemoryCall.inRange hl hcall
      exact ⟨allInt_append hall heffect, hobjects.mono (by simp), hrest⟩

/-- Away from the limit every sleeper's count can be decremented. -/
theorem CountersInRange.countdown (h : CountersInRange ready u) {left : ℕ}
    (hp : u.phase = .cycleTop (left + 1))
    (hlimit : atLimit (⟨u, .advance, o, w⟩ : Edge cfg) = false) :
    ∀ i < u.machine.sched.taskCount, u.machine.sched.Sleeper i →
      IsInt ((u.machine.sched.taskList i).sleepTicks - 1) := by
  intro i hi hsleeper
  obtain ⟨hlow, hhigh⟩ := h.sleepTicks i hi
  have hne : (u.machine.sched.taskList i).sleepTicks ≠ -2 ^ 31 := by
    simp only [atLimit, hp, List.any_eq_false, List.mem_range] at hlimit
    simpa [hsleeper] using hlimit i hi
  constructor <;> omega

/-- A step that is not at a limit computes `int`s only and keeps the counters in range. -/
theorem CountersInRange.step (h : CountersInRange ready u) (hs : step u a = some (o, w))
    (hint : intArguments (⟨u, a, o, w⟩ : Edge cfg))
    (hused : ∀ q ∈ a.usedQueue, ready q) (hlimit : atLimit (⟨u, a, o, w⟩ : Edge cfg) = false) :
    AllInt (arithmetic (⟨u, a, o, w⟩ : Edge cfg)) ∧
      CountersInRange (fun q => ready q ∨ a = .call (.sync (.queueInit q))) w := by
  have hinv := h.inv.step hs
  have hshape := h.inv.wellFormed.toShape
  cases step_cases hs with
  | init =>
      refine ⟨allInt_nil, hinv, fun i hi => ?_, h.objects.mono (by simp), _,
        u.machine.pool.memoryInit_represents⟩
      exact absurd hi (Nat.not_lt_zero i)
  | run hp =>
      exact ⟨allInt_nil, hinv, h.sleepTicks, h.objects.mono (by simp), h.pool⟩
  | @call c v m happ hexec =>
      obtain ⟨hall, hobjects, hpool⟩ := Machine.arithmetic_inRange hexec hshape h.objects h.pool
        (fun i n hc => by simpa [intArguments, hc] using hint)
        (fun c' hc => by subst hc; exact hused)
        (fun i hc => by simpa [atLimit, hc] using hlimit)
      refine ⟨hall, hinv, ?_, hobjects.mono (by simp), hpool⟩
      rw [Machine.exec_sched hexec]
      refine h.sleepTicks.apply _ fun n hn => ?_
      obtain rfl := Machine.effect_eq_sleep hn
      simpa [intArguments] using hint
  | callbackReturned hp | runDone hp | slotSkipped hp | callbackCalled hp | passDone hp =>
      refine ⟨?_, hinv, h.sleepTicks, h.objects.mono (by simp), h.pool⟩
      simp only [arithmetic, hp]
      exact allInt_nil
  | @taskReturned left t hp =>
      refine ⟨?_, hinv, ?_, h.objects.mono (by simp), h.pool⟩
      · simp only [arithmetic, hp, Sched.taskReturnedArithmetic]
        split_ifs
        · exact hshape.queueFits.setTaskStateArithmetic _ _
        · exact allInt_nil
      · simp only [Sched.taskReturned]
        split_ifs
        · exact h.sleepTicks.setTaskState _ _ _
        · exact h.sleepTicks
  | @tick left hp =>
      have hdown := h.countdown hp hlimit
      refine ⟨?_, hinv, h.sleepTicks.timerUpdateSleep hdown, h.objects.mono (by simp), h.pool⟩
      simp only [arithmetic, hp]
      exact hshape.sleepLoopArithmetic List.nodup_range (by simp)
        fun i hi => hdown i (List.mem_range.mp hi)
  | idle hp hd | taskCalled hp hd =>
      refine ⟨?_, hinv, h.sleepTicks.decides (hd ▸ h.inv.decides hp), h.objects.mono (by simp),
        h.pool⟩
      simp only [arithmetic, hp]
      exact h.inv.wellFormed.decideArithmetic

theorem mem_sleepLoopArithmetic {s : Sched cfg} {l : List ℕ} {i : ℕ} (hl : l.Nodup)
    (hlt : ∀ j ∈ l, j < s.taskCount) (hi : i ∈ l) (hsleeper : s.Sleeper i) :
    (s.taskList i).sleepTicks - 1 ∈ sleepLoopArithmetic l s := by
  induction l generalizing s with
  | nil => cases hi
  | cons j l ih =>
      obtain ⟨hnj, hl⟩ := List.nodup_cons.mp hl
      rw [sleepLoopArithmetic, List.mem_append]
      by_cases hij : i = j
      · subst hij
        left
        have hb : ¬ ((s.taskList i).state ≠ .blocked ∨ (s.taskList i).blockReason ≠ .sleep) :=
          not_or.mpr ⟨not_not.mpr hsleeper.1, not_not.mpr hsleeper.2⟩
        rw [updateSleepArithmetic, if_neg hb]
        exact List.mem_cons_self
      · right
        have hmem : i ∈ l := (List.mem_cons.mp hi).resolve_left hij
        have htask : (s.updateSleepTask j).taskList i = s.taskList i := by
          rw [updateSleepTask_taskList (hlt j (by simp)), Function.update_of_ne hij]
        have hrest := ih (s := s.updateSleepTask j) hl
          (fun k hk => by rw [updateSleepTask_taskCount]; exact hlt k (by simp [hk])) hmem
          (by rwa [Sleeper, htask])
        rwa [htask] at hrest

/-- At a limit the arithmetic of the step leaves the range. -/
theorem exists_not_isInt {e : Edge cfg} (h : atLimit e) : ∃ x ∈ arithmetic e, ¬ IsInt x := by
  unfold atLimit at h
  split at h
  · next i hact =>
    have hcount := of_decide_eq_true h
    refine ⟨(e.src.machine.objects.semaphores i).count + 1, ?_, ?_⟩
    · simp [arithmetic, hact, Machine.arithmetic, SyncCall.arithmetic]
    · rw [hcount]
      decide
  · next left hact hphase =>
    obtain ⟨i, hi, hlimit⟩ := List.any_eq_true.mp h
    obtain ⟨hsleeper, hticks⟩ := of_decide_eq_true hlimit
    refine ⟨(e.src.machine.sched.taskList i).sleepTicks - 1, ?_, ?_⟩
    · simp only [arithmetic, hact, hphase]
      exact mem_sleepLoopArithmetic List.nodup_range (by simp) hi hsleeper
    · rw [hticks]
      decide
  · cases h

end Steps

/-- Queue `q` was in order at the start, or was initialised since. -/
def queueInUse (s : System cfg) (tr : History cfg) (q : ℕ) : Prop :=
  (s.machine.objects.queues q).InRange cfg ∨ ∃ e ∈ tr, e.act = .call (.sync (.queueInit q))

instance (s : System cfg) (tr : History cfg) (q : ℕ) : Decidable (queueInUse s tr q) :=
  inferInstanceAs (Decidable (_ ∨ _))

/-- The program initialises a message queue before it uses it. -/
def queuesReady (s : System cfg) (e : Edge cfg) (earlier : History cfg) : Prop :=
  ∀ q ∈ e.act.usedQueue, queueInUse s earlier q

instance (s : System cfg) (e : Edge cfg) (earlier : History cfg) :
    Decidable (queuesReady s e earlier) := inferInstanceAs (Decidable (∀ q ∈ e.act.usedQueue, _))

/-- The counters of the objects at the start are `int`s. -/
structure IntObjects (o : Objects) : Prop where
  semaphores : ∀ i, IsInt (o.semaphores i).count
  eventFlags : ∀ i, (o.eventFlags i).waiterCount < 2 ^ 31

theorem Initial.countersInRange {s : System cfg} (hs : Initial s)
    (hobjects : IntObjects s.machine.objects) : CountersInRange (queueInUse s []) s := by
  have hinv := hs.inv
  obtain ⟨-, m, hm⟩ := hs
  refine ⟨hinv, ?_, ⟨hobjects.semaphores, ?_, hobjects.eventFlags⟩, ?_⟩
  · rw [hm]
    exact fun i hi => absurd hi (Nat.not_lt_zero i)
  · intro q hq
    simpa [queueInUse] using hq
  · rw [hm]
    exact ⟨_, m.pool.memoryInit_represents⟩

/-- No signed counter overflows in a run exactly when no step of it is taken at a limit. -/
theorem no_overflow_iff {s v : System cfg} {tr : History cfg} (hs : Initial s)
    (hobjects : IntObjects s.machine.objects) (h : Run step s tr v)
    (hint : ∀ e ∈ tr, intArguments e) (hready : Disciplined (queuesReady s) tr) :
    (∀ e ∈ tr, ∀ x ∈ arithmetic e, IsInt x) ↔ ∀ e ∈ tr, atLimit e = false := by
  constructor
  · intro hall e he
    rw [Bool.eq_false_iff]
    intro hlimit
    obtain ⟨x, hx, hout⟩ := exists_not_isInt hlimit
    exact hout (hall e he x hx)
  · intro hlimit
    have hok := (hready.and hint).and hlimit
    have hinv := h.history_invariant
      (P := fun tr u => CountersInRange (queueInUse s tr) u ∧ ∀ e ∈ tr, AllInt (arithmetic e))
      ⟨hs.countersInRange hobjects, by simp⟩ hok ?_
    · exact hinv.2
    · intro tr u a o w hu hok hs
      obtain ⟨⟨hready, hint⟩, hlimit⟩ := hok
      obtain ⟨hcounters, hall⟩ := hu
      obtain ⟨hlast, hnext⟩ := hcounters.step hs hint hready hlimit
      refine ⟨⟨hnext.inv, hnext.sleepTicks, hnext.objects.mono ?_, hnext.pool⟩, ?_⟩
      · intro q hq
        simpa [queueInUse, or_comm, or_left_comm] using hq
      · exact List.forall_mem_cons.mpr ⟨hlast, hall⟩

/-- A task runs, takes a semaphore and a queue to their limits and goes to sleep with one
more tick than `INT_MIN`. -/
def longestSleep : List (Action Config.default) :=
  [.call (.task (.create 1 0x1000#64)), .run 2] ++ cycleActions _ ++
    [.call (.sync (.semaphoreInit 0 (2 ^ 31 - 2))), .call (.sync (.semSignal 0)),
      .call (.sync (.queueInit 0)), .call (.sync (.queueSend 0 7)), .call (.memory .alloc),
      .call (.task (.sleep (-2 ^ 31 + 1))), .ret] ++ cycleActions _

theorem System.boot_intObjects (cfg : Config) : IntObjects (System.boot cfg).machine.objects :=
  ⟨fun _ => isInt_zero, fun _ => Nat.two_pow_pos 31⟩

theorem no_overflow_iff_longestSleep :
    let tr := (System.after _ longestSleep).1
    (∃ e ∈ tr, 2 ^ 31 - 1 ∈ arithmetic e) ∧ (∃ e ∈ tr, -2 ^ 31 ∈ arithmetic e) ∧
      (∀ e ∈ tr, atLimit e = false) ∧
        ((∀ e ∈ tr, ∀ x ∈ arithmetic e, IsInt x) ↔ ∀ e ∈ tr, atLimit e = false) :=
  ⟨by decide +kernel, by decide +kernel, by decide +kernel,
    no_overflow_iff (System.boot_initial _) (System.boot_intObjects _) (run_played _ longestSleep)
      (by decide +kernel) (by decide +kernel)⟩

/-- The same with `rtos_task_sleep(INT_MIN)`. -/
def sleepIntMin : List (Action Config.default) :=
  [.call (.task (.create 1 0x1000#64)), .run 2] ++ cycleActions _ ++
    [.call (.task (.sleep (-2 ^ 31))), .ret, .advance]

/-- The next tick decrements `INT_MIN`. -/
theorem sleep_overflows :
    ¬ ∀ (s v : System Config.default) (tr : History Config.default), Initial s →
      IntObjects s.machine.objects → Run step s tr v → (∀ e ∈ tr, intArguments e) →
        Disciplined (queuesReady s) tr → ∀ e ∈ tr, ∀ x ∈ arithmetic e, IsInt x := by
  intro hclaim
  have hall := hclaim _ _ _ (System.boot_initial _) (System.boot_intObjects _)
    (run_played _ sleepIntMin) (by decide +kernel) (by decide +kernel)
  have hout : ¬ ∀ e ∈ (System.after _ sleepIntMin).1, ∀ x ∈ arithmetic e, IsInt x := by
    decide +kernel
  exact hout hall

end MiniRtos
