import MiniRtos.BoundedFifo
import MiniRtos.KernelInvariant

/-!
# A message queue is a bounded first-in first-out queue

The two operations of `rtos.c` on a message queue are the abstract ones on the list its
circular buffer represents, whichever task calls them and whatever happens in between.
-/
namespace MiniRtos
open TransitionSystem
variable {cfg : Config}

/-- The list a message queue holds, the next value to be received first. -/
def MessageQueue.Represents (cfg : Config) (queue : MessageQueue) (l : List ℤ) : Prop :=
  BoundedFifo.Represents cfg.rtosQueueSize queue.buffer queue.front queue.rear queue.count l

theorem queueInit_represents (queue : MessageQueue) :
    (queueInit queue).Represents cfg [] := by
  have hpos := cfg.queueSize_pos
  exact BoundedFifo.represents_empty (by omega) queue.buffer

section Operations
variable {s : Sched cfg} {queue : MessageQueue} {l : List ℤ}

theorem MessageQueue.Represents.sent (h : queue.Represents cfg l)
    (hfull : queue.count ≠ cfg.rtosQueueSize) (value : ℤ) :
    ({ queue with
        buffer := Function.update queue.buffer queue.rear value
        rear := (queue.rear + 1).tmod cfg.rtosQueueSize
        count := queue.count + 1 } : MessageQueue).Represents cfg (l ++ [value]) := by
  have hrear := h.rear_bounds
  have hpush := h.push (lt_of_le_of_ne h.count_le hfull) value
  rw [← Int.tmod_eq_emod_of_nonneg (by omega)] at hpush
  exact hpush

/-- The value at the front is the head of the list. -/
theorem MessageQueue.Represents.received {v : ℤ} (h : queue.Represents cfg (v :: l)) :
    queue.buffer queue.front = v ∧
      ({ queue with
          front := (queue.front + 1).tmod cfg.rtosQueueSize
          count := queue.count - 1 } : MessageQueue).Represents cfg l := by
  have hfront := h.front_nonneg
  obtain ⟨hv, hpop⟩ := h.pop
  rw [← Int.tmod_eq_emod_of_nonneg (by omega)] at hpop
  exact ⟨hv, hpop⟩

/-- What `rtos_queue_send` does to the list. -/
structure Sends (cfg : Config) (queue : MessageQueue) (l : List ℤ) (value : ℤ) (accepted : Bool)
    (queue' : MessageQueue) : Prop where
  accepted_iff : accepted = true ↔ l.length < cfg.rtosQueueSize
  appended : accepted = true → queue'.Represents cfg (l ++ [value])
  unchanged : accepted = false → queue' = queue

/-- What `rtos_queue_receive` does to the list. -/
structure Receives (cfg : Config) (queue : MessageQueue) (l : List ℤ) (value : Option ℤ)
    (queue' : MessageQueue) : Prop where
  head : value = l.head?
  removed : queue'.Represents cfg l.tail
  unchanged : value = none → queue' = queue

theorem rtosQueueSend_sends (h : queue.Represents cfg l) {value : ℤ}
    {r : Bool × MessageQueue × Sched cfg} (hr : s.rtosQueueSend queue value = some r) :
    Sends cfg queue l value r.1 r.2.1 := by
  have hcount := h.count_eq
  have hle := h.count_le
  unfold Sched.rtosQueueSend at hr
  by_cases hfull : queue.count = cfg.rtosQueueSize
  · simp only [if_pos hfull] at hr
    obtain ⟨t, -, rfl⟩ := Option.map_eq_some_iff.mp hr
    refine ⟨?_, by simp, fun _ => rfl⟩
    simp only [Bool.false_eq_true, false_iff]
    omega
  · simp only [if_neg hfull] at hr
    obtain ⟨t, -, rfl⟩ := Option.map_eq_some_iff.mp hr
    refine ⟨?_, fun _ => ?_, by simp⟩
    · simp only [true_iff]
      omega
    · exact h.sent hfull value

theorem rtosQueueReceive_receives (h : queue.Represents cfg l)
    {r : Option ℤ × MessageQueue × Sched cfg} (hr : s.rtosQueueReceive queue = some r) :
    Receives cfg queue l r.1 r.2.1 := by
  have hcount := h.count_eq
  unfold Sched.rtosQueueReceive at hr
  by_cases hempty : queue.count = 0
  · simp only [if_pos hempty] at hr
    obtain ⟨t, -, rfl⟩ := Option.map_eq_some_iff.mp hr
    obtain rfl : l = [] := List.length_eq_zero_iff.mp (by omega)
    exact ⟨rfl, h, fun _ => rfl⟩
  · simp only [if_neg hempty] at hr
    obtain ⟨t, -, rfl⟩ := Option.map_eq_some_iff.mp hr
    cases l with
    | nil => exact absurd hcount (by simpa using hempty)
    | cons v l =>
        obtain ⟨hv, hpop⟩ := h.received
        exact ⟨by simp [hv], hpop, by simp⟩

theorem Sends.apply {value : ℤ} {accepted : Bool} {queue' : MessageQueue}
    (h : Sends cfg queue l value accepted queue') (hq : queue.Represents cfg l) :
    .sent accepted = (BoundedFifo.apply cfg.rtosQueueSize l (.send value)).1 ∧
      queue'.Represents cfg (BoundedFifo.apply cfg.rtosQueueSize l (.send value)).2 := by
  cases accepted with
  | true =>
      simp only [BoundedFifo.apply, if_pos (h.accepted_iff.mp rfl)]
      exact ⟨trivial, h.appended rfl⟩
  | false =>
      have hfull : ¬ l.length < cfg.rtosQueueSize := fun hlt => by
        simpa using h.accepted_iff.mpr hlt
      simp only [BoundedFifo.apply, if_neg hfull]
      exact ⟨trivial, h.unchanged rfl ▸ hq⟩

end Operations

/-- Calls that reach queue `q`. -/
def SyncCall.onQueue (q : ℕ) : SyncCall → Bool
  | .queueInit i | .queueSend i _ | .queueReceive i => i = q
  | _ => false

theorem SyncOutcome.queues {s : Sched cfg} {o o' : Objects} {c : SyncCall} {v : Value}
    {e : Effect} {q : ℕ} (h : SyncOutcome s o c v e o') (hq : c.onQueue q = false) :
    o'.queues q = o.queues q := by
  cases h with
  | queueInit | queueSent | queueReceived =>
      simp only [SyncCall.onQueue, decide_eq_false_iff_not] at hq
      simp [Objects.setQueue, Ne.symm hq]
  | _ => rfl

/-- Calls other than those on queue `q` leave it alone. -/
theorem Machine.exec_queues {m m' : Machine cfg} {c : Call cfg} {v : Value} {q : ℕ}
    (h : m.exec c = some (v, m')) (hc : ∀ c', c = .sync c' → c'.onQueue q = false) :
    m'.objects.queues q = m.objects.queues q := by
  cases exec_cases h with
  | @sync c _ _ _ hr => exact (SyncCall.exec_outcome hr).1.queues (hc c rfl)
  | @event c => rw [c.exec_objects]
  | _ => rfl

/-- The step does not initialise queue `q` once more. -/
def keepsQueue (q : ℕ) (e : Edge cfg) : Bool :=
  e.act ≠ .call (.sync (.queueInit q))

/-- The operation on queue `q` that a step performs, with its result. -/
def queueOp (q : ℕ) (e : Edge cfg) : Option (BoundedFifo.Op ℤ × BoundedFifo.Result ℤ) :=
  match e.act, e.obs with
  | .call (.sync (.queueSend i value)), .returned (.bool b) =>
      if i = q then some (.send value, .sent b) else none
  | .call (.sync (.queueReceive i)), .returned (.received v) =>
      if i = q then some (.receive, .received v) else none
  | _, _ => none

section Steps
variable {u w : System cfg} {a : Action cfg} {o : Observation cfg} {l : List ℤ} {q : ℕ}

theorem queueOp_eq_none {c : Call cfg} (hc : ∀ c', c = .sync c' → c'.onQueue q = false) :
    queueOp q (⟨u, .call c, o, w⟩ : Edge cfg) = none := by
  unfold queueOp
  split
  · next i value b ha _ =>
    cases ha
    simpa [SyncCall.onQueue] using hc _ rfl
  · next i v ha _ =>
    cases ha
    simpa [SyncCall.onQueue] using hc _ rfl
  · rfl

/-- What a step does to the queue, in terms of the bounded queue. -/
theorem queue_step (h : (u.machine.objects.queues q).Represents cfg l)
    (hok : keepsQueue q (⟨u, a, o, w⟩ : Edge cfg)) (hs : step u a = some (o, w)) :
    match queueOp q (⟨u, a, o, w⟩ : Edge cfg) with
    | none => (w.machine.objects.queues q).Represents cfg l
    | some (b, y) => y = (BoundedFifo.apply cfg.rtosQueueSize l b).1 ∧
        (w.machine.objects.queues q).Represents cfg
          (BoundedFifo.apply cfg.rtosQueueSize l b).2 := by
  cases step_cases hs with
  | @call c v m _ hexec =>
      by_cases hon : ∀ c', c = .sync c' → c'.onQueue q = false
      · simp only [queueOp_eq_none hon, Machine.exec_queues hexec hon]
        exact h
      push Not at hon
      obtain ⟨c, rfl, hq⟩ := hon
      cases Machine.exec_cases hexec with
      | sync hcall =>
          cases c with
          | queueInit i =>
              simp only [SyncCall.onQueue, ne_eq, decide_eq_false_iff_not, not_not] at hq
              simp [keepsQueue, hq] at hok
          | queueSend i value =>
              simp only [SyncCall.onQueue, ne_eq, decide_eq_false_iff_not, not_not] at hq
              subst hq
              obtain ⟨r, hr, he⟩ := Option.map_eq_some_iff.mp hcall
              obtain ⟨rfl, rfl, rfl⟩ := he
              simp only [queueOp, if_true, Objects.setQueue, Function.update_self]
              exact (rtosQueueSend_sends h hr).apply h
          | queueReceive i =>
              simp only [SyncCall.onQueue, ne_eq, decide_eq_false_iff_not, not_not] at hq
              subst hq
              obtain ⟨r, hr, he⟩ := Option.map_eq_some_iff.mp hcall
              obtain ⟨rfl, rfl, rfl⟩ := he
              simp only [queueOp, if_true, Objects.setQueue, Function.update_self]
              have hrec := rtosQueueReceive_receives h hr
              exact ⟨congrArg _ hrec.head, hrec.removed⟩
          | _ => simp [SyncCall.onQueue] at hq
  | _ => exact h

end Steps

/-- A queue in use: its fields are in range, they picture `l`, and the two operations
act on `l` as they should, whichever task is current. -/
structure FifoQueue (cfg : Config) (queue : MessageQueue) (l : List ℤ) : Prop where
  represents : queue.Represents cfg l
  count : queue.count = l.length ∧ 0 ≤ queue.count ∧ queue.count ≤ cfg.rtosQueueSize
  front : 0 ≤ queue.front ∧ queue.front < cfg.rtosQueueSize
  rear : 0 ≤ queue.rear ∧ queue.rear < cfg.rtosQueueSize
  rear_eq : queue.rear = (queue.front + queue.count) % cfg.rtosQueueSize
  send : ∀ (s : Sched cfg) (value : ℤ) (r : Bool × MessageQueue × Sched cfg),
    s.rtosQueueSend queue value = some r → Sends cfg queue l value r.1 r.2.1
  receive : ∀ (s : Sched cfg) (r : Option ℤ × MessageQueue × Sched cfg),
    s.rtosQueueReceive queue = some r → Receives cfg queue l r.1 r.2.1

theorem MessageQueue.Represents.fifoQueue {queue : MessageQueue} {l : List ℤ}
    (h : queue.Represents cfg l) : FifoQueue cfg queue l where
  represents := h
  count := ⟨h.count_eq, by rw [h.count_eq]; omega, h.count_le⟩
  front := ⟨h.front_nonneg, h.front_lt⟩
  rear := h.rear_bounds
  rear_eq := h.rear_eq
  send _ _ _ hr := rtosQueueSend_sends h hr
  receive _ _ hr := rtosQueueReceive_receives h hr

/-- After `queue_init` every run performs a run of the bounded queue, with the same
results, so what was received is the first part of what was sent. -/
theorem queue_refines_fifo {s v : System cfg} {tr : History cfg} {q : ℕ}
    {queue : MessageQueue} (hq : s.machine.objects.queues q = queueInit queue)
    (h : Run step s tr v) (hok : ∀ e ∈ tr, keepsQueue q e) :
    ∃ l, Performs (BoundedFifo.apply cfg.rtosQueueSize) [] (labels (queueOp q) tr) l ∧
      FifoQueue cfg (v.machine.objects.queues q) l ∧
        BoundedFifo.sentValues (labels (queueOp q) tr) =
          BoundedFifo.receivedValues (labels (queueOp q) tr) ++ l := by
  have href : ∃ l, Performs (BoundedFifo.apply cfg.rtosQueueSize) [] (labels (queueOp q) tr) l ∧
      (v.machine.objects.queues q).Represents cfg l := by
    refine h.refines (R := fun l s => (s.machine.objects.queues q).Represents cfg l)
      (hq ▸ queueInit_represents queue) hok ?_ ?_
    · intro u a o w l hu hok hs hl
      have hstep := queue_step hu hok hs
      rw [hl] at hstep
      exact hstep
    · intro u a o w l b y hu hok hs hl
      have hstep := queue_step hu hok hs
      rw [hl] at hstep
      exact hstep
  obtain ⟨l, hp, hr⟩ := href
  exact ⟨l, hp, hr.fifoQueue, BoundedFifo.sentValues_eq hp⟩

/-- One task is running and has just initialised a queue. -/
def queueStart : List (Action Config.default) :=
  [.call (.task (.create 1 0x1000#64)), .run 1] ++ cycleActions _ ++
    [.call (.sync (.queueInit 0))]

/-- It sends two values and receives three times. -/
def queueRun : List (Action Config.default) :=
  [.call (.sync (.queueSend 0 7)), .call (.sync (.queueSend 0 8)),
    .call (.sync (.queueReceive 0)), .call (.sync (.queueReceive 0)),
    .call (.sync (.queueReceive 0))]

theorem queue_refines_fifo_queueRun :
    let s := (System.after _ queueStart).2
    let r := played step s queueRun
    r.2.machine.sched.status 0 = (.blocked, .queueEmpty) ∧
      BoundedFifo.receivedValues (labels (queueOp 0) r.1) = [7, 8] ∧
        ∃ l, Performs (BoundedFifo.apply 10) [] (labels (queueOp 0) r.1) l ∧
          FifoQueue .default (r.2.machine.objects.queues 0) l ∧
            BoundedFifo.sentValues (labels (queueOp 0) r.1) =
              BoundedFifo.receivedValues (labels (queueOp 0) r.1) ++ l := by
  have hq : (System.after _ queueStart).2.machine.objects.queues 0 =
      queueInit ⟨fun _ => 0, 0, 0, 0⟩ := rfl
  refine ⟨by decide +kernel, by decide +kernel, ?_⟩
  exact queue_refines_fifo hq (run_played _ queueRun) (by decide +kernel)

end MiniRtos
