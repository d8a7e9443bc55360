import MiniRtos.Effect

/-!
# The outcomes of calls on semaphores, mutexes and queues

One inversion lemma for the nine calls: what each found, what it gives back, how it acts
on the scheduler and what it leaves in the object.
-/
namespace MiniRtos
variable {cfg : Config}

/-- The reason for which a failed call blocks, and the object it was made on. -/
def SyncCall.awaits : SyncCall → Option (BlockReason × ℕ)
  | .semWait i => some (.semaphore, i)
  | .mutexLock i => some (.mutex, i)
  | .queueReceive i => some (.queueEmpty, i)
  | .queueSend i _ => some (.queueFull, i)
  | _ => none

/-- The call did not get what it asked for. -/
def Value.refused : Value → Bool
  | .bool false | .received none => true
  | _ => false

inductive SyncOutcome (s : Sched cfg) (o : Objects) :
    SyncCall → Value → Effect → Objects → Prop
  | semaphoreInit {i : ℕ} {n : ℤ} :
      SyncOutcome s o (.semaphoreInit i n) .void .none (o.setSemaphore i ⟨n⟩)
  | semTaken {i : ℕ} : 0 < (o.semaphores i).count →
      SyncOutcome s o (.semWait i) (.bool true) .none
        (o.setSemaphore i ⟨(o.semaphores i).count - 1⟩)
  | semRefused {i : ℕ} {h : BlockReason.semaphore ≠ .none} : (o.semaphores i).count ≤ 0 →
      SyncOutcome s o (.semWait i) (.bool false) (.park .semaphore h) o
  | semSignalled {i : ℕ} :
      SyncOutcome s o (.semSignal i) .void (.unblock .semaphore)
        (o.setSemaphore i ⟨(o.semaphores i).count + 1⟩)
  | mutexInit {i : ℕ} : SyncOutcome s o (.mutexInit i) .void .none (o.setMutex i MiniRtos.mutexInit)
  | mutexTaken {i t : ℕ} : (o.mutexes i).locked = false → s.rtosCurrentTask = some t →
      SyncOutcome s o (.mutexLock i) (.bool true) .none
        (o.setMutex i ⟨true, (s.taskList t).taskId⟩)
  | mutexHeld {i : ℕ} : (o.mutexes i).locked = true → s.ownsMutex (o.mutexes i) = true →
      SyncOutcome s o (.mutexLock i) (.bool true) .none o
  | mutexRefused {i : ℕ} {h : BlockReason.mutex ≠ .none} : (o.mutexes i).locked = true →
      s.ownsMutex (o.mutexes i) = false →
      SyncOutcome s o (.mutexLock i) (.bool false) (.park .mutex h) o
  | mutexReleased {i : ℕ} : (o.mutexes i).locked = true → s.ownsMutex (o.mutexes i) = true →
      SyncOutcome s o (.mutexUnlock i) .void (.unblock .mutex) (o.setMutex i ⟨false, -1⟩)
  | mutexIgnored {i : ℕ} : ((o.mutexes i).locked && s.ownsMutex (o.mutexes i)) = false →
      SyncOutcome s o (.mutexUnlock i) .void .none o
  | queueInit {i : ℕ} :
      SyncOutcome s o (.queueInit i) .void .none (o.setQueue i (MiniRtos.queueInit (o.queues i)))
  | queueSent {i : ℕ} {value : ℤ} : (o.queues i).count ≠ cfg.rtosQueueSize →
      SyncOutcome s o (.queueSend i value) (.bool true) (.unblock .queueEmpty)
        (o.setQueue i
          { o.queues i with
            buffer := Function.update (o.queues i).buffer (o.queues i).rear value
            rear := ((o.queues i).rear + 1).tmod cfg.rtosQueueSize
            count := (o.queues i).count + 1 })
  | queueFull {i : ℕ} {value : ℤ} {h : BlockReason.queueFull ≠ .none} :
      (o.queues i).count = cfg.rtosQueueSize →
      SyncOutcome s o (.queueSend i value) (.bool false) (.park .queueFull h) o
  | queueReceived {i : ℕ} : (o.queues i).count ≠ 0 →
      SyncOutcome s o (.queueReceive i) (.received (some ((o.queues i).buffer (o.queues i).front)))
        (.unblock .queueFull)
        (o.setQueue i
          { o.queues i with
            front := ((o.queues i).front + 1).tmod cfg.rtosQueueSize
            count := (o.queues i).count - 1 })
  | queueEmpty {i : ℕ} {h : BlockReason.queueEmpty ≠ .none} : (o.queues i).count = 0 →
      SyncOutcome s o (.queueReceive i) (.received none) (.park .queueEmpty h) o

namespace Objects
variable (o : Objects) (i : ℕ)

@[simp] theorem setSemaphore_self : o.setSemaphore i (o.semaphores i) = o := by
  simp [setSemaphore]

@[simp] theorem setMutex_self : o.setMutex i (o.mutexes i) = o := by
  simp [setMutex]

@[simp] theorem setQueue_self : o.setQueue i (o.queues i) = o := by
  simp [setQueue]

end Objects

theorem Sched.ownsMutex_eq {s : Sched cfg} {t : ℕ} (ht : s.rtosCurrentTask = some t)
    (mutex : Mutex) : s.ownsMutex mutex = decide (mutex.owner = (s.taskList t).taskId) := by
  simp [ownsMutex, ht]

namespace SyncCall
variable {s s' : Sched cfg} {o o' : Objects} {v : Value} {i : ℕ}

theorem mutexLock_outcome (h : (mutexLock i).exec s o = some (v, s', o')) :
    SyncOutcome s o (mutexLock i) v ((mutexLock i).effect s o) o' ∧
      s' = ((mutexLock i).effect s o).apply s := by
  simp only [exec, Sched.rtosMutexLock, Option.map_eq_some_iff] at h
  obtain ⟨r, hr, he⟩ := h
  simp only [effect]
  cases hl : (o.mutexes i).locked with
  | false =>
      simp only [hl, Bool.not_false, if_true, Bool.true_or] at hr ⊢
      obtain ⟨t, ht, rfl⟩ := Option.map_eq_some_iff.mp hr
      obtain ⟨rfl, rfl, rfl⟩ := he
      exact ⟨.mutexTaken hl ht, rfl⟩
  | true =>
      simp only [hl, Bool.not_true, Bool.false_eq_true, if_false, Bool.false_or] at hr ⊢
      obtain ⟨t, ht, rfl⟩ := Option.map_eq_some_iff.mp hr
      have hown := Sched.ownsMutex_eq ht (o.mutexes i)
      by_cases ho : (o.mutexes i).owner = (s.taskList t).taskId
      · simp only [ho, decide_true] at hown
        simp only [if_pos ho, Objects.setMutex_self, Prod.mk.injEq] at he
        obtain ⟨rfl, rfl, rfl⟩ := he
        rw [if_pos hown]
        exact ⟨.mutexHeld hl hown, rfl⟩
      · simp only [ho, decide_false] at hown
        simp only [if_neg ho, Objects.setMutex_self, Prod.mk.injEq] at he
        obtain ⟨rfl, rfl, rfl⟩ := he
        rw [if_neg (by simp [hown])]
        exact ⟨.mutexRefused hl hown, rfl⟩

theorem mutexUnlock_outcome (h : (mutexUnlock i).exec s o = some (v, s', o')) :
    SyncOutcome s o (mutexUnlock i) v ((mutexUnlock i).effect s o) o' ∧
      s' = ((mutexUnlock i).effect s o).apply s := by
  simp only [exec, Sched.rtosMutexUnlock, Option.map_eq_some_iff] at h
  obtain ⟨r, hr, he⟩ := h
  simp only [effect]
  cases hl : (o.mutexes i).locked with
  | false =>
      simp only [hl, Bool.not_false, if_true, Bool.false_and, Bool.false_eq_true,
        if_false] at hr ⊢
      obtain ⟨t, -, rfl⟩ := Option.map_eq_some_iff.mp hr
      simp only [Objects.setMutex_self, Prod.mk.injEq] at he
      obtain ⟨rfl, rfl, rfl⟩ := he
      exact ⟨.mutexIgnored (by simp [hl]), rfl⟩
  | true =>
      simp only [hl, Bool.not_true, Bool.false_eq_true, if_false, Bool.true_and] at hr ⊢
      obtain ⟨t, ht, rfl⟩ := Option.map_eq_some_iff.mp hr
      have hown := Sched.ownsMutex_eq ht (o.mutexes i)
      by_cases ho : (o.mutexes i).owner = (s.taskList t).taskId
      · simp only [ho, decide_true] at hown
        simp only [ho, ne_eq, not_true_eq_false, if_false, Prod.mk.injEq] at he
        obtain ⟨rfl, rfl, rfl⟩ := he
        rw [if_pos hown]
        exact ⟨.mutexReleased hl hown, rfl⟩
      · simp only [ho, decide_false] at hown
        simp only [ho, ne_eq, not_false_eq_true, if_true, Objects.setMutex_self,
          Prod.mk.injEq] at he
        obtain ⟨rfl, rfl, rfl⟩ := he
        rw [if_neg (by simp [hown])]
        exact ⟨.mutexIgnored (by simp [hown]), rfl⟩

theorem exec_outcome {c : SyncCall} (h : c.exec s o = some (v, s', o')) :
    SyncOutcome s o c v (c.effect s o) o' ∧ s' = (c.effect s o).apply s := by
  cases c with
  | semaphoreInit i n =>
      simp only [exec, Option.some.injEq, Prod.mk.injEq] at h
      obtain ⟨rfl, rfl, rfl⟩ := h
      exact ⟨.semaphoreInit, rfl⟩
  | semSignal i =>
      simp only [exec, Option.some.injEq, Prod.mk.injEq] at h
      obtain ⟨rfl, rfl, rfl⟩ := h
      exact ⟨.semSignalled, rfl⟩
  | mutexInit i =>
      simp only [exec, Option.some.injEq, Prod.mk.injEq] at h
      obtain ⟨rfl, rfl, rfl⟩ := h
      exact ⟨.mutexInit, rfl⟩
  | queueInit i =>
      simp only [exec, Option.some.injEq, Prod.mk.injEq] at h
      obtain ⟨rfl, rfl, rfl⟩ := h
      exact ⟨.queueInit, rfl⟩
  | semWait i =>
      simp only [exec, Sched.rtosSemWait, Option.map_eq_some_iff] at h
      obtain ⟨r, hr, he⟩ := h
      simp only [effect]
      split_ifs at hr ⊢ with hc
      · obtain ⟨t, -, rfl⟩ := Option.map_eq_some_iff.mp hr
        obtain ⟨rfl, rfl, rfl⟩ := he
        exact ⟨.semTaken hc, rfl⟩
      · obtain ⟨t, -, rfl⟩ := Option.map_eq_some_iff.mp hr
        simp only [Objects.setSemaphore_self, Prod.mk.injEq] at he
        obtain ⟨rfl, rfl, rfl⟩ := he
        exact ⟨.semRefused (not_lt.mp hc), rfl⟩
  | mutexLock i => exact mutexLock_outcome h
  | mutexUnlock i => exact mutexUnlock_outcome h
  | queueSend i value =>
      simp only [exec, Sched.rtosQueueSend, Option.map_eq_some_iff] at h
      obtain ⟨r, hr, he⟩ := h
      simp only [effect]
      split_ifs at hr ⊢ with hc
      · obtain ⟨t, -, rfl⟩ := Option.map_eq_some_iff.mp hr
        simp only [Objects.setQueue_self, Prod.mk.injEq] at he
        obtain ⟨rfl, rfl, rfl⟩ := he
        exact ⟨.queueFull hc, rfl⟩
      · obtain ⟨t, -, rfl⟩ := Option.map_eq_some_iff.mp hr
        obtain ⟨rfl, rfl, rfl⟩ := he
        exact ⟨.queueSent hc, rfl⟩
  | queueReceive i =>
      simp only [exec, Sched.rtosQueueReceive, Option.map_eq_some_iff] at h
      obtain ⟨r, hr, he⟩ := h
      simp only [effect]
      split_ifs at hr ⊢ with hc
      · obtain ⟨t, -, rfl⟩ := Option.map_eq_some_iff.mp hr
        simp only [Objects.setQueue_self, Prod.mk.injEq] at he
        obtain ⟨rfl, rfl, rfl⟩ := he
        exact ⟨.queueEmpty hc, rfl⟩
      · obtain ⟨t, -, rfl⟩ := Option.map_eq_some_iff.mp hr
        obtain ⟨rfl, rfl, rfl⟩ := he
        exact ⟨.queueReceived hc, rfl⟩

end SyncCall

/-- A call on a synchronisation object, by its outcome. -/
theorem Machine.exec_sync {m m' : Machine cfg} {c : SyncCall} {v : Value}
    (h : m.exec (.sync c) = some (v, m')) :
    SyncOutcome m.sched m.objects c v (m.effect (.sync c)) m'.objects := by
  cases exec_cases h with
  | sync hc => exact (SyncCall.exec_outcome hc).1

end MiniRtos
