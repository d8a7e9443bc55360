import MiniRtos.StatusChange

/-!
# Mutual exclusion

Who holds a mutex is a fact about the past: the last call of the task on it that took or
released it is a `rtos_mutex_lock` that returned true. The two stored fields know the
holder: the mutex is locked exactly when there is one, and the owner is its identifier.
A lock that returns true either takes a free mutex or is made by the holder itself, and
an unlock by anybody else is ignored, so there is never a second holder.
-/
namespace MiniRtos
open TransitionSystem
variable {cfg : Config}

/-- The function of task `t` is executing. -/
def Phase.inTaskOf (t : ℕ) : Phase cfg → Bool
  | .task _ t' => t' = t
  | _ => false

/-- Task `t` has a `rtos_mutex_lock` on mutex `i` that returned true and was not since
followed by its own `rtos_mutex_unlock`. -/
def holdsMutex (i t : ℕ) : History cfg → Bool
  | [] => false
  | e :: tr =>
      match e.act, e.obs with
      | .call (.sync (.mutexLock j)), .returned (.bool true) =>
          if j = i ∧ e.src.phase.inTaskOf t then true else holdsMutex i t tr
      | .call (.sync (.mutexUnlock j)), _ =>
          if j = i ∧ e.src.phase.inTaskOf t then false else holdsMutex i t tr
      | _, _ => holdsMutex i t tr

/-- Mutex `i` is locked and unlocked by task functions only, and not initialised again. -/
def usesMutex (i : ℕ) (e : Edge cfg) : Bool :=
  match e.act with
  | .init => false
  | .call (.sync (.mutexInit j)) => j ≠ i
  | .call (.sync (.mutexLock j)) | .call (.sync (.mutexUnlock j)) =>
      j ≠ i || e.src.phase.isTask
  | _ => true

/-- The calls that can write mutex `i`. -/
def SyncCall.onMutex (i : ℕ) : SyncCall → Bool
  | .mutexInit j | .mutexLock j | .mutexUnlock j => j = i
  | _ => false

/-- The stored fields of a mutex and the tasks that hold it by their history. -/
def Mutex.Tracks (mutex : Mutex) (s : Sched cfg) (holds : ℕ → Bool) : Prop :=
  match mutex.locked with
  | false => ∀ t, holds t = false
  | true => ∃ t < s.taskCount, mutex.owner = (s.taskList t).taskId ∧ ∀ t', holds t' ↔ t' = t

namespace Objects

theorem setMutex_at (o : Objects) (i : ℕ) (x : Mutex) : (o.setMutex i x).mutexes i = x := by
  simp [setMutex]

theorem setMutex_of_ne (o : Objects) {i j : ℕ} (h : j ≠ i) (x : Mutex) :
    (o.setMutex i x).mutexes j = o.mutexes j := by
  simp [setMutex, h]

end Objects

theorem SyncOutcome.mutexes {s : Sched cfg} {o o' : Objects} {c : SyncCall} {v : Value}
    {e : Effect} {i : ℕ} (h : SyncOutcome s o c v e o') (hc : c.onMutex i = false) :
    o'.mutexes i = o.mutexes i := by
  cases h with
  | mutexInit | mutexTaken | mutexReleased =>
      refine o.setMutex_of_ne (fun he => ?_) _
      simp [SyncCall.onMutex, he] at hc
  | _ => rfl

theorem Machine.exec_mutexes {m m' : Machine cfg} {c : Call cfg} {v : Value} {i : ℕ}
    (h : m.exec c = some (v, m')) (hc : ∀ c', c = .sync c' → c'.onMutex i = false) :
    m'.objects.mutexes i = m.objects.mutexes i := by
  cases exec_cases h with
  | @sync c _ _ _ hr => exact (SyncCall.exec_outcome hr).1.mutexes (hc c rfl)
  | @event c => rw [c.exec_objects]
  | _ => rfl

section Steps
variable {u w : System cfg} {a : Action cfg} {o : Observation cfg} {i : ℕ}

/-- Steps that are no call on mutex `i` leave the mutex and its holders alone. -/
theorem StepCases.mutexes (h : StepCases u a o w)
    (ha : ∀ c, a = .call (.sync c) → c.onMutex i = false) :
    w.machine.objects.mutexes i = u.machine.objects.mutexes i ∧
      ∀ (tr : History cfg) (t : ℕ), holdsMutex i t (⟨u, a, o, w⟩ :: tr) = holdsMutex i t tr := by
  constructor
  · cases h with
    | call _ hexec =>
        exact Machine.exec_mutexes hexec fun c hc => ha c (congrArg Action.call hc)
    | _ => rfl
  · intro tr t
    simp only [holdsMutex]
    split
    · next j _ =>
      have hj := ha _ rfl
      simp only [SyncCall.onMutex, decide_eq_false_iff_not] at hj
      simp [hj]
    · next j =>
      have hj := ha _ rfl
      simp only [SyncCall.onMutex, decide_eq_false_iff_not] at hj
      simp [hj]
    · rfl

/-- No step but `rtos_init` gives a task another identifier. -/
theorem StepCases.taskId (h : StepCases u a o w) (hu : Inv u) (hw : Inv w) (ha : a ≠ .init)
    {t : ℕ} (ht : t < u.machine.sched.taskCount) :
    t < w.machine.sched.taskCount ∧
      (w.machine.sched.taskList t).taskId = (u.machine.sched.taskList t).taskId := by
  have hlt := ht.trans_le (h.taskCount hu ha).1
  exact ⟨hlt, (hw.wellFormed.taskId t hlt).trans (hu.wellFormed.taskId t ht).symm⟩

theorem Mutex.Tracks.frame {mutex : Mutex} {s s' : Sched cfg} {holds : ℕ → Bool}
    (h : mutex.Tracks s holds)
    (hid : ∀ t < s.taskCount, t < s'.taskCount ∧ (s'.taskList t).taskId = (s.taskList t).taskId) :
    mutex.Tracks s' holds := by
  unfold Mutex.Tracks at h ⊢
  split at h
  · exact h
  · obtain ⟨t, ht, howner, hholds⟩ := h
    obtain ⟨ht', hid'⟩ := hid t ht
    exact ⟨t, ht', howner.trans hid'.symm, hholds⟩

/-- What `ownsMutex` means while the function of task `t` executes. -/
theorem Inv.ownsMutex_iff (hu : Inv u) {left t : ℕ} (hp : u.phase = .task left t)
    (mutex : Mutex) : u.machine.sched.ownsMutex mutex ↔
      mutex.owner = (u.machine.sched.taskList t).taskId := by
  obtain ⟨hlt, hcur⟩ := hu.task left t hp
  rw [Sched.ownsMutex_eq (u.machine.sched.rtosCurrentTask_eq_some.mpr ⟨hcur, hlt⟩)]
  simp

theorem Inv.taskId_inj (hu : Inv u) {t t' : ℕ} (ht : t < u.machine.sched.taskCount)
    (ht' : t' < u.machine.sched.taskCount)
    (h : (u.machine.sched.taskList t).taskId = (u.machine.sched.taskList t').taskId) : t = t' := by
  rw [hu.wellFormed.taskId t ht, hu.wellFormed.taskId t' ht'] at h
  omega

theorem holdsMutex_lock {left t : ℕ} (hp : u.phase = .task left t) (t' : ℕ) (tr : History cfg) :
    holdsMutex i t' (⟨u, .call (.sync (.mutexLock i)), .returned (.bool true), w⟩ :: tr) =
      (decide (t = t') || holdsMutex i t' tr) := by
  simp only [holdsMutex, hp, Phase.inTaskOf, true_and, decide_eq_true_eq]
  split_ifs with he <;> simp [he]

theorem holdsMutex_unlock {left t : ℕ} (hp : u.phase = .task left t) (t' : ℕ)
    (tr : History cfg) :
    holdsMutex i t' (⟨u, .call (.sync (.mutexUnlock i)), o, w⟩ :: tr) =
      (!decide (t = t') && holdsMutex i t' tr) := by
  simp only [holdsMutex, hp, Phase.inTaskOf, true_and, decide_eq_true_eq]
  split_ifs with he <;> simp [he]

/-- A task calls `rtos_mutex_lock`: it takes the free mutex, has it already, or is refused. -/
theorem Mutex.Tracks.lock (hu : Inv u) {left t : ℕ} (hp : u.phase = .task left t)
    {v : Value} {m : Machine cfg} (hexec : u.machine.exec (.sync (.mutexLock i)) = some (v, m))
    {tr : History cfg} (h : (u.machine.objects.mutexes i).Tracks u.machine.sched
      fun t => holdsMutex i t tr) :
    (m.objects.mutexes i).Tracks u.machine.sched fun t =>
      holdsMutex i t (⟨u, .call (.sync (.mutexLock i)), .returned v, ⟨m, u.phase⟩⟩ :: tr) := by
  obtain ⟨hlt, hcur⟩ := hu.task left t hp
  have hout := Machine.exec_sync hexec
  generalize u.machine.effect _ = e, m.objects = o' at hout
  cases hout with
  | @mutexTaken _ t' hl ht' =>
      obtain rfl : t' = t := by
        have := (u.machine.sched.rtosCurrentTask_eq_some.mp ht').1
        omega
      simp only [Mutex.Tracks, hl] at h
      rw [Objects.setMutex_at]
      refine ⟨t', hlt, rfl, fun t'' => ?_⟩
      beta_reduce
      rw [holdsMutex_lock hp, h]
      simp [eq_comm]
  | mutexHeld hl howns =>
      simp only [Mutex.Tracks, hl] at h ⊢
      obtain ⟨t', ht', howner, hholds⟩ := h
      have howner' := (hu.ownsMutex_iff hp _).mp howns
      obtain rfl : t' = t := hu.taskId_inj ht' hlt (howner.symm.trans howner')
      refine ⟨t', ht', howner, fun t'' => ?_⟩
      rw [holdsMutex_lock hp, Bool.or_eq_true, hholds, decide_eq_true_eq, eq_comm, or_self]
  | mutexRefused => exact h

/-- A task calls `rtos_mutex_unlock`: the holder releases, anybody else is ignored. -/
theorem Mutex.Tracks.unlock (hu : Inv u) {left t : ℕ} (hp : u.phase = .task left t)
    {v : Value} {m : Machine cfg} (hexec : u.machine.exec (.sync (.mutexUnlock i)) = some (v, m))
    {tr : History cfg} (h : (u.machine.objects.mutexes i).Tracks u.machine.sched
      fun t => holdsMutex i t tr) :
    (m.objects.mutexes i).Tracks u.machine.sched fun t =>
      holdsMutex i t (⟨u, .call (.sync (.mutexUnlock i)), .returned v, ⟨m, u.phase⟩⟩ :: tr) := by
  obtain ⟨hlt, -⟩ := hu.task left t hp
  have hout := Machine.exec_sync hexec
  generalize u.machine.effect _ = e, m.objects = o' at hout
  cases hout with
  | mutexReleased hl howns =>
      simp only [Mutex.Tracks, hl] at h
      obtain ⟨t', ht', howner, hholds⟩ := h
      have howner' := (hu.ownsMutex_iff hp _).mp howns
      obtain rfl : t' = t := hu.taskId_inj ht' hlt (howner.symm.trans howner')
      rw [Objects.setMutex_at]
      intro t''
      beta_reduce
      rw [holdsMutex_unlock hp, Bool.and_eq_false_iff, Bool.not_eq_false', decide_eq_true_eq,
        ← Bool.not_eq_true, hholds, eq_comm]
      exact em _
  | mutexIgnored hign =>
      cases hl : (u.machine.objects.mutexes i).locked with
      | false =>
          simp only [Mutex.Tracks, hl] at h ⊢
          intro t''
          rw [holdsMutex_unlock hp, h, Bool.and_false]
      | true =>
          simp only [Mutex.Tracks, hl] at h ⊢
          obtain ⟨t', ht', howner, hholds⟩ := h
          refine ⟨t', ht', howner, fun t'' => ?_⟩
          have hne : t' ≠ t := by
            rintro rfl
            have howns := (hu.ownsMutex_iff hp _).mpr howner
            simp [hl, howns] at hign
          rw [holdsMutex_unlock hp, Bool.and_eq_true, Bool.not_eq_true', decide_eq_false_iff_not,
            hholds]
          constructor
          · exact And.right
          · rintro rfl
            exact ⟨hne.symm, rfl⟩

theorem Mutex.Tracks.step (hu : Inv u) (hs : step u a = some (o, w))
    (huse : usesMutex i (⟨u, a, o, w⟩ : Edge cfg)) {tr : History cfg}
    (h : (u.machine.objects.mutexes i).Tracks u.machine.sched fun t => holdsMutex i t tr) :
    (w.machine.objects.mutexes i).Tracks w.machine.sched fun t =>
      holdsMutex i t (⟨u, a, o, w⟩ :: tr) := by
  have ha : a ≠ .init := by
    rintro rfl
    simp [usesMutex] at huse
  have hid := fun t ht => (step_cases hs).taskId hu (hu.step hs) ha (t := t) ht
  by_cases hon : ∃ c, a = .call (.sync c) ∧ c.onMutex i
  · obtain ⟨c, rfl, hon⟩ := hon
    cases step_cases hs with
    | @call _ v m _ hexec =>
        cases c with
        | mutexInit j =>
            simp only [SyncCall.onMutex, decide_eq_true_eq] at hon
            simp [usesMutex, hon] at huse
        | mutexLock j =>
            obtain rfl : j = i := by simpa [SyncCall.onMutex] using hon
            obtain ⟨left, t, hp⟩ := Phase.isTask_iff.mp (by simpa [usesMutex] using huse)
            exact (Mutex.Tracks.lock hu hp hexec h).frame hid
        | mutexUnlock j =>
            obtain rfl : j = i := by simpa [SyncCall.onMutex] using hon
            obtain ⟨left, t, hp⟩ := Phase.isTask_iff.mp (by simpa [usesMutex] using huse)
            exact (Mutex.Tracks.unlock hu hp hexec h).frame hid
        | _ => simp [SyncCall.onMutex] at hon
  · have hoff : ∀ c, a = .call (.sync c) → c.onMutex i = false := by
      intro c hc
      by_contra hne
      exact hon ⟨c, hc, by simpa using hne⟩
    obtain ⟨hm, hh⟩ := (step_cases hs).mutexes hoff
    simp only [hm, hh]
    exact h.frame hid

end Steps

/-- A mutex has at most one holder; it has one exactly while it is locked, and the owner
is its identifier. -/
theorem mutual_exclusion {s v : System cfg} {tr : History cfg} {i : ℕ} (hs : Reachable s)
    (hinit : s.machine.objects.mutexes i = mutexInit) (h : Run step s tr v)
    (huse : ∀ e ∈ tr, usesMutex i e) :
    (∀ t t', holdsMutex i t tr → holdsMutex i t' tr → t = t') ∧
      ((v.machine.objects.mutexes i).locked = true →
        ∃ t < v.machine.sched.taskCount, holdsMutex i t tr ∧
          (v.machine.sched.taskList t).taskId = (v.machine.objects.mutexes i).owner) ∧
      ((v.machine.objects.mutexes i).locked = false → ∀ t, ¬ holdsMutex i t tr) := by
  have hinv : Inv v ∧ (v.machine.objects.mutexes i).Tracks v.machine.sched
      fun t => holdsMutex i t tr := by
    refine h.history_invariant
      (P := fun tr v => Inv v ∧ (v.machine.objects.mutexes i).Tracks v.machine.sched
        fun t => holdsMutex i t tr) ⟨hs.inv, ?_⟩ (.of_forall huse) ?_
    · rw [hinit]
      intro t
      rfl
    · rintro tr u a o w ⟨hu, ht⟩ huse hs
      exact ⟨hu.step hs, ht.step hu hs huse⟩
  have htracks := hinv.2
  unfold Mutex.Tracks at htracks
  split at htracks
  · next hl =>
    refine ⟨fun t t' ht _ => ?_, fun hl' => ?_, fun _ t => ?_⟩
    · simp [htracks t] at ht
    · simp [hl] at hl'
    · simp [htracks t]
  · next hl =>
    obtain ⟨t₀, hlt, howner, hholds⟩ := htracks
    refine ⟨fun t t' ht ht' => ?_, fun _ => ?_, fun hl' => ?_⟩
    · rw [(hholds t).mp ht, (hholds t').mp ht']
    · exact ⟨t₀, hlt, (hholds t₀).mpr rfl, howner.symm⟩
    · simp [hl] at hl'

/-- Two tasks of equal priority: the first one locks the mutex and keeps it, the second
one tries to unlock it and is refused the lock. -/
def lockRun : List (Action Config.default) :=
  [.call (.task (.create 1 0x1000#64)), .call (.task (.create 1 0x2000#64)),
    .call (.sync (.mutexInit 1)), .run 2] ++ cycleActions _ ++
    [.call (.sync (.mutexLock 0)), .ret] ++ cycleActions _ ++
    [.call (.sync (.mutexUnlock 0)), .call (.sync (.mutexLock 0))]

theorem mutual_exclusion_lockRun :
    let s := (System.after .default [.call (.sync (.mutexInit 0))]).2
    let r := played step s lockRun
    (r.2.machine.objects.mutexes 0).locked = true ∧ holdsMutex 0 0 r.1 ∧
      ∀ t, holdsMutex 0 t r.1 → t = 0 :=
  ⟨by decide +kernel, by decide +kernel, fun t ht =>
    (mutual_exclusion (System.after_reachable _) rfl (run_played _ _) (by decide +kernel)).1 t 0 ht
      (by decide +kernel)⟩

end MiniRtos
