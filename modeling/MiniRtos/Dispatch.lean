import MiniRtos.ReadyQueue

/-!
# What a scheduling cycle decides

The five branches of `scheduler_run` end in one of three ways: nothing runs, another
task is switched in, or the current task goes on. `decides` says which, with what the
branch found, for scheduler data that is well formed and has no running task; this is
the only place where the branches are taken apart.
-/
namespace MiniRtos.Sched
variable {cfg : Config} (s : Sched cfg)

/-- Phase 1 of a switch. -/
def saveOutgoing (active : CPUContext) : Option ℕ → Sched cfg
  | some out => s.modifyTask out fun t => { t with context := active }
  | none => s

theorem doContextSwitch_eq (active : CPUContext) (outgoing : Option ℕ) (incoming : ℕ) :
    s.doContextSwitch active outgoing incoming =
      (({ s.saveOutgoing active outgoing with currentTaskIndex := incoming }.modifyTask
          incoming fun t => { t with sliceTicksUsed := 1#32 }).schedulerSetTaskState
            incoming .running .none,
        ((s.saveOutgoing active outgoing).taskList incoming).context) := by
  cases outgoing <;> rfl

/-- The current task goes on: one more tick of its slice, and it is running. -/
def continueCurrent (c : ℕ) : Sched cfg :=
  (s.modifyTask c fun t => { t with sliceTicksUsed := t.sliceTicksUsed + 1#32 }).schedulerSetTaskState
    c .running .none

/-- An idle cycle restarts the slice of the current task. -/
def resetSlice : Option ℕ → Sched cfg
  | some c => s.modifyTask c fun t => { t with sliceTicksUsed := 0#32 }
  | none => s

/-- What the branch that switches to `best` found. -/
inductive SwitchGuard (best : ℕ) : Branch → Prop
  | firstTick : s.rtosCurrentTask = none → SwitchGuard best .firstTick
  | forced {c : ℕ} : s.rtosCurrentTask = some c → (s.taskList c).state ≠ .ready →
      SwitchGuard best .forced
  | preempted {c : ℕ} : s.rtosCurrentTask = some c → (s.taskList c).state = .ready →
      s.prio c < s.prio best → SwitchGuard best .preempted
  | sliceExpired {c : ℕ} : s.rtosCurrentTask = some c → (s.taskList c).state = .ready →
      s.prio best = s.prio c → cfg.rtosTimeSliceTicks ≤ (s.taskList c).sliceTicksUsed.toNat →
      best ≠ c → SwitchGuard best .sliceExpired

inductive Decides (active : CPUContext) :
    Option (Branch × ℕ) × Sched cfg × CPUContext → Prop
  | idle : s.readyQueue = [] → Decides active (none, s.resetSlice s.rtosCurrentTask, active)
  | switched {best : ℕ} {b : Branch} : s.readyQueue.argmax s.prio = some best →
      s.SwitchGuard best b →
      Decides active (some (b, best),
        (s.readyQueuePop best).doContextSwitch active s.rtosCurrentTask best)
  | continued {c best : ℕ} : s.rtosCurrentTask = some c → (s.taskList c).state = .ready →
      s.readyQueue.argmax s.prio = some best → s.prio best = s.prio c →
      ((s.taskList c).sliceTicksUsed.toNat < cfg.rtosTimeSliceTicks ∨ best = c) →
      Decides active (some (.continued, c), s.continueCurrent c, active)

variable {s}

theorem WellFormed.mem_queue (h : s.WellFormed) {i : ℕ} :
    i ∈ s.readyQueue ↔ i < s.taskCount ∧ (s.taskList i).state = .ready :=
  (h.agrees i).queue

theorem requeueOutgoing_eq {c : ℕ} (h : (s.taskList c).state = .ready) :
    s.requeueOutgoing c = s := by
  simp [requeueOutgoing, h]

theorem WellFormed.decides (h : s.WellFormed) (active : CPUContext)
    (hrun : ∀ i < s.taskCount, (s.taskList i).state ≠ .running) :
    s.Decides active (s.schedulerRunDecide active) := by
  unfold schedulerRunDecide
  rw [h.peek_eq]
  cases hb : s.readyQueue.argmax s.prio with
  | none =>
      have hq := List.argmax_eq_none.mp hb
      cases hc : s.rtosCurrentTask with
      | none => simpa [hc, resetSlice] using (Decides.idle hq : s.Decides active _)
      | some c => simpa [hc, resetSlice] using (Decides.idle hq : s.Decides active _)
  | some best =>
      cases hc : s.rtosCurrentTask with
      | none => simpa [hc] using (Decides.switched hb (.firstTick hc) : s.Decides active _)
      | some c =>
          have hlt := (s.rtosCurrentTask_eq_some.mp hc).2
          simp only
          by_cases hst : (s.taskList c).state = .ready
          · have hcq : c ∈ s.readyQueue := h.mem_queue.mpr ⟨hlt, hst⟩
            have hle : s.prio c ≤ s.prio best := List.le_of_mem_argmax hcq hb
            rw [if_neg (by simp [hst]), requeueOutgoing_eq hst]
            by_cases hp : s.prio c < s.prio best
            · rw [if_pos hp]
              simpa [hc] using (Decides.switched hb (.preempted hc hst hp) : s.Decides active _)
            have he : s.prio best = s.prio c := le_antisymm (not_lt.mp hp) hle
            rw [if_neg hp]
            by_cases hs : cfg.rtosTimeSliceTicks ≤ (s.taskList c).sliceTicksUsed.toNat ∧ best ≠ c
            · rw [if_pos ⟨he, hs⟩]
              simpa [hc] using
                (Decides.switched hb (.sliceExpired hc hst he hs.1 hs.2) : s.Decides active _)
            · rw [if_neg (fun hn => hs hn.2)]
              refine .continued hc hst hb he ?_
              by_contra hn
              push Not at hn
              exact hs hn
          · rw [if_pos ⟨hrun c hlt, hst⟩]
            simpa [hc] using (Decides.switched hb (.forced hc hst) : s.Decides active _)

/-- The scheduler data when the function of task `t` is called, against those of the
decision: `t` was a first choice, it is current and running, nothing else moved. -/
structure Runs (s : Sched cfg) (t : ℕ) (s' : Sched cfg) : Prop where
  wellFormed : s'.WellFormed
  chosen : t ∈ s.readyQueue
  maximal : ∀ j ∈ s.readyQueue, s.prio j ≤ s.prio t
  taskCount : s'.taskCount = s.taskCount
  current : s'.currentTaskIndex = t
  status : ∀ j, s'.status j = if j = t then (.running, .none) else s.status j
  priority : ∀ j, s'.prio j = s.prio j

theorem saveOutgoing_field {α : Type*} (s : Sched cfg) (active : CPUContext) (out : Option ℕ)
    (g : TCB → α) (hg : ∀ t : TCB, g { t with context := active } = g t) (j : ℕ) :
    g ((s.saveOutgoing active out).taskList j) = g (s.taskList j) := by
  cases out with
  | none => rfl
  | some o =>
      simp only [saveOutgoing]
      exact s.modifyTask_field g (hg _) j

@[simp] theorem saveOutgoing_taskCount (s : Sched cfg) (active : CPUContext) (out : Option ℕ) :
    (s.saveOutgoing active out).taskCount = s.taskCount := by
  cases out <;> rfl

@[simp] theorem saveOutgoing_readyQueue (s : Sched cfg) (active : CPUContext)
    (out : Option ℕ) : (s.saveOutgoing active out).readyQueue = s.readyQueue := by
  cases out <;> rfl

/-- Phases 1 to 3 on data from which the incoming task was just taken out. -/
def switchTable (s : Sched cfg) (active : CPUContext) (out : Option ℕ) (i : ℕ) : Sched cfg :=
  { (s.readyQueuePop i).saveOutgoing active out with currentTaskIndex := i }.modifyTask i
    fun t => { t with sliceTicksUsed := 1#32 }

@[simp] theorem switchTable_taskCount (s : Sched cfg) (active : CPUContext) (out : Option ℕ)
    (i : ℕ) : (s.switchTable active out i).taskCount = s.taskCount := by
  simp [switchTable]

@[simp] theorem switchTable_currentTaskIndex (s : Sched cfg) (active : CPUContext)
    (out : Option ℕ) (i : ℕ) : (s.switchTable active out i).currentTaskIndex = i := by
  simp [switchTable]

@[simp] theorem switchTable_readyQueue (s : Sched cfg) (active : CPUContext)
    (out : Option ℕ) (i : ℕ) :
    (s.switchTable active out i).readyQueue = s.readyQueue.erase i := by
  simp [switchTable]

theorem switchTable_field {α : Type*} (s : Sched cfg) (active : CPUContext) (out : Option ℕ)
    (i : ℕ) (g : TCB → α) (hg : ∀ t : TCB, g { t with context := active } = g t)
    (hg' : ∀ t : TCB, g { t with sliceTicksUsed := 1#32 } = g t) (j : ℕ) :
    g ((s.switchTable active out i).taskList j) = g (s.taskList j) :=
  (modifyTask_field _ g (hg' _) j).trans (saveOutgoing_field _ active out g hg j)

theorem Shape.switchTable (h : s.Shape) (active : CPUContext) (out : Option ℕ) {i : ℕ}
    (hi : i < s.taskCount) : (s.switchTable active out i).Shape where
  count_le := by simpa using h.count_le
  taskId j hj := by
    rw [s.switchTable_field active out i TCB.taskId (fun _ => rfl) (fun _ => rfl)]
    exact h.taskId j (by simpa using hj)
  current_ge := by
    rw [switchTable_currentTaskIndex]
    omega
  current_lt := by simpa using hi
  nodup := by simpa using h.nodup.erase i
  bounded j hj := by
    rw [switchTable_readyQueue] at hj
    simpa using h.bounded j (List.mem_of_mem_erase hj)

theorem Agrees.switchTable (active : CPUContext) (out : Option ℕ) {i j : ℕ}
    (h : s.Agrees j) (hj : j ≠ i) : (s.switchTable active out i).Agrees j where
  queue := by
    rw [s.switchTable_field active out i TCB.state (fun _ => rfl) (fun _ => rfl),
      switchTable_readyQueue, switchTable_taskCount]
    exact (h.readyQueuePop hj).queue
  reason hlt := by
    rw [s.switchTable_field active out i TCB.state (fun _ => rfl) (fun _ => rfl),
      s.switchTable_field active out i TCB.blockReason (fun _ => rfl) (fun _ => rfl)]
    exact h.reason (by simpa using hlt)

theorem WellFormed.runs_switched (h : s.WellFormed) (active : CPUContext) (out : Option ℕ)
    {best : ℕ} (hb : s.readyQueue.argmax s.prio = some best) :
    s.Runs best ((s.readyQueuePop best).doContextSwitch active out best).1 := by
  have hm : best ∈ s.readyQueue := List.argmax_mem hb
  have hlt := (h.mem_queue.mp hm).1
  have hlt' : best < (s.switchTable active out best).taskCount := by simpa using hlt
  rw [doContextSwitch_eq]
  change s.Runs best ((s.switchTable active out best).schedulerSetTaskState best .running .none)
  refine ⟨?_, hm, fun j hj => List.le_of_mem_argmax hj hb, ?_, ?_, fun j => ?_, fun j => ?_⟩
  · exact (h.toShape.switchTable active out hlt).setTaskState_wellFormed hlt'
      (fun j hj => (h.agrees j).switchTable active out hj) (by simp)
  · simp
  · simp
  · rw [setTaskState_status]
    by_cases hj : j = best
    · rw [if_pos ⟨by rw [hj], hj ▸ hlt'⟩, if_pos hj]
      simp
    · rw [if_neg (by simpa using fun he => absurd he hj), if_neg hj]
      exact s.switchTable_field active out best (fun t => (t.state, t.blockReason))
        (fun _ => rfl) (fun _ => rfl) j
  · exact ((setTaskState_sameTask _ _ _ _ j).priority).trans
      (s.switchTable_field active out best TCB.priority (fun _ => rfl) (fun _ => rfl) j)

theorem WellFormed.runs_continued (h : s.WellFormed) {c best : ℕ}
    (hc : s.rtosCurrentTask = some c) (hst : (s.taskList c).state = .ready)
    (hb : s.readyQueue.argmax s.prio = some best) (he : s.prio best = s.prio c) :
    s.Runs c (s.continueCurrent c) := by
  obtain ⟨hcur, hlt⟩ := s.rtosCurrentTask_eq_some.mp hc
  have hw : (s.modifyTask c fun t =>
      { t with sliceTicksUsed := t.sliceTicksUsed + 1#32 }).WellFormed :=
    h.modifyTask rfl rfl rfl
  refine ⟨hw.setTaskState c (by simp), h.mem_queue.mpr ⟨hlt, hst⟩, fun j hj => ?_, ?_, ?_,
    fun j => ?_, fun j => ?_⟩
  · exact he ▸ List.le_of_mem_argmax hj hb
  · simp [continueCurrent]
  · simpa [continueCurrent] using hcur
  · rw [continueCurrent, setTaskState_status]
    by_cases hj : j = c
    · rw [if_pos ⟨by rw [hj], by simpa [hj] using hlt⟩, if_pos hj]
      simp
    · rw [if_neg (by simpa using fun he => absurd he hj), if_neg hj]
      exact s.modifyTask_field (fun t => (t.state, t.blockReason)) rfl j
  · exact ((setTaskState_sameTask _ _ _ _ j).priority).trans
      (s.modifyTask_field TCB.priority rfl j)

theorem Decides.runs (h : s.WellFormed) {active active' : CPUContext} {b : Branch} {t : ℕ}
    {s' : Sched cfg} (d : s.Decides active (some (b, t), s', active')) : s.Runs t s' := by
  generalize hr : (some (b, t), s', active') = r at d
  cases d with
  | idle => simp at hr
  | switched hb _ =>
      simp only [Prod.mk.injEq, Option.some.injEq] at hr
      obtain ⟨⟨-, rfl⟩, hs⟩ := hr
      rw [← show _ = s' from (congrArg Prod.fst hs).symm]
      exact h.runs_switched active _ hb
  | continued hc hst hb he _ =>
      simp only [Prod.mk.injEq, Option.some.injEq] at hr
      obtain ⟨⟨-, rfl⟩, rfl, -⟩ := hr
      exact h.runs_continued hc hst hb he

theorem Decides.idles {active active' : CPUContext} {s' : Sched cfg}
    (d : s.Decides active (none, s', active')) :
    s.readyQueue = [] ∧ s' = s.resetSlice s.rtosCurrentTask ∧ active' = active := by
  generalize hr : ((none : Option (Branch × ℕ)), s', active') = r at d
  cases d with
  | idle hq =>
      simp only [Prod.mk.injEq, true_and] at hr
      exact ⟨hq, hr⟩
  | switched => simp at hr
  | continued => simp at hr

theorem WellFormed.resetSlice (h : s.WellFormed) (c : Option ℕ) : (s.resetSlice c).WellFormed := by
  cases c with
  | none => exact h
  | some c =>
      simp only [Sched.resetSlice]
      exact h.modifyTask rfl rfl rfl

/-- Only the slice counter of the current task is written. -/
theorem resetSlice_taskList (s : Sched cfg) (c : Option ℕ) (j : ℕ) :
    ∃ n, (s.resetSlice c).taskList j = { s.taskList j with sliceTicksUsed := n } := by
  cases c with
  | none => exact ⟨_, rfl⟩
  | some c =>
      by_cases hj : j = c
      · exact ⟨0#32, by rw [hj, resetSlice, modifyTask_self]⟩
      · exact ⟨_, by rw [resetSlice, s.modifyTask_of_ne _ hj]⟩

theorem resetSlice_field {α : Type*} (s : Sched cfg) (c : Option ℕ) (g : TCB → α)
    (hg : ∀ (t : TCB) (n : BitVec 32), g { t with sliceTicksUsed := n } = g t) (j : ℕ) :
    g ((s.resetSlice c).taskList j) = g (s.taskList j) := by
  obtain ⟨n, hn⟩ := s.resetSlice_taskList c j
  rw [hn, hg]

theorem resetSlice_status (s : Sched cfg) (c : Option ℕ) (j : ℕ) :
    (s.resetSlice c).status j = s.status j :=
  s.resetSlice_field c (fun t => (t.state, t.blockReason)) (fun _ _ => rfl) j

@[simp] theorem resetSlice_taskCount (s : Sched cfg) (c : Option ℕ) :
    (s.resetSlice c).taskCount = s.taskCount := by
  cases c <;> rfl

@[simp] theorem resetSlice_currentTaskIndex (s : Sched cfg) (c : Option ℕ) :
    (s.resetSlice c).currentTaskIndex = s.currentTaskIndex := by
  cases c <;> rfl

/-- When the function of task `t` returns, only `t` can change, and only from running. -/
theorem taskReturned_status (s : Sched cfg) (t j : ℕ) :
    (s.taskReturned t).status j = s.status j ∨
      j = t ∧ (s.taskList t).state = .running ∧ (s.taskReturned t).status j = (.ready, .none) := by
  unfold taskReturned
  split_ifs with hr
  · simp only [setTaskState_status, Int.natCast_inj]
    by_cases h : j = t ∧ j < s.taskCount
    · right
      rw [if_pos h]
      exact ⟨h.1, hr, rfl⟩
    · exact .inl (if_neg h)
  · exact .inl rfl

theorem WellFormed.taskReturned (h : s.WellFormed) (t : ℕ) : (s.taskReturned t).WellFormed := by
  unfold Sched.taskReturned
  split_ifs
  · exact h.setTaskState _ (by simp)
  · exact h

@[simp] theorem taskReturned_taskCount (s : Sched cfg) (t : ℕ) :
    (s.taskReturned t).taskCount = s.taskCount := by
  unfold taskReturned
  split_ifs <;> simp

@[simp] theorem taskReturned_currentTaskIndex (s : Sched cfg) (t : ℕ) :
    (s.taskReturned t).currentTaskIndex = s.currentTaskIndex := by
  unfold taskReturned
  split_ifs <;> simp

theorem taskReturned_sameTask (s : Sched cfg) (t j : ℕ) :
    SameTask (s.taskList j) ((s.taskReturned t).taskList j) := by
  unfold taskReturned
  split_ifs
  · exact setTaskState_sameTask _ _ _ _ j
  · exact .refl _

end MiniRtos.Sched
