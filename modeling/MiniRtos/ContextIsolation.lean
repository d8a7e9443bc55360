import MiniRtos.KernelInvariant

/-!
# One register file per task

The registers of a task live in `active_context` while the task is current and in its
control block otherwise; `registers` reads them off either way. A switch moves the
registers of two tasks to their other place and changes nobody's, the branches that skip
the save or the restore move nothing, and so every task finds its registers as it
left them.
-/
namespace MiniRtos
open TransitionSystem
variable {cfg : Config}

namespace Sched

/-- The private register file of a task. -/
def registers (s : Sched cfg) (active : CPUContext) (i : ℕ) : CPUContext :=
  if s.rtosCurrentTask = some i then active else (s.taskList i).context

/-- The value `context_init` gave a task. -/
def initialContext (s : Sched cfg) (i : ℕ) : CPUContext :=
  contextInit (s.taskList i).taskFunction

section Dispatch
variable {s s' : Sched cfg} {active active' : CPUContext} {b : Branch} {t : ℕ}

theorem saveOutgoing_context (s : Sched cfg) (active : CPUContext) (i : ℕ) :
    ((s.saveOutgoing active s.rtosCurrentTask).taskList i).context = s.registers active i := by
  unfold registers
  cases hc : s.rtosCurrentTask with
  | none => rfl
  | some c =>
      by_cases h : i = c
      · simp [saveOutgoing, h]
      · simp [saveOutgoing, s.modifyTask_of_ne _ h, Ne.symm h]

theorem switchTable_context (s : Sched cfg) (active : CPUContext) (best i : ℕ) :
    ((s.switchTable active s.rtosCurrentTask best).taskList i).context =
      s.registers active i := by
  refine (modifyTask_field _ TCB.context rfl i).trans ?_
  exact (s.readyQueuePop best).saveOutgoing_context active i

/-- Whatever branch runs a task, the task gets its registers and the others keep theirs. -/
theorem Decides.registers (d : s.Decides active (some (b, t), s', active')) :
    active' = s.registers active t ∧ ∀ i ≠ t, (s'.taskList i).context = s.registers active i := by
  generalize hr : (some (b, t), s', active') = r at d
  cases d with
  | idle => simp at hr
  | @switched best =>
      simp only [doContextSwitch_eq, Prod.mk.injEq, Option.some.injEq] at hr
      obtain ⟨⟨-, rfl⟩, rfl, rfl⟩ := hr
      refine ⟨(s.readyQueuePop t).saveOutgoing_context active t, fun i _ => ?_⟩
      exact ((setTaskState_sameTask _ _ _ _ i).context).trans
        (s.switchTable_context active t i)
  | continued hc =>
      simp only [Prod.mk.injEq, Option.some.injEq] at hr
      obtain ⟨⟨-, rfl⟩, rfl, rfl⟩ := hr
      refine ⟨by simp [Sched.registers, hc], fun i hi => ?_⟩
      rw [Sched.registers, hc, if_neg (by simpa using Ne.symm hi)]
      exact ((setTaskState_sameTask _ _ _ _ i).context).trans
        (s.modifyTask_field TCB.context rfl i)

theorem Decides.taskFunction (d : s.Decides active (some (b, t), s', active')) (i : ℕ) :
    (s'.taskList i).taskFunction = (s.taskList i).taskFunction := by
  generalize hr : (some (b, t), s', active') = r at d
  cases d with
  | idle => simp at hr
  | switched =>
      simp only [doContextSwitch_eq, Prod.mk.injEq] at hr
      obtain ⟨-, rfl, -⟩ := hr
      exact ((setTaskState_sameTask _ _ _ _ i).taskFunction).trans
        (s.switchTable_field active _ _ TCB.taskFunction (fun _ => rfl) (fun _ => rfl) i)
  | continued =>
      simp only [Prod.mk.injEq] at hr
      obtain ⟨-, rfl, -⟩ := hr
      exact ((setTaskState_sameTask _ _ _ _ i).taskFunction).trans
        (s.modifyTask_field TCB.taskFunction rfl i)

end Dispatch

/-- Nothing moves registers: no control block's, and not by changing the current task. -/
structure Keeps (s s' : Sched cfg) : Prop where
  taskCount : s.taskCount ≤ s'.taskCount
  current : s'.currentTaskIndex = s.currentTaskIndex
  context : ∀ i < s.taskCount, (s'.taskList i).context = (s.taskList i).context
  taskFunction : ∀ i < s.taskCount, (s'.taskList i).taskFunction = (s.taskList i).taskFunction

theorem Keeps.refl (s : Sched cfg) : s.Keeps s :=
  ⟨le_rfl, rfl, fun _ _ => rfl, fun _ _ => rfl⟩

theorem Keeps.of_sameTask {s s' : Sched cfg} (hcount : s.taskCount ≤ s'.taskCount)
    (hcur : s'.currentTaskIndex = s.currentTaskIndex)
    (h : ∀ i < s.taskCount, SameTask (s.taskList i) (s'.taskList i)) : s.Keeps s' :=
  ⟨hcount, hcur, fun i hi => (h i hi).context, fun i hi => (h i hi).taskFunction⟩

theorem resetSlice_keeps (s : Sched cfg) (c : Option ℕ) : s.Keeps (s.resetSlice c) := by
  cases c with
  | none => exact .refl s
  | some c =>
      simp only [resetSlice]
      exact ⟨le_rfl, rfl, fun i _ => s.modifyTask_field TCB.context rfl i,
        fun i _ => s.modifyTask_field TCB.taskFunction rfl i⟩

theorem Keeps.rtosCurrentTask {s s' : Sched cfg} (h : s.Keeps s') (hs : s.Shape) :
    s'.rtosCurrentTask = s.rtosCurrentTask :=
  hs.rtosCurrentTask_congr h.taskCount h.current

theorem Keeps.registers {s s' : Sched cfg} (h : s.Keeps s') (hs : s.Shape)
    (active : CPUContext) {i : ℕ} (hi : i < s.taskCount) :
    s'.registers active i = s.registers active i := by
  simp only [Sched.registers, h.rtosCurrentTask hs, h.context i hi]

theorem Keeps.initialContext {s s' : Sched cfg} (h : s.Keeps s') {i : ℕ}
    (hi : i < s.taskCount) : s'.initialContext i = s.initialContext i := by
  simp only [Sched.initialContext, h.taskFunction i hi]

end Sched

theorem Effect.apply_keeps (s : Sched cfg) (e : Effect) : s.Keeps (e.apply s) :=
  .of_sameTask (taskCount_le s e) (apply_currentTaskIndex s e) fun _ => apply_sameTask s e

/-- A task that a call creates has its initial registers in its control block. -/
theorem Effect.apply_created_context {s : Sched cfg} (e : Effect) {i : ℕ}
    (hi : s.taskCount ≤ i) (hlt : i < (e.apply s).taskCount) :
    ((e.apply s).taskList i).context = (e.apply s).initialContext i := by
  obtain ⟨rfl, -⟩ := apply_created s e hi hlt
  cases e with
  | create p f =>
      simp only [apply, Sched.rtosCreateTask_sched, Sched.initialContext] at hlt ⊢
      split_ifs at hlt ⊢ with hc
      · omega
      · rw [(Sched.setTaskState_sameTask _ _ _ _ _).context,
          (Sched.setTaskState_sameTask _ _ _ _ _).taskFunction]
        simp [Sched.addTask, Sched.modifyTask]
  | _ =>
      rw [apply_taskCount s (by simp)] at hlt
      omega

theorem Machine.exec_activeContext {m m' : Machine cfg} {c : Call cfg} {v : Value}
    (h : m.exec c = some (v, m')) (hc : ∀ source, c ≠ .context (.restore source)) :
    m'.activeContext = m.activeContext := by
  cases exec_cases h with
  | @context c =>
      cases c with
      | restore source => exact absurd rfl (hc source)
      | active => rfl
  | _ => rfl

/-- `active_context` when the last execution of task `t` ended, since `rtos_init`. -/
def lastContext (t : ℕ) : History cfg → Option CPUContext
  | [] => none
  | e :: tr =>
      match e.act, e.src.phase with
      | .init, _ => none
      | .ret, .task _ u => if u = t then some e.src.machine.activeContext else lastContext t tr
      | _, _ => lastContext t tr

/-- Application code writes `active_context` from task functions only. -/
def writesInTasks (e : Edge cfg) : Bool :=
  match e.act, e.src.phase with
  | .call (.context (.restore _)), .task _ _ => true
  | .call (.context (.restore _)), _ => false
  | _, _ => true

/-- What the history says the registers of task `t` are when `t` is not executing. -/
def expectedContext (tr : History cfg) (s : Sched cfg) (t : ℕ) : CPUContext :=
  (lastContext t tr).getD (s.initialContext t)

structure Isolated (tr : History cfg) (s : System cfg) : Prop where
  inv : Inv s
  registers : ∀ i < s.machine.sched.taskCount, (∀ left, s.phase ≠ .task left i) →
    s.machine.sched.registers s.machine.activeContext i = expectedContext tr s.machine.sched i
  fresh : ∀ i, s.machine.sched.taskCount ≤ i → lastContext i tr = none

section Steps
variable {u w : System cfg} {a : Action cfg} {o : Observation cfg} {tr : History cfg}

theorem lastContext_cons {e : Edge cfg} (hi : e.act ≠ .init)
    (hr : e.act = .ret → ∀ left t, e.src.phase ≠ .task left t) (i : ℕ) :
    lastContext i (e :: tr) = lastContext i tr := by
  simp only [lastContext]
  split
  · next h => exact absurd h hi
  · next left t hact hp => exact absurd hp (hr hact left t)
  · rfl

theorem Inv.current {s : System cfg} (h : Inv s) {left t : ℕ} (hp : s.phase = .task left t) :
    s.machine.sched.rtosCurrentTask = some t :=
  (Sched.rtosCurrentTask_eq_some _).mpr ⟨(h.task left t hp).2, (h.task left t hp).1⟩

/-- Steps that neither dispatch a task nor end its execution. -/
theorem Isolated.keep (h : Isolated tr u) {tr' : History cfg} (hw : Inv w)
    (hlast : ∀ i, lastContext i tr' = lastContext i tr)
    (hk : u.machine.sched.Keeps w.machine.sched)
    (hphase : ∀ left t, u.phase = .task left t → w.phase = .task left t)
    (hactive : w.machine.activeContext = u.machine.activeContext ∨
      ∃ left t, w.phase = .task left t)
    (hnew : ∀ i, u.machine.sched.taskCount ≤ i → i < w.machine.sched.taskCount →
      (w.machine.sched.taskList i).context = w.machine.sched.initialContext i) :
    Isolated tr' w := by
  have hshape := h.inv.wellFormed.toShape
  refine ⟨hw, fun i hi hp => ?_, fun i hi => ?_⟩
  · rw [expectedContext, hlast]
    by_cases hlt : i < u.machine.sched.taskCount
    · rw [hk.initialContext hlt]
      refine .trans ?_ (h.registers i hlt fun left hu => hp left (hphase left i hu))
      rcases hactive with ha | ⟨left, t, ht⟩
      · rw [ha, hk.registers hshape _ hlt]
      · -- the registers of a task that is not current do not depend on the live ones
        have hne : w.machine.sched.rtosCurrentTask ≠ some i := by
          rw [hw.current ht]
          rintro ⟨rfl⟩
          exact hp left ht
        rw [← hk.registers hshape _ hlt, Sched.registers, Sched.registers, if_neg hne, if_neg hne]
    · have hne : w.machine.sched.rtosCurrentTask ≠ some i := by
        rw [hk.rtosCurrentTask hshape]
        intro hc
        exact hlt (Sched.rtosCurrentTask_eq_some _ |>.mp hc).2
      rw [h.fresh i (not_lt.mp hlt), Option.getD_none, Sched.registers, if_neg hne]
      exact hnew i (not_lt.mp hlt) hi
  · rw [hlast]
    exact h.fresh i (hk.taskCount.trans hi)

/-- The kernel's steps between the cycle top and the decision. -/
theorem Isolated.kernel (h : Isolated tr u) (hs : step u a = some (o, w)) (hi : a ≠ .init)
    (hk : u.machine.sched.Keeps w.machine.sched)
    (hcount : w.machine.sched.taskCount = u.machine.sched.taskCount)
    (hactive : w.machine.activeContext = u.machine.activeContext)
    (hphase : ∀ left t, u.phase ≠ .task left t) : Isolated (⟨u, a, o, w⟩ :: tr) w :=
  h.keep (h.inv.step hs) (lastContext_cons hi fun _ => hphase) hk
    (fun left t hp => absurd hp (hphase left t)) (.inl hactive) fun _ _ _ => by omega

theorem Isolated.taskReturned (h : Isolated tr u) (hs : step u .ret = some (o, w)) {left t : ℕ}
    (hp : u.phase = .task left t)
    (hw : w = ⟨{ u.machine with sched := u.machine.sched.taskReturned t }, .cycleTop left⟩) :
    Isolated (⟨u, .ret, o, w⟩ :: tr) w := by
  have hk : u.machine.sched.Keeps (u.machine.sched.taskReturned t) :=
    .of_sameTask (by simp) (by simp) fun i _ => Sched.taskReturned_sameTask _ t i
  have hshape := h.inv.wellFormed.toShape
  have hinv := h.inv.step hs
  subst hw
  have hlast : ∀ w i, lastContext i (⟨u, .ret, o, w⟩ :: tr) =
      if t = i then some u.machine.activeContext else lastContext i tr := fun w i => by
    simp only [lastContext, hp]
  refine ⟨hinv, fun i hi _ => ?_, fun i hi => ?_⟩
  · have hlt : i < u.machine.sched.taskCount := by simpa using hi
    simp only [hk.registers hshape _ hlt, expectedContext, hlast, hk.initialContext hlt]
    by_cases hit : t = i
    · subst hit
      simp [Sched.registers, h.inv.current hp]
    · rw [if_neg hit]
      refine h.registers i hlt fun l hl => hit ?_
      rw [hp] at hl
      cases hl
      rfl
  · have hlt : u.machine.sched.taskCount ≤ i := by simpa using hi
    have hne : t ≠ i := ((h.inv.task left t hp).1.trans_le hlt).ne
    rw [hlast, if_neg hne]
    exact h.fresh i hlt

/-- The task that is called gets the registers the history promises it. -/
theorem Isolated.taskCalled (h : Isolated tr u) {b : Sched.Branch} {t : ℕ}
    (hs : step u a = some (.taskCalled b t, w)) :
    w.machine.activeContext = expectedContext tr u.machine.sched t ∧
      Isolated (⟨u, a, .taskCalled b t, w⟩ :: tr) w := by
  have hinv := h.inv.step hs
  cases step_cases hs with
  | @taskCalled left _ _ sched active hp hd =>
      have d := hd ▸ h.inv.decides hp
      obtain ⟨hactive, hother⟩ := d.registers
      have r := d.runs h.inv.wellFormed
      have ht := (h.inv.wellFormed.mem_queue.mp r.chosen).1
      have hnot : ∀ i l, u.phase ≠ .task l i := by simp [hp]
      have hlast : ∀ w i, lastContext i (⟨u, .advance, .taskCalled b t, w⟩ :: tr) =
          lastContext i tr := fun w => lastContext_cons (by simp) (by simp)
      refine ⟨hactive.trans (h.registers t ht (hnot t)), hinv, fun i hi hpi => ?_, fun i hi => ?_⟩
      · have hne : i ≠ t := fun he => hpi left (by rw [he])
        have hc := hinv.current (Eq.refl (Phase.task left t))
        have hlt : i < u.machine.sched.taskCount := r.taskCount ▸ hi
        rw [expectedContext, hlast]
        simp only [Sched.registers, Sched.initialContext] at hc ⊢
        rw [hc, if_neg (by simpa using hne.symm), hother i hne, d.taskFunction]
        exact h.registers i hlt (hnot i)
      · rw [hlast]
        exact h.fresh i (r.taskCount ▸ hi)

theorem Isolated.step (h : Isolated tr u) (hok : writesInTasks (⟨u, a, o, w⟩ : Edge cfg))
    (hs : step u a = some (o, w)) : Isolated (⟨u, a, o, w⟩ :: tr) w := by
  have hinv := h.inv.step hs
  cases hc : step_cases hs with
  | init => exact ⟨hinv, fun i hi => by simp [Machine.rtosInit] at hi, fun i _ => rfl⟩
  | @call c v m ha hexec =>
      have hsched := Machine.exec_sched hexec
      refine h.keep hinv (lastContext_cons (by simp) (by simp)) (hsched ▸ Effect.apply_keeps _ _)
        (fun _ _ hp => hp) ?_ fun i hi hlt => ?_
      · by_cases hr : ∃ source, c = .context (.restore source)
        · obtain ⟨source, rfl⟩ := hr
          cases hp : u.phase with
          | task left t => exact .inr ⟨left, t, rfl⟩
          | _ => simp [writesInTasks, hp] at hok
        · exact .inl (Machine.exec_activeContext hexec fun source he => hr ⟨source, he⟩)
      · simp only [hsched] at hlt ⊢
        exact Effect.apply_created_context _ hi hlt
  | taskReturned hp => exact h.taskReturned hs hp rfl
  | taskCalled => exact (h.taskCalled hs).2
  | tick hp =>
      exact h.kernel hs (by simp)
        (.of_sameTask (by simp) (by simp) fun i _ => Sched.timerUpdateSleep_sameTask _ i)
        (by simp) rfl (by simp [hp])
  | idle hp hd =>
      obtain ⟨-, rfl, rfl⟩ := Sched.Decides.idles (hd ▸ h.inv.decides hp)
      exact h.kernel hs (by simp) (Sched.resetSlice_keeps _ _) (by simp) rfl (by simp [hp])
  | run hp => exact h.kernel hs (by simp) (.refl _) rfl rfl (by simp [hp])
  | callbackReturned hp => exact h.kernel hs (by simp) (.refl _) rfl rfl (by simp [hp])
  | runDone hp => exact h.kernel hs (by simp) (.refl _) rfl rfl (by simp [hp])
  | slotSkipped hp => exact h.kernel hs (by simp) (.refl _) rfl rfl (by simp [hp])
  | callbackCalled hp => exact h.kernel hs (by simp) (.refl _) rfl rfl (by simp [hp])
  | passDone hp => exact h.kernel hs (by simp) (.refl _) rfl rfl (by simp [hp])

end Steps

theorem isolated_run {s v : System cfg} {tr : History cfg} (hi : Initial s)
    (h : Run step s tr v) (hok : ∀ e ∈ tr, writesInTasks e) : Isolated tr v := by
  refine h.history_invariant ⟨hi.inv, fun i hlt => ?_, fun _ _ => rfl⟩ (.of_forall hok)
    fun tr u a o w hu hok hs => hu.step hok hs
  obtain ⟨-, m, hm⟩ := hi
  simp [hm, Machine.rtosInit] at hlt

/-- Whenever a task function is called, its registers are what they were when it last
returned, or its initial ones. -/
theorem context_isolation {s v : System cfg} {tr later earlier : History cfg} {e : Edge cfg}
    {b : Sched.Branch} {t : ℕ} (hi : Initial s) (h : Run step s tr v)
    (hok : ∀ e ∈ tr, writesInTasks e) (ht : tr = later ++ e :: earlier)
    (hcall : e.obs = .taskCalled b t) :
    e.dst.machine.activeContext =
      match lastContext t earlier with
      | some saved => saved
      | none => contextInit (e.src.machine.sched.taskList t).taskFunction := by
  obtain ⟨hrun, hstep, -⟩ := h.split ht
  have hiso := isolated_run hi hrun fun d hd => hok d (by simp [ht, hd])
  rw [hcall] at hstep
  have hctx := (hiso.taskCalled hstep).1
  rw [hctx, expectedContext]
  cases lastContext t earlier <;> rfl

/-- Two tasks of equal priority take turns, and each leaves its mark in `r0`. -/
def swapRun : List (Action Config.default) :=
  [.call (.task (.create 1 0x1000#64)), .call (.task (.create 1 0x2000#64)), .run 3] ++
    cycleActions _ ++ [.call (.context (.restore { contextClear with r0 := 1#32 })), .ret] ++
    cycleActions _ ++ [.call (.context (.restore { contextClear with r0 := 2#32 })), .ret] ++
    cycleActions _

theorem context_isolation_swapRun :
    ∃ e earlier, (System.after _ swapRun).1 = e :: earlier ∧
      e.obs = .taskCalled .sliceExpired 0 ∧
        lastContext 0 earlier = some { contextClear with r0 := 1#32 } ∧
          e.dst.machine.activeContext = { contextClear with r0 := 1#32 } := by
  have hne : (System.after _ swapRun).1 ≠ [] := by decide +kernel
  have hobs : (System.after _ swapRun).1.head?.map (·.obs) =
      some (.taskCalled .sliceExpired 0) := by decide +kernel
  have hlast : lastContext 0 (System.after _ swapRun).1.tail =
      some { contextClear with r0 := 1#32 } := by decide +kernel
  have hok : ∀ e ∈ (System.after _ swapRun).1, writesInTasks e := by decide +kernel
  obtain ⟨e, earlier, ht⟩ := List.exists_cons_of_ne_nil hne
  simp only [ht, List.head?_cons, Option.map_some, Option.some.injEq, List.tail_cons] at hobs hlast
  have hctx := context_isolation (System.boot_initial _) (run_played _ swapRun) hok
    (show _ = [] ++ e :: earlier from ht) hobs
  rw [hlast] at hctx
  exact ⟨e, earlier, ht, hobs, hlast, hctx⟩

end MiniRtos
