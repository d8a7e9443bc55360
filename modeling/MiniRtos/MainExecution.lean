import MiniRtos.MainProgram
import MiniRtos.ContextIsolation
import MiniRtos.CurrentTask
import MiniRtos.QueueRefinement
import MiniRtos.DueTime

/-!
# The three functions of `main.c` on the kernel

Each function is described by what it leaves behind: the objects, the scheduler data and
the printed line, for every outcome that its calls can have. The main program is described
by the machine on which it starts the scheduler.
-/
namespace MiniRtos
variable {cfg : Config}

/-- The machine after a call that acted on the scheduler and left objects `o`. -/
def Machine.acted (m : Machine cfg) (e : Effect) (o : Objects) : Machine cfg :=
  { m with sched := e.apply m.sched, objects := o }

@[simp] theorem Machine.acted_sched (m : Machine cfg) (e : Effect) (o : Objects) :
    (m.acted e o).sched = e.apply m.sched := rfl

@[simp] theorem Machine.acted_objects (m : Machine cfg) (e : Effect) (o : Objects) :
    (m.acted e o).objects = o := rfl

theorem SyncCall.exec_isSome_of_current {s : Sched cfg} {t : ℕ} (ht : s.rtosCurrentTask = some t)
    (o : Objects) (c : SyncCall) : (c.exec s o).isSome := by
  cases hc : c.readsCurrent with
  | true => simp [c.exec_isSome s o hc, ht]
  | false => cases c <;> first | rfl | cases hc

namespace MainProgram
open TransitionSystem
variable {img : Image}

/-- The tasks of the table run functions of the application, the first one and no other the
sensor task, and no soft timer was created. -/
structure Loaded (img : Image) (m : Machine cfg) : Prop where
  functions : ∀ i < m.sched.taskCount,
    (m.sched.taskList i).taskFunction ∈ [img.sensorTask, img.loggerTask, img.displayTask]
  first : ∀ i < m.sched.taskCount, (m.sched.taskList i).taskFunction = img.sensorTask ↔ i = 0
  timers : ∀ i, (m.timer.softTimers i).inUse = false

theorem Loaded.acted {m : Machine cfg} (h : Loaded img m) {e : Effect}
    (he : ∀ p f, e ≠ .create p f) (o : Objects) : Loaded img (m.acted e o) := by
  refine ⟨fun i hi => ?_, fun i hi => ?_, h.timers⟩
  all_goals rw [Machine.acted_sched, Effect.apply_taskCount _ he] at hi
  all_goals rw [Machine.acted_sched, (Effect.apply_sameTask m.sched e hi).taskFunction]
  · exact h.functions i hi
  · exact h.first i hi

/-- The queue holds samples `l`, the semaphore counts them, and nobody holds the mutex. -/
structure Holds (cfg : Config) (o : Objects) (l : List ℤ) : Prop where
  queue : (o.queues sensorQueue).Represents cfg l
  semaphore : (o.semaphores dataReady).count = l.length
  mutex : (o.mutexes uartMutex).locked = false

/-- The function of task `t` is executing. -/
structure Executing (img : Image) (left t : ℕ) (m : Machine cfg) : Prop where
  inv : Inv ⟨m, .task left t⟩
  loaded : Loaded img m

section Calls
variable {left t : ℕ} {m : Machine cfg} {con : Console cfg Line} {ρ ρ' : Type}
  {Q : ρ' → Machine cfg × Console cfg Line → Prop}

theorem Executing.current (h : Executing img left t m) : m.sched.rtosCurrentTask = some t := by
  obtain ⟨hlt, hcur⟩ := h.inv.task left t rfl
  exact m.sched.rtosCurrentTask_eq_some.mpr ⟨hcur, hlt⟩

theorem Executing.isSensor_iff (h : Executing img left t m) :
    (m.sched.taskList t).taskFunction = img.sensorTask ↔ t = 0 :=
  h.loaded.first t (h.inv.task left t rfl).1

theorem Executing.wp_sync (h : Executing img left t m) (c : SyncCall) (read : Value → ρ)
    {f : ρ → Code cfg ρ'}
    (hf : ∀ v e o, Executing img left t (m.acted e o) → SyncOutcome m.sched m.objects c v e o →
      (f (read v)).wp answer Q (m.acted e o, con)) :
    (Script.query (.call (.sync c)) read >>= f).wp answer Q (m, con) := by
  obtain ⟨⟨v, sched, o⟩, hexec⟩ := Option.isSome_iff_exists.mp
    (c.exec_isSome_of_current h.current m.objects)
  obtain ⟨hout, rfl⟩ := c.exec_outcome hexec
  have hm : m.exec (.sync c) = some (v, m.acted (c.effect m.sched m.objects) o) := by
    simp only [Machine.exec, hexec, Option.map_some]
    rfl
  refine Script.wp_query (v := v) ?_ (hf v _ o ⟨h.inv.call hm, h.loaded.acted ?_ o⟩ hout)
  · simp only [answer, hm, Option.map_some]
  · intro p f he
    rw [he] at hout
    cases hout

theorem Executing.wp_sleep {Q : Unit → Machine cfg × Console cfg Line → Prop}
    (h : Executing img left t m) (n : ℤ)
    (hQ : Executing img left t (m.acted (.sleep n) m.objects) →
      Q () (m.acted (.sleep n) m.objects, con)) : (rtosTaskSleep n).wp answer Q (m, con) := by
  have hm : m.exec (.task (.sleep n)) = some (.void, m.acted (.sleep n) m.objects) := rfl
  refine ⟨.void, _, ?_, hQ ⟨h.inv.call hm, h.loaded.acted (by simp) _⟩⟩
  simp only [answer, hm, Option.map_some]

/-- The value of an `int` expression that does not overflow. -/
theorem wp_int {v : ℤ} (hv : IsInt v) {f : ℤ → Code cfg ρ'}
    (hf : (f v).wp answer Q (m, con)) : (intValue v >>= f).wp answer Q (m, con) :=
  Script.wp_query (v := .int v) (by simp [answer, hv]) hf

theorem wp_log {line : Line} {f : Unit → Code cfg ρ'}
    (hf : (f ()).wp answer Q (m, .line line :: con)) :
    (uartLog line >>= f).wp answer Q (m, con) :=
  Script.wp_query rfl hf

end Calls

section Functions
variable {left t : ℕ} {m : Machine cfg} {con : Console cfg Line} {l : List ℤ} {χ : Type}
  {Q : χ → Machine cfg × Console cfg Line → Prop}

/-- The sample is queued, counted and printed, or left for the next time. In both cases the
task sleeps. -/
theorem sensorTask_wp {Q : ℤ → Machine cfg × Console cfg Line → Prop} {sample : ℤ}
    (h : Executing img left t m) (ho : Holds cfg m.objects l) (hint : IsInt (sample + 5))
    (hsent : ∀ m', Executing img left t m' → l.length < cfg.rtosQueueSize →
      Holds cfg m'.objects (l ++ [sample]) →
      m'.sched = [.unblock .queueEmpty, .unblock .semaphore, .sleep 3].foldl Effect.apply m.sched →
      Q (sample + 5) (m', .line (.produced sample) :: con))
    (hfull : ∀ m', Executing img left t m' → l.length = cfg.rtosQueueSize →
      Holds cfg m'.objects l →
      m'.sched = [.park .queueFull (by simp), .sleep 3].foldl Effect.apply m.sched →
      Q sample (m', con)) :
    (sensorTask sample).wp answer Q (m, con) := by
  have hcount := ho.queue.count_eq
  have hle := ho.queue.count_le
  unfold sensorTask
  refine h.wp_sync _ _ fun v e o₁ h₁ hout => ?_
  cases hout with
  | queueSent hne =>
      simp only [truth, if_true]
      refine wp_log (wp_int hint (h₁.wp_sync _ _ fun v e o₂ h₂ hout => ?_))
      cases hout
      refine Script.wp_bind (h₂.wp_sleep 3 fun h₃ =>
        hsent _ h₃ (by omega) ⟨ho.queue.sent hne sample, ?_, ho.mutex⟩ rfl)
      have hsem : (m.objects.semaphores dataReady).count = l.length := ho.semaphore
      simp [Objects.setSemaphore, Objects.setQueue, hsem]
  | queueFull he =>
      simp only [truth, Bool.false_eq_true, if_false]
      exact Script.wp_bind (h₁.wp_sleep 3 fun h₂ => hfull _ h₂ (by omega) ho rfl)

/-- Printing under the mutex, which is free. -/
theorem print_wp {Q : Unit → Machine cfg × Console cfg Line → Prop} {line : Line} {n : ℤ}
    (h : Executing img left t m) (ho : Holds cfg m.objects l)
    (hprinted : ∀ m', Executing img left t m' → Holds cfg m'.objects l →
      m'.sched = [.unblock .mutex, .sleep n].foldl Effect.apply m.sched →
      Q () (m', .line line :: con)) :
    Script.wp answer (do
      if !(← rtosMutexLock uartMutex) then
        return
      uartLog line
      rtosMutexUnlock uartMutex
      rtosTaskSleep n) Q (m, con) := by
  have hfree := ho.mutex
  refine h.wp_sync _ _ fun v e o₁ h₁ hout => ?_
  cases hout with
  | mutexHeld hl | mutexRefused hl => simp [hfree] at hl
  | @mutexTaken _ t' _ ht =>
      simp only [truth, Bool.not_true, Bool.false_eq_true, if_false]
      refine wp_log (h₁.wp_sync _ _ fun v e o₂ h₂ hout => ?_)
      cases hout with
      | mutexIgnored hn =>
          rw [Sched.ownsMutex_eq h₁.current] at hn
          obtain rfl : t' = t := Option.some.inj (ht.symm.trans h.current)
          simp [Objects.setMutex, Effect.apply] at hn
      | mutexReleased =>
          exact h₂.wp_sleep n fun h₃ =>
            hprinted _ h₃ ⟨ho.queue, ho.semaphore, by simp [Objects.setMutex]⟩ rfl

/-- The oldest sample is taken from the queue and printed, or there is none. -/
theorem loggerTask_wp {Q : Unit → Machine cfg × Console cfg Line → Prop}
    (h : Executing img left t m) (ho : Holds cfg m.objects l)
    (hstored : ∀ m' sample rest, Executing img left t m' → l = sample :: rest →
      Holds cfg m'.objects rest →
      m'.sched = [.unblock .queueFull, .unblock .mutex, .sleep 2].foldl Effect.apply m.sched →
      Q () (m', .line (.stored sample) :: con))
    (hnone : ∀ m', Executing img left t m' → l = [] → Holds cfg m'.objects l →
      m'.sched = [.park .semaphore (by simp)].foldl Effect.apply m.sched → Q () (m', con)) :
    loggerTask.wp answer Q (m, con) := by
  unfold loggerTask
  refine h.wp_sync _ _ fun v e o₁ h₁ hout => ?_
  cases hout with
  | semRefused hle =>
      simp only [truth, Bool.not_false, if_true]
      have hnil : l = [] := by
        have := ho.semaphore
        exact List.length_eq_zero_iff.mp (by omega)
      exact hnone _ h₁ hnil ho rfl
  | semTaken hpos =>
      simp only [truth, Bool.not_true, Bool.false_eq_true, if_false]
      refine h₁.wp_sync _ _ fun v e o₂ h₂ hout => ?_
      obtain ⟨sample, rest, rfl⟩ : ∃ sample rest, l = sample :: rest := by
        have := ho.semaphore
        exact List.exists_cons_of_length_pos (by omega)
      have hqueue := ho.queue.count_eq
      cases hout with
      | queueEmpty he =>
          simp only [Machine.acted_objects, Objects.setSemaphore, List.length_cons] at he hqueue
          omega
      | queueReceived hne =>
          obtain ⟨hv, hrest⟩ := ho.queue.received
          have hsem := ho.semaphore
          simp only [List.length_cons] at hsem
          refine print_wp (l := rest) h₂ ⟨hrest, ?_, ho.mutex⟩ fun m' h' ho' hs' => ?_
          · simp [Objects.setSemaphore, Objects.setQueue, hsem]
          · subst hv
            exact hstored m' _ rest h' rfl ho' hs'

theorem displayTask_wp {Q : Unit → Machine cfg × Console cfg Line → Prop}
    (h : Executing img left t m) (ho : Holds cfg m.objects l)
    (hprinted : ∀ m', Executing img left t m' → Holds cfg m'.objects l →
      m'.sched = [.unblock .mutex, .sleep 4].foldl Effect.apply m.sched →
      Q () (m', .line .refreshed :: con)) :
    displayTask.wp answer Q (m, con) :=
  print_wp h ho hprinted

end Functions

section Kernel
variable {u w : System cfg} {o : Observation cfg} {sensor logger display ticks : ℤ}

/-- The kernel's own steps create no task and no timer, and call no callback. -/
theorem Loaded.advance (h : Loaded img u.machine) (hu : Inv u)
    (hs : step u .advance = some (o, w)) :
    Loaded img w.machine ∧ ∀ i f a, o ≠ .callbackCalled i f a := by
  have hslot (i) : u.machine.timer.timerUpdateSoftSlot i = (false, u.machine.timer) := by
    simp [TimerState.timerUpdateSoftSlot, h.timers i]
  have hw {m : Machine cfg} (hcount : m.sched.taskCount = u.machine.sched.taskCount)
      (hfun : ∀ i < m.sched.taskCount,
        (m.sched.taskList i).taskFunction = (u.machine.sched.taskList i).taskFunction)
      (htimers : m.timer.softTimers = u.machine.timer.softTimers) : Loaded img m := by
    refine ⟨fun i hi => ?_, fun i hi => ?_, htimers ▸ h.timers⟩
    all_goals rw [hfun i hi]
    · exact h.functions i (hcount ▸ hi)
    · exact h.first i (hcount ▸ hi)
  cases step_cases hs with
  | runDone | passDone => exact ⟨h, by simp⟩
  | tick hp =>
      exact ⟨hw (by simp) (fun i _ => (Sched.timerUpdateSleep_sameTask _ i).taskFunction) rfl,
        by simp⟩
  | slotSkipped hp =>
      exact ⟨hw rfl (fun _ _ => rfl) (by simp only [hslot]), by simp⟩
  | callbackCalled hp hf => simp [hslot] at hf
  | idle hp hd =>
      obtain ⟨-, rfl, -⟩ := Sched.Decides.idles (hd ▸ hu.decides hp)
      exact ⟨hw (by simp) (fun i _ =>
        u.machine.sched.resetSlice_field _ TCB.taskFunction (fun _ _ => rfl) i) rfl, by simp⟩
  | taskCalled hp hd =>
      have hdec := hd ▸ hu.decides hp
      exact ⟨hw (hdec.runs hu.wellFormed).taskCount (fun i _ => hdec.taskFunction i) rfl,
        by simp⟩

theorem Loaded.taskReturned {m : Machine cfg} (h : Loaded img m) (t : ℕ) :
    Loaded img { m with sched := m.sched.taskReturned t } := by
  refine ⟨fun i hi => ?_, fun i hi => ?_, h.timers⟩
  all_goals rw [(m.sched.taskReturned_sameTask t i).taskFunction]
  · exact h.functions i (by simpa using hi)
  · exact h.first i (by simpa using hi)

theorem Loaded.created {m : Machine cfg} (h : Loaded img m) {f : BitVec 64}
    (hf : f ∈ [img.sensorTask, img.loggerTask, img.displayTask])
    (hfirst : f = img.sensorTask ↔ m.sched.taskCount = 0) (p : ℤ) (o : Objects) :
    Loaded img (m.acted (.create p f) o) := by
  have hold : ∀ i < (Effect.apply m.sched (.create p f)).taskCount,
      i < m.sched.taskCount ∧ ((Effect.apply m.sched (.create p f)).taskList i).taskFunction =
        (m.sched.taskList i).taskFunction ∨
      i = m.sched.taskCount ∧
        ((Effect.apply m.sched (.create p f)).taskList i).taskFunction = f := by
    intro i hi
    simp only [Effect.apply, Sched.rtosCreateTask_sched] at hi ⊢
    split_ifs at hi ⊢
    · exact .inl ⟨hi, rfl⟩
    · simp only [Sched.setTaskState_taskCount, Sched.addTask] at hi
      rw [(Sched.setTaskState_sameTask _ _ _ _ i).taskFunction]
      by_cases he : i = m.sched.taskCount
      · exact .inr ⟨he, by simp [Sched.addTask, he]⟩
      · exact .inl ⟨by omega, by rw [m.sched.addTask_of_ne p f he]⟩
  refine ⟨fun i hi => ?_, fun i hi => ?_, h.timers⟩
  all_goals obtain ⟨hlt, hfun⟩ | ⟨rfl, hfun⟩ := hold i hi
  all_goals rw [Machine.acted_sched, hfun]
  · exact h.functions i hlt
  · exact hf
  · exact h.first i hlt
  · exact hfirst

variable (img sensor logger display ticks) in
theorem taskFunction_cases {a : BitVec 64}
    (ha : a ∈ [img.sensorTask, img.loggerTask, img.displayTask]) :
    ∃ p, (applicationWith cfg img sensor logger display ticks).taskFunction a = some p ∧
      (a = img.sensorTask ∧ p = sensorTask ∨
        a = img.loggerTask ∧ (p = fun sample => do loggerTask; return sample) ∨
        a = img.displayTask ∧ p = fun sample => do displayTask; return sample) := by
  have hnd := img.nodup
  simp only [List.nodup_cons, List.mem_cons, List.not_mem_nil, or_false, not_or] at ha hnd
  obtain ⟨⟨hsl, hsd⟩, hld, -⟩ := hnd
  rcases ha with rfl | rfl | rfl
  · simp [applicationWith]
  · simp [applicationWith, Ne.symm hsl]
  · simp [applicationWith, Ne.symm hsd, Ne.symm hld]

variable (img) in
/-- From a state with property `P` the kernel has just called the function of task `t`. -/
structure Entered (P : System cfg → ℤ → Console cfg Line → Prop) (b : Sched.Branch) (left t : ℕ)
    (m : Machine cfg) (sample : ℤ) (con : Console cfg Line) : Prop where
  before : ∃ u, P u sample con ∧ step u .advance = some (.taskCalled b t, ⟨m, .task left t⟩)
  executing : Executing img left t m

/-- When the function of task `t` returns, the property holds again. -/
def Restores (P : System cfg → ℤ → Console cfg Line → Prop) (left t : ℕ) (sample : ℤ)
    (r : Machine cfg × Console cfg Line) : Prop :=
  P ⟨{ r.1 with sched := r.1.sched.taskReturned t }, .cycleTop left⟩ sample r.2

/-- A property of the states between two task functions is kept if the kernel's own steps
keep it and each of the functions restores it. -/
theorem keeps_of {P : System cfg → ℤ → Console cfg Line → Prop}
    (hrest : ∀ u x con, P u x con → Inv u ∧ Loaded img u.machine)
    (hkernel : ∀ u w x con o, P u x con → step u .advance = some (o, w) →
      (∀ b t, o ≠ .taskCalled b t) → P w x (report o ++ con))
    (hsensor : ∀ b left t m x con, Entered img P b left t m x con →
      (m.sched.taskList t).taskFunction = img.sensorTask →
      (sensorTask x).wp answer (Restores P left t) (m, .ran b t :: con))
    (hlogger : ∀ b left t m x con, Entered img P b left t m x con →
      (m.sched.taskList t).taskFunction = img.loggerTask →
      loggerTask.wp answer (fun _ => Restores P left t x) (m, .ran b t :: con))
    (hdisplay : ∀ b left t m x con, Entered img P b left t m x con →
      (m.sched.taskList t).taskFunction = img.displayTask →
      displayTask.wp answer (fun _ => Restores P left t x) (m, .ran b t :: con)) :
    (applicationWith cfg img sensor logger display ticks).Keeps P := by
  intro u w x con o hP hs
  obtain ⟨hu, hload⟩ := hrest u x con hP
  obtain ⟨hload', hcb⟩ := hload.advance hu hs
  have hw := hu.step hs
  by_cases ho : ∃ b t, o = .taskCalled b t
  · obtain ⟨b, t, rfl⟩ := ho
    obtain ⟨left, hphase⟩ : ∃ left, w.phase = .task left t := by
      cases step_cases hs
      exact ⟨_, rfl⟩
    obtain ⟨m, phase⟩ := w
    obtain rfl : phase = .task left t := hphase
    have hentered : Entered img P b left t m x con := ⟨⟨u, hP, hs⟩, hw, hload'⟩
    obtain ⟨p, hp, hcode⟩ := @taskFunction_cases cfg img sensor logger display ticks _
      (hload'.functions t (hw.task left t rfl).1)
    refine ⟨p x, ?_, ?_⟩
    · simp only [Application.entered, hp, Option.map_some]
    · simp only [Application.Within, Phase.waits, if_true]
      rcases hcode with ⟨hf, rfl⟩ | ⟨hf, rfl⟩ | ⟨hf, rfl⟩
      · exact hsensor b left t m x con hentered hf
      · exact Script.wp_bind (hlogger b left t m x con hentered hf)
      · exact Script.wp_bind (hdisplay b left t m x con hentered hf)
  · push Not at ho
    have hwait : w.phase.waits = false := by
      cases step_cases hs with
      | taskCalled => exact absurd rfl (ho _ _)
      | callbackCalled => exact absurd rfl (hcb _ _ _)
      | _ => rfl
    refine ⟨.done x, ?_, ?_⟩
    · cases o <;> simp_all [Application.entered]
    · simp only [Application.Within, hwait, Bool.false_eq_true, if_false]
      exact hkernel u w x con o hP hs ho

end Kernel

section Setup
variable (img : Image) (sensor logger display : ℤ) (m : Machine cfg)

/-- The objects after their three initialisations. -/
def initialised (o : Objects) : Objects :=
  let o := (o.setSemaphore dataReady (semaphoreInit 0)).setMutex uartMutex mutexInit
  o.setQueue sensorQueue (queueInit (o.queues sensorQueue))

/-- The three tasks that `main` creates, the first one first. -/
def creations : List Effect :=
  [.create sensor img.sensorTask, .create logger img.loggerTask, .create display img.displayTask]

/-- The machine on which `main` starts the scheduler. -/
def prepared : Machine cfg :=
  { m.rtosInit with
    sched := (creations img sensor logger display).foldl Effect.apply m.rtosInit.sched
    objects := initialised m.objects }

/-- `main` gets to its call of `rtos_run`. -/
theorem exists_setup (ticks sample : ℤ) :
    let app := applicationWith cfg img sensor logger display ticks
    ∃ tr, Run app.next (app.start m sample) tr
        ⟨⟨prepared img sensor logger display m, .cycleTop ticks.toNat⟩, sample,
          [.line .rule, .line .title], [], .done sample⟩ ∧
      ∀ e ∈ tr, e.src.main ≠ [] := by
  intro app
  have hnext {tr : TransitionSystem.History (Execution cfg ℤ Line) Unit _} {u w o}
      (h : Run app.next (app.start m sample) tr u) (hs : app.next u () = some (o, w)) :
      Run app.next (app.start m sample) (⟨u, (), o, w⟩ :: tr) w := h.snoc hs
  refine ⟨_, hnext (hnext (hnext (hnext (hnext (hnext (hnext (hnext (hnext (hnext .nil
    rfl) rfl) rfl) rfl) rfl) rfl) rfl) rfl) rfl) rfl, ?_⟩
  simp [app, Application.start, applicationWith, mainWith]

theorem holds_prepared : Holds cfg (prepared img sensor logger display m).objects [] where
  queue := queueInit_represents _
  semaphore := rfl
  mutex := rfl

/-- There is room for the task that is created first. -/
theorem one_le_taskCount_created :
    1 ≤ (Effect.apply m.rtosInit.sched (.create sensor img.sensorTask)).taskCount := by
  have hroom := cfg.maxTasks_pos
  have hzero : m.rtosInit.sched.taskCount = 0 := rfl
  rw [Effect.apply, Sched.rtosCreateTask_sched, if_neg (by omega)]
  simp [Sched.addTask]

theorem one_le_taskCount_prepared :
    1 ≤ (prepared img sensor logger display m).sched.taskCount :=
  (one_le_taskCount_created img sensor m).trans
    ((Effect.taskCount_le _ (.create logger img.loggerTask)).trans
      (Effect.taskCount_le _ (.create display img.displayTask)))

/-- The task created first is READY, and the other creations do not concern it. -/
theorem due_prepared : ((prepared img sensor logger display m).sched.taskList 0).Due 0 := by
  have hroom := cfg.maxTasks_pos
  have hzero : m.rtosInit.sched.taskCount = 0 := rfl
  have hone := one_le_taskCount_created img sensor m
  have hnext {s : Sched cfg} (hs : 1 ≤ s.taskCount) (p : ℤ) (f : BitVec 64) :
      (Effect.apply s (.create p f)).taskList 0 = s.taskList 0 := by
    refine Effect.apply_taskList_of_not_target _ hs fun ht => ?_
    have := List.mem_singleton.mp ht
    omega
  rw [prepared, creations, List.foldl_cons, List.foldl_cons, List.foldl_cons, List.foldl_nil,
    hnext (hone.trans (Effect.taskCount_le _ _)), hnext hone, Effect.apply,
    Sched.rtosCreateTask_sched, if_neg (by omega), hzero,
    Sched.setTaskState_self _ (by simp [Sched.addTask])]
  exact .ready rfl rfl

theorem loaded_prepared : Loaded img (prepared img sensor logger display m) := by
  obtain ⟨⟨hsl, hsd⟩, -⟩ : (img.sensorTask ≠ img.loggerTask ∧ img.sensorTask ≠ img.displayTask) ∧
      _ := by simpa using img.nodup
  have h₀ : Loaded img m.rtosInit := ⟨by simp [Machine.rtosInit], by simp [Machine.rtosInit],
    fun _ => rfl⟩
  have h₁ := h₀.created (f := img.sensorTask) (by simp) (by simp [Machine.rtosInit]) sensor
    (initialised m.objects)
  have hone := one_le_taskCount_created img sensor m
  have h₂ := h₁.created (f := img.loggerTask) (by simp)
    (iff_of_false (Ne.symm hsl) (Nat.ne_of_gt hone)) logger (initialised m.objects)
  exact h₂.created (by simp) (iff_of_false (Ne.symm hsd)
    (Nat.ne_of_gt (hone.trans (Effect.taskCount_le _ _)))) display (initialised m.objects)

theorem inv_prepared (n : ℕ) : Inv ⟨prepared img sensor logger display m, .cycleTop n⟩ := by
  have h₁ := (Inv.init m).call (c := .task (.create sensor img.sensorTask)) rfl
  have h₂ := h₁.call (c := .task (.create logger img.loggerTask)) rfl
  have h₃ := h₂.call (c := .task (.create display img.displayTask)) rfl
  exact .of_not_running h₃.wellFormed (h₃.not_running (by simp)) (by simp)

end Setup

end MainProgram

end MiniRtos
