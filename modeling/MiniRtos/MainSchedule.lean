import MiniRtos.SampleDelivery

/-!
# The schedule of `main.c`

With the priorities that `main` gives the tasks the schedule repeats itself every six
ticks: the sensor task produces a sample in every third tick, the logger task stores it in
the next one, the display task has every sixth tick, and in the tick before the schedule
starts again the processor is idle. So `main` prints `transcript n` when it runs for `n`
ticks, as long as `sample` does not overflow.
-/
namespace MiniRtos.MainProgram
open TransitionSystem
variable {cfg : Config} {img : Image}

/-- The function that `main` gives to the task with index `i`. -/
def functionOf (img : Image) : ℕ → BitVec 64
  | 0 => img.sensorTask
  | 1 => img.loggerTask
  | _ => img.displayTask

/-- The three tasks of `main` and when they are due. -/
structure Duties (img : Image) (s : Sched cfg) (l : List ℕ) : Prop where
  taskCount : s.taskCount = 3
  function : ∀ i < 3, (s.taskList i).taskFunction = functionOf img i
  priority : ∀ i < 3, s.prio i = 3 - i
  due : ∀ i < 3, (s.taskList i).Due (l.getD i 0)

theorem Duties.timerUpdateSleep {s : Sched cfg} {l : List ℕ} (h : Duties img s l) :
    Duties img s.timerUpdateSleep (l.map (· - 1)) := by
  have hsame := s.timerUpdateSleep_sameTask
  refine ⟨by simpa using h.taskCount, fun i hi => ?_, fun i hi => ?_, fun i hi => ?_⟩
  · rw [(hsame i).taskFunction, h.function i hi]
  · rw [Sched.prio, (hsame i).priority]
    exact h.priority i hi
  · have hdue := Sched.due_timerUpdateSleep (h.due i hi) (h.taskCount ▸ hi)
    have hget : (l.map (· - 1)).getD i 0 = l.getD i 0 - 1 := by
      simp only [List.getD_eq_getElem?_getD, List.getElem?_map]
      cases l[i]? <;> rfl
    rwa [hget]

/-- The function of task `t` is executing, and the others are due as before. -/
structure Turn (img : Image) (s : Sched cfg) (l : List ℕ) (t : ℕ) : Prop where
  taskCount : s.taskCount = 3
  function : ∀ i < 3, (s.taskList i).taskFunction = functionOf img i
  priority : ∀ i < 3, s.prio i = 3 - i
  lt : t < 3
  current : s.currentTaskIndex = t
  running : s.status t = (.running, .none)
  due : ∀ i < 3, i ≠ t → (s.taskList i).Due (l.getD i 0)

section Decision
variable {s s' : Sched cfg} {l : List ℕ} {active active' : CPUContext}

theorem Duties.mem_queue (h : Duties img s l) (hw : s.WellFormed) {i : ℕ} :
    i ∈ s.readyQueue ↔ i < 3 ∧ l.getD i 0 = 0 := by
  rw [hw.mem_queue, h.taskCount]
  exact and_congr_right fun hi => (h.due i hi).eq_zero_iff.symm

theorem Duties.idles (h : Duties img s l) (hw : s.WellFormed)
    (d : s.Decides active (none, s', active')) : ∀ i < 3, l.getD i 0 ≠ 0 := by
  intro i hi hz
  have hmem := (h.mem_queue hw).mpr ⟨hi, hz⟩
  simp [d.idles.1] at hmem

/-- The first task in the order of their creation that is due is called. -/
theorem Duties.called (h : Duties img s l) (hw : s.WellFormed) {b : Sched.Branch} {t : ℕ}
    (d : s.Decides active (some (b, t), s', active')) :
    l.getD t 0 = 0 ∧ (∀ j < t, l.getD j 0 ≠ 0) ∧ Turn img s' l t := by
  have r := d.runs hw
  obtain ⟨ht, hz⟩ := (h.mem_queue hw).mp r.chosen
  refine ⟨hz, fun j hj hzj => ?_, ?_⟩
  · have hle := r.maximal j ((h.mem_queue hw).mpr ⟨by omega, hzj⟩)
    rw [h.priority j (by omega), h.priority t ht] at hle
    omega
  constructor
  · rw [r.taskCount, h.taskCount]
  · exact fun i hi => (d.taskFunction i).trans (h.function i hi)
  · exact fun i hi => (r.priority i).trans (h.priority i hi)
  · exact ht
  · exact r.current
  · rw [r.status, if_pos rfl]
  · exact fun i hi hit => d.due_of_ne hw (h.due i hi) hit

end Decision

section Functions
variable {s : Sched cfg} {l : List ℕ} {t : ℕ}

/-- No task waits for an object. -/
theorem Turn.unblock (h : Turn img s l t) {r : BlockReason} (hr : r ≠ .none) (hr' : r ≠ .sleep) :
    Effect.apply s (.unblock r) = s := by
  have hempty : s.blockedOn r = [] := by
    refine List.eq_nil_iff_forall_not_mem.mpr fun i hi => ?_
    obtain ⟨hlt, hst⟩ := Sched.mem_blockedOn.mp hi
    by_cases hit : i = t
    · rw [hit, h.running] at hst
      cases hst
    · obtain ⟨-, hreason⟩ := Prod.mk.inj hst
      rcases (h.due i (h.taskCount ▸ hlt) hit).blockReason with hn | hn
      · exact hr (hreason.symm.trans hn)
      · exact hr' (hreason.symm.trans hn)
  simp [Effect.apply, Sched.schedulerUnblockOne, Sched.unblockScan_eq, hempty]

/-- The function returns after its call of `rtos_task_sleep`. -/
theorem Turn.sleeps (h : Turn img s l t) (hl : l.length = 3) (n : ℕ) :
    Duties img ((Effect.apply s (.sleep (n + 1))).taskReturned t) (l.set t (n + 1)) ∧
      ((Effect.apply s (.sleep (n + 1))).taskReturned t).currentTaskIndex = t := by
  have hlt : t < s.taskCount := h.taskCount ▸ h.lt
  have hcur : s.rtosCurrentTask = some t := s.rtosCurrentTask_eq_some.mpr ⟨h.current, hlt⟩
  have hcount : (Effect.apply s (.sleep (n + 1))).taskCount = s.taskCount :=
    Effect.apply_taskCount _ (by simp)
  have hreturned := (Effect.apply s (.sleep (n + 1))).taskReturned_sameTask t
  have hslept (i : ℕ) (hi : i < 3) := Effect.apply_sameTask s (.sleep (n + 1)) (h.taskCount ▸ hi)
  refine ⟨⟨?_, fun i hi => ?_, fun i hi => ?_, fun i hi => ?_⟩, ?_⟩
  · rw [Sched.taskReturned_taskCount, hcount, h.taskCount]
  · rw [(hreturned i).taskFunction, (hslept i hi).taskFunction, h.function i hi]
  · rw [Sched.prio, (hreturned i).priority, (hslept i hi).priority]
    exact h.priority i hi
  · by_cases hit : i = t
    · subst hit
      rw [List.getD_eq_getElem?_getD, List.getElem?_set_self (by omega)]
      exact Sched.due_slept [] (by simp) hcur n
    · rw [List.getD_eq_getElem?_getD, List.getElem?_set_ne (Ne.symm hit),
        ← List.getD_eq_getElem?_getD]
      exact Sched.due_returned [.sleep (n + 1)] (by simp [Effect.SparesDue])
        (h.due i hi hit) (h.taskCount ▸ hi) h.current hit
  · rw [Sched.taskReturned_currentTaskIndex, Effect.apply_currentTaskIndex, h.current]

end Functions

/-- When the tasks are due in cycle `n`, counted from zero, after its tick. -/
def dueAt (n : ℕ) : List ℕ :=
  match n % 6 with
  | 0 => [0, 0, 0]
  | 1 => [2, 0, 0]
  | 2 => [1, 1, 0]
  | 3 => [0, 0, 3]
  | 4 => [2, 0, 2]
  | _ => [1, 1, 1]

/-- The current task before the decision of cycle `n`. -/
def currentAt (n : ℕ) : ℤ :=
  if n = 0 then -1
  else
    match n % 6 with
    | 1 => 0
    | 2 => 1
    | 3 => 2
    | 4 => 0
    | _ => 1

/-- The sample that is queued before cycle `n`. -/
def queuedAt (n : ℕ) : List ℤ :=
  if n % 3 = 1 then [firstSample + 5 * ((n / 3 : ℕ) : ℤ)] else []

/-- Only in the first cycle of a period is the current task READY. -/
def branchAt (n : ℕ) : Sched.Branch :=
  if n = 0 then .firstTick else if n % 6 = 0 then .preempted else .forced

/-- What cycle `n` prints, the newest line first. -/
def cycleLines (n : ℕ) : Console cfg Line :=
  let sample := firstSample + 5 * ((n / 3 : ℕ) : ℤ)
  match n % 6 with
  | 0 | 3 => [.line (.produced sample), .ran (branchAt n) 0]
  | 1 | 4 => [.line (.stored sample), .ran (branchAt n) 1]
  | 2 => [.line .refreshed, .ran (branchAt n) 2]
  | _ => [.idle]

/-- What `main` has printed before cycle `n`, the newest line first. -/
def transcript : ℕ → Console cfg Line
  | 0 => [.line .rule, .line .title]
  | n + 1 => cycleLines n ++ transcript n

example : (transcript 6 : Console .default Line) =
    [.idle, .line (.stored 105), .ran .forced 1, .line (.produced 105), .ran .forced 0,
      .line .refreshed, .ran .forced 2, .line (.stored 100), .ran .forced 1,
      .line (.produced 100), .ran .firstTick 0, .line .rule, .line .title] := rfl

theorem mod_six (n : ℕ) :
    n % 6 = 0 ∨ n % 6 = 1 ∨ n % 6 = 2 ∨ n % 6 = 3 ∨ n % 6 = 4 ∨ n % 6 = 5 := by
  omega

theorem currentAt_range {n : ℕ} (hn : n ≠ 0) : 0 ≤ currentAt n ∧ currentAt n < 3 := by
  rw [currentAt, if_neg hn]
  split <;> decide

/-- The current task is READY when the period starts again, and at no other time. -/
theorem current_due {n c : ℕ} (hn : n ≠ 0) (hc : (c : ℤ) = currentAt n) :
    (dueAt n).getD c 0 = 0 ↔ n % 6 = 0 := by
  have hmod := mod_six n
  simp only [currentAt, if_neg hn] at hc
  rcases hmod with h | h | h | h | h | h <;> simp only [h] at hc <;>
    simp [dueAt, h, show c = _ from Int.ofNat.inj hc]

theorem Duties.branch {s s' : Sched cfg} {n : ℕ} {active active' : CPUContext}
    {b : Sched.Branch} {t : ℕ} (h : Duties img s (dueAt n)) (hw : s.WellFormed)
    (hc : s.currentTaskIndex = currentAt n) (d : s.Decides active (some (b, t), s', active')) :
    b = branchAt n := by
  obtain ⟨-, hfirst, hturn⟩ := h.called hw d
  have hcur : ∀ c, s.rtosCurrentTask = some c → n ≠ 0 ∧ c < 3 ∧ (c : ℤ) = currentAt n ∧
      ((s.taskList c).state = .ready ↔ n % 6 = 0) := by
    intro c hsome
    obtain ⟨hidx, hlt⟩ := s.rtosCurrentTask_eq_some.mp hsome
    rw [h.taskCount] at hlt
    have hn : n ≠ 0 := by
      rintro rfl
      simp only [currentAt, if_true] at hc
      omega
    have hidx' : (c : ℤ) = currentAt n := by omega
    exact ⟨hn, hlt, hidx', (h.due c hlt).eq_zero_iff.symm.trans (current_due hn hidx')⟩
  have hperiod : ∀ c, (c : ℤ) = currentAt n → n ≠ 0 → n % 6 = 0 → c = 1 := by
    intro c hidx hn hmod
    simp only [currentAt, if_neg hn, hmod] at hidx
    omega
  have hzero : n % 6 = 0 → t = 0 := by
    intro hmod
    by_contra ht
    exact hfirst 0 (by omega) (by simp [dueAt, hmod])
  generalize hr : (some (b, t), s', active') = r at d
  cases d with
  | idle => simp at hr
  | @switched best b' hb hguard =>
      simp only [Prod.mk.injEq, Option.some.injEq] at hr
      obtain ⟨⟨rfl, rfl⟩, -⟩ := hr
      cases hguard with
      | firstTick hnone =>
          by_contra hne
          have hrange := currentAt_range (n := n) fun hn => hne (by simp [branchAt, hn])
          simp only [Sched.rtosCurrentTask, hc, h.taskCount] at hnone
          rw [if_neg (by omega)] at hnone
          cases hnone
      | forced hsome hst =>
          obtain ⟨hn, -, -, hiff⟩ := hcur _ hsome
          rw [branchAt, if_neg hn, if_neg fun hmod => hst (hiff.mpr hmod)]
      | preempted hsome hst =>
          obtain ⟨hn, -, -, hiff⟩ := hcur _ hsome
          rw [branchAt, if_neg hn, if_pos (hiff.mp hst)]
      | @sliceExpired c hsome hst hprio _ hne =>
          obtain ⟨hn, hlt, -, -⟩ := hcur _ hsome
          rw [h.priority t hturn.lt, h.priority c hlt] at hprio
          omega
  | @continued c best hsome hst =>
      simp only [Prod.mk.injEq, Option.some.injEq] at hr
      obtain ⟨⟨rfl, rfl⟩, -⟩ := hr
      obtain ⟨hn, -, hidx, hiff⟩ := hcur _ hsome
      have hmod := hiff.mp hst
      have := hperiod _ hidx hn hmod
      have := hzero hmod
      omega

/-- How far a run of `total` cycles has come, `n` of them being complete. -/
def Progress (img : Image) (total n : ℕ) (s : Sched cfg) : Phase cfg → Prop
  | .outside => n = total
  | .cycleTop left => n + left = total ∧ ∃ l, Duties img s l ∧ l.map (· - 1) = dueAt n
  | .softTimer left _ | .decide left => n + left + 1 = total ∧ Duties img s (dueAt n)
  | _ => False

theorem Progress.le {total n : ℕ} {s : Sched cfg} {p : Phase cfg}
    (h : Progress img total n s p) : n ≤ total := by
  cases p with
  | outside => exact Nat.le_of_eq h
  | cycleTop left | softTimer left i | decide left =>
      have := h.1
      omega
  | callback left i | task left t => exact h.elim

/-- What holds after `n` cycles. -/
structure After (img : Image) (total n : ℕ) (u : System cfg) (sample : ℤ)
    (con : Console cfg Line) : Prop where
  inv : Inv u
  loaded : Loaded img u.machine
  holds : Holds cfg u.machine.objects (queuedAt n)
  sample : sample = firstSample + 5 * (((n + 2) / 3 : ℕ) : ℤ)
  console : con = transcript n
  current : u.machine.sched.currentTaskIndex = currentAt n
  progress : Progress img total n u.machine.sched u.phase

/-- What holds from one task function to the next. -/
def OnSchedule (img : Image) (total : ℕ) (u : System cfg) (sample : ℤ) (con : Console cfg Line) :
    Prop :=
  ∃ n, After img total n u sample con

theorem Duties.resetSlice {s : Sched cfg} {l : List ℕ} (h : Duties img s l) (c : Option ℕ) :
    Duties img (s.resetSlice c) l := by
  refine ⟨by simpa using h.taskCount, fun i hi => ?_, fun i hi => ?_,
    fun i hi => Sched.due_resetSlice (h.due i hi) c⟩
  · rw [s.resetSlice_field c TCB.taskFunction fun _ _ => rfl]
    exact h.function i hi
  · rw [Sched.prio, s.resetSlice_field c TCB.priority fun _ _ => rfl]
    exact h.priority i hi

/-- A cycle in which no task is due is the last one of its period. -/
theorem idle_cycle {n : ℕ} (h : ∀ i < 3, (dueAt n).getD i 0 ≠ 0) :
    n % 6 = 5 ∧ (dueAt n).map (· - 1) = dueAt (n + 1) := by
  have hmod : n % 6 = 5 := by
    have h₀ := h 0 (by omega)
    have h₁ := h 1 (by omega)
    have h₂ := h 2 (by omega)
    rcases mod_six n with hn | hn | hn | hn | hn | hn <;> simp_all [dueAt]
  have hnext : (n + 1) % 6 = 0 := by omega
  exact ⟨hmod, by simp [dueAt, hmod, hnext]⟩

theorem After.kernel {total n : ℕ} {u w : System cfg} {sample : ℤ} {con : Console cfg Line}
    {o : Observation cfg} (h : After img total n u sample con)
    (hs : step u .advance = some (o, w)) (ho : ∀ b t, o ≠ .taskCalled b t) :
    OnSchedule img total w sample (report o ++ con) := by
  have hw := h.inv.step hs
  obtain ⟨hload, hcb⟩ := h.loaded.advance h.inv hs
  have hobj := (step_cases hs).objects (by simp)
  have hcur := (step_cases hs).currentTaskIndex h.inv (by simp) ho
  obtain ⟨hinv, -, hholds, hsample, hcon, hc, hprogress⟩ := h
  have hc' := hcur.trans hc
  have hholds' : Holds cfg w.machine.objects (queuedAt n) := hobj ▸ hholds
  cases step_cases hs with
  | runDone hp =>
      rw [hp] at hprogress
      exact ⟨n, hw, hload, hholds', hsample, hcon, hc', by simpa [Progress] using hprogress.1⟩
  | tick hp =>
      rw [hp] at hprogress
      obtain ⟨htotal, l, hl, hdue⟩ := hprogress
      exact ⟨n, hw, hload, hholds', hsample, hcon, hc', by omega, hdue ▸ hl.timerUpdateSleep⟩
  | slotSkipped hp | passDone hp =>
      rw [hp] at hprogress
      exact ⟨n, hw, hload, hholds', hsample, hcon, hc', hprogress⟩
  | callbackCalled => exact absurd rfl (hcb _ _ _)
  | taskCalled => exact absurd rfl (ho _ _)
  | @idle left sched active hp hd =>
      rw [hp] at hprogress
      obtain ⟨htotal, hduties⟩ := hprogress
      have hdec := hd ▸ hinv.decides hp
      obtain ⟨hmod, hnext⟩ := idle_cycle (hduties.idles hinv.wellFormed hdec)
      obtain ⟨-, rfl, -⟩ := hdec.idles
      have hmod' : (n + 1) % 6 = 0 := by omega
      refine ⟨n + 1, hw, hload, ?_, ?_, ?_, ?_, by omega, _, hduties.resetSlice _, hnext⟩
      · simpa [queuedAt, show ¬ n % 3 = 1 by omega, show ¬ (n + 1) % 3 = 1 by omega] using hholds'
      · rw [hsample, show (n + 1 + 2) / 3 = (n + 2) / 3 by omega]
      · simp [transcript, cycleLines, hmod, hcon, report]
      · rw [hc', currentAt, currentAt, if_neg (by omega), if_neg (by omega)]
        simp only [hmod, hmod']

section Cycle
variable {total left t n : ℕ} {b : Sched.Branch} {m m' : Machine cfg} {sample : ℤ}
  {con : Console cfg Line}

/-- What a task function finds in cycle `n`. -/
structure Cycle (img : Image) (total left n t : ℕ) (b : Sched.Branch) (m : Machine cfg)
    (sample : ℤ) (con : Console cfg Line) : Prop where
  total : n + left + 1 = total
  branch : b = branchAt n
  due : (dueAt n).getD t 0 = 0
  first : ∀ j < t, (dueAt n).getD j 0 ≠ 0
  turn : Turn img m.sched (dueAt n) t
  holds : Holds cfg m.objects (queuedAt n)
  sample : sample = firstSample + 5 * (((n + 2) / 3 : ℕ) : ℤ)
  console : con = transcript n

theorem Entered.cycle (h : Entered img (OnSchedule img total) b left t m sample con) :
    ∃ n, Cycle img total left n t b m sample con := by
  obtain ⟨⟨u, ⟨n, hu⟩, hs⟩, hexec⟩ := h
  have hobj : m.objects = u.machine.objects := (step_cases hs).objects (by simp)
  obtain ⟨hinv, -, hholds, hsample, hcon, hc, hprogress⟩ := hu
  cases step_cases hs with
  | taskCalled hp hd =>
      rw [hp] at hprogress
      obtain ⟨htotal, hduties⟩ := hprogress
      have hdec := hd ▸ hinv.decides hp
      obtain ⟨hz, hfirst, hturn⟩ := hduties.called hinv.wellFormed hdec
      exact ⟨n, htotal, hduties.branch hinv.wellFormed hc hdec, hz, hfirst, hturn, hobj ▸ hholds,
        hsample, hcon⟩

/-- The function has called `rtos_task_sleep` and returns. -/
theorem Cycle.restores {k : ℕ} {sample' : ℤ} {con' : Console cfg Line}
    (h : Cycle img total left n t b m sample con) (h' : Executing img left t m')
    (hs : m'.sched = Effect.apply m.sched (.sleep (k + 1)))
    (hholds : Holds cfg m'.objects (queuedAt (n + 1)))
    (hsample : sample' = firstSample + 5 * (((n + 1 + 2) / 3 : ℕ) : ℤ))
    (hcon : con' = transcript (n + 1)) (hcur : (t : ℤ) = currentAt (n + 1))
    (hdue : ((dueAt n).set t (k + 1)).map (· - 1) = dueAt (n + 1)) :
    Restores (OnSchedule img total) left t sample' (m', con') := by
  have hlen : (dueAt n).length = 3 := by
    rw [dueAt]
    split <;> rfl
  obtain ⟨hduties, hidx⟩ := h.turn.sleeps hlen k
  rw [← hs] at hduties hidx
  have htotal := h.total
  exact ⟨n + 1, h'.inv.taskReturned rfl, h'.loaded.taskReturned t, hholds, hsample, hcon,
    hidx.trans hcur, by omega, _, hduties, hdue⟩

end Cycle

theorem lt_three {i : ℕ} (h : i < 3) : i = 0 ∨ i = 1 ∨ i = 2 := by
  omega

theorem Image.functionOf_inj (img : Image) {i j : ℕ} (hi : i < 3) (hj : j < 3)
    (h : functionOf img i = functionOf img j) : i = j := by
  have hnd := img.nodup
  simp only [List.nodup_cons, List.mem_cons, List.not_mem_nil, or_false, not_or] at hnd
  obtain ⟨⟨hsl, hsd⟩, hld, -⟩ := hnd
  rcases lt_three hi with rfl | rfl | rfl <;> rcases lt_three hj with rfl | rfl | rfl <;>
    simp_all [functionOf, eq_comm]

section Functions
variable {total left n : ℕ} {b : Sched.Branch} {m : Machine cfg} {sample : ℤ}
  {con : Console cfg Line}

/-- The sensor task has cycles 0 and 3 of a period. -/
theorem Cycle.sensor (h : Cycle img total left n 0 b m sample con)
    (hexec : Executing img left 0 m) (htotal : total < overflowTick) :
    (sensorTask sample).wp answer (Restores (OnSchedule img total) left 0)
      (m, .ran b 0 :: con) := by
  have hmod : n % 6 = 0 ∧ (n + 1) % 6 = 1 ∨ n % 6 = 3 ∧ (n + 1) % 6 = 4 := by
    have hdue := h.due
    rcases mod_six n with hn | hn | hn | hn | hn | hn <;> simp [dueAt, hn] at hdue <;> omega
  have hqueued : queuedAt n = [] := if_neg (by omega)
  have hqueued' : queuedAt (n + 1) = [firstSample + 5 * ((n / 3 : ℕ) : ℤ)] := by
    rw [queuedAt, if_pos (by omega), show (n + 1) / 3 = n / 3 by omega]
  have hsample := h.sample
  rw [show (n + 2) / 3 = n / 3 by omega] at hsample
  have hint : IsInt (sample + 5) := by
    have := h.total
    unfold overflowTick at htotal
    unfold firstSample at hsample
    unfold IsInt
    omega
  refine sensorTask_wp (l := []) hexec (hqueued ▸ h.holds) hint ?_ ?_
  · intro m' h' _ ho' hs'
    refine h.restores (k := 2) h' ?_ ?_ ?_ ?_ ?_ ?_
    · rw [hs', List.foldl_cons, List.foldl_cons, h.turn.unblock (by simp) (by simp),
        h.turn.unblock (by simp) (by simp)]
      rfl
    · rw [hqueued', ← hsample]
      exact ho'
    · rw [hsample, show (n + 1 + 2) / 3 = n / 3 + 1 by omega]
      push_cast
      omega
    · rw [h.console, h.branch, hsample]
      rcases hmod with ⟨h₀, -⟩ | ⟨h₀, -⟩ <;> simp [transcript, cycleLines, h₀]
    · rw [currentAt, if_neg (by omega)]
      rcases hmod with ⟨-, h₁⟩ | ⟨-, h₁⟩ <;> simp [h₁]
    · rcases hmod with ⟨h₀, h₁⟩ | ⟨h₀, h₁⟩ <;> simp [dueAt, h₀, h₁]
  · intro m' h' hfull _
    have := cfg.queueSize_pos
    simp only [List.length_nil] at hfull
    omega

/-- The logger task has cycles 1 and 4. -/
theorem Cycle.logger (h : Cycle img total left n 1 b m sample con)
    (hexec : Executing img left 1 m) :
    loggerTask.wp answer (fun _ => Restores (OnSchedule img total) left 1 sample)
      (m, .ran b 1 :: con) := by
  have hmod : n % 6 = 1 ∧ (n + 1) % 6 = 2 ∨ n % 6 = 4 ∧ (n + 1) % 6 = 5 := by
    have hdue := h.due
    have hfirst := h.first 0 (by omega)
    rcases mod_six n with hn | hn | hn | hn | hn | hn <;>
      simp [dueAt, hn] at hdue hfirst <;> omega
  have hqueued : queuedAt n = [firstSample + 5 * ((n / 3 : ℕ) : ℤ)] := if_pos (by omega)
  have hqueued' : queuedAt (n + 1) = [] := if_neg (by omega)
  refine loggerTask_wp (l := [firstSample + 5 * ((n / 3 : ℕ) : ℤ)]) hexec (hqueued ▸ h.holds) ?_ ?_
  · intro m' stored rest h' hl ho' hs'
    obtain ⟨rfl, rfl⟩ := List.cons.inj hl
    refine h.restores (k := 1) h' ?_ ?_ ?_ ?_ ?_ ?_
    · rw [hs', List.foldl_cons, List.foldl_cons, h.turn.unblock (by simp) (by simp),
        h.turn.unblock (by simp) (by simp)]
      rfl
    · rw [hqueued']
      exact ho'
    · rw [h.sample, show (n + 1 + 2) / 3 = (n + 2) / 3 by omega]
    · rw [h.console, h.branch]
      rcases hmod with ⟨h₀, -⟩ | ⟨h₀, -⟩ <;> simp [transcript, cycleLines, h₀]
    · rw [currentAt, if_neg (by omega)]
      rcases hmod with ⟨-, h₁⟩ | ⟨-, h₁⟩ <;> simp [h₁]
    · rcases hmod with ⟨h₀, h₁⟩ | ⟨h₀, h₁⟩ <;> simp [dueAt, h₀, h₁]
  · intro m' h' hnil
    cases hnil

/-- The display task has cycle 2. -/
theorem Cycle.display (h : Cycle img total left n 2 b m sample con)
    (hexec : Executing img left 2 m) :
    displayTask.wp answer (fun _ => Restores (OnSchedule img total) left 2 sample)
      (m, .ran b 2 :: con) := by
  have hmod : n % 6 = 2 := by
    have hdue := h.due
    have hsensor := h.first 0 (by omega)
    have hlogger := h.first 1 (by omega)
    rcases mod_six n with hn | hn | hn | hn | hn | hn <;>
      simp [dueAt, hn] at hdue hsensor hlogger
    exact hn
  have hmod' : (n + 1) % 6 = 3 := by omega
  have hqueued : queuedAt n = [] := if_neg (by omega)
  have hqueued' : queuedAt (n + 1) = [] := if_neg (by omega)
  refine displayTask_wp (l := []) hexec (hqueued ▸ h.holds) ?_
  intro m' h' ho' hs'
  refine h.restores (k := 3) h' ?_ ?_ ?_ ?_ ?_ ?_
  · rw [hs', List.foldl_cons, h.turn.unblock (by simp) (by simp)]
    rfl
  · rw [hqueued']
    exact ho'
  · rw [h.sample, show (n + 1 + 2) / 3 = (n + 2) / 3 by omega]
  · rw [h.console, h.branch]
    simp [transcript, cycleLines, hmod]
  · rw [currentAt, if_neg (by omega)]
    simp [hmod']
  · simp [dueAt, hmod, hmod']

end Functions

theorem onSchedule_keeps {total : ℕ} (htotal : total < overflowTick) (ticks : ℤ) :
    (applicationWith cfg img 3 2 1 ticks).Keeps (OnSchedule img total) := by
  refine keeps_of (fun u x con ⟨n, h⟩ => ⟨h.inv, h.loaded⟩)
    (fun u w x con o ⟨n, h⟩ hs ho => h.kernel hs ho) ?_ ?_ ?_
  · intro b left t m x con hent hf
    obtain ⟨n, h⟩ := hent.cycle
    obtain rfl : t = 0 := img.functionOf_inj h.turn.lt (by omega)
      ((h.turn.function t h.turn.lt).symm.trans hf)
    exact h.sensor hent.executing htotal
  · intro b left t m x con hent hf
    obtain ⟨n, h⟩ := hent.cycle
    obtain rfl : t = 1 := img.functionOf_inj h.turn.lt (by omega)
      ((h.turn.function t h.turn.lt).symm.trans hf)
    exact h.logger hent.executing
  · intro b left t m x con hent hf
    obtain ⟨n, h⟩ := hent.cycle
    obtain rfl : t = 2 := img.functionOf_inj h.turn.lt (by omega)
      ((h.turn.function t h.turn.lt).symm.trans hf)
    exact h.display hent.executing

section Start
variable {s : Sched cfg} {l : List (ℤ × BitVec 64)}

/-- The tasks that were created, before any of them has run. -/
structure Created (s : Sched cfg) (l : List (ℤ × BitVec 64)) : Prop where
  taskCount : s.taskCount = l.length
  current : s.currentTaskIndex = -1
  task : ∀ i (h : i < l.length), s.prio i = l[i].1 ∧ (s.taskList i).taskFunction = l[i].2 ∧
    s.status i = (.ready, .none)

theorem Created.create (h : Created s l) (hroom : l.length < cfg.rtosMaxTasks) (p : ℤ)
    (f : BitVec 64) : Created (Effect.apply s (.create p f)) (l ++ [(p, f)]) := by
  have hcount := h.taskCount
  rw [Effect.apply, Sched.rtosCreateTask_sched, if_neg (by omega)]
  refine ⟨by simp [Sched.addTask, hcount], ?_, fun i hi => ?_⟩
  · rw [Sched.setTaskState_currentTaskIndex]
    exact h.current
  · by_cases he : i = l.length
    · have hself : ((s.addTask p f).schedulerSetTaskState s.taskCount .ready .none).taskList i =
          ((s.addTask p f).taskList i).withState .ready .none := by
        rw [he, ← hcount, Sched.setTaskState_self _ (by simp [Sched.addTask])]
      have hnew : (s.addTask p f).prio i = p ∧ ((s.addTask p f).taskList i).taskFunction = f := by
        simp [Sched.addTask, Sched.prio, he, hcount, Sched.modifyTask]
      simp only [Sched.prio, Sched.status, hself]
      subst he
      simpa [TCB.withState] using hnew
    · have hlt : i < l.length := by
        simp only [List.length_append, List.length_singleton] at hi
        omega
      rw [List.getElem_append_left hlt]
      simp only [Sched.prio, Sched.status]
      rw [Sched.setTaskState_of_ne _ (by omega), s.addTask_of_ne p f (by omega)]
      exact h.task i hlt

variable (img) in
theorem after_prepared (hroom : 3 ≤ cfg.rtosMaxTasks) (m : Machine cfg) (total : ℕ) :
    After img total 0 ⟨prepared img 3 2 1 m, .cycleTop total⟩ firstSample
      [.line .rule, .line .title] := by
  have h₀ : Created m.rtosInit.sched [] := ⟨rfl, rfl, by simp⟩
  have h₁ := h₀.create (by simp; omega) 3 img.sensorTask
  have h₂ := h₁.create (by simp; omega) 2 img.loggerTask
  have h₃ : Created (prepared img 3 2 1 m).sched
      [(3, img.sensorTask), (2, img.loggerTask), (1, img.displayTask)] :=
    h₂.create (by simp; omega) 1 img.displayTask
  have htask : ∀ i < 3, (prepared img 3 2 1 m).sched.prio i = 3 - i ∧
      ((prepared img 3 2 1 m).sched.taskList i).taskFunction = functionOf img i ∧
      (prepared img 3 2 1 m).sched.status i = (.ready, .none) := by
    intro i hi
    have htask := h₃.task i hi
    rcases lt_three hi with rfl | rfl | rfl <;> exact htask
  refine ⟨inv_prepared img 3 2 1 m total, loaded_prepared img 3 2 1 m,
    holds_prepared img 3 2 1 m, rfl, rfl, h₃.current, by omega, [0, 0, 0], ?_, rfl⟩
  refine ⟨h₃.taskCount, fun i hi => (htask i hi).2.1, fun i hi => (htask i hi).1,
    fun i hi => ?_⟩
  have hst := Prod.mk.inj (htask i hi).2.2
  have hz : [0, 0, 0].getD i 0 = 0 := by
    rcases lt_three hi with rfl | rfl | rfl <;> rfl
  rw [hz]
  exact .ready hst.1 hst.2

end Start

/-- From every state of a run of `main` the program gets to its end, at which it has printed
exactly the transcript of its ticks. -/
theorem main_transcript (hroom : 3 ≤ cfg.rtosMaxTasks) (ticks : ℤ)
    (hticks : ticks < overflowTick) (m : Machine cfg)
    {tr : TransitionSystem.History (Execution cfg ℤ Line) Unit _} {u : Execution cfg ℤ Line}
    (h : Run (applicationWith cfg img 3 2 1 ticks).next
      ((applicationWith cfg img 3 2 1 ticks).start m firstSample) tr u) :
    (∃ tr' v, Run (applicationWith cfg img 3 2 1 ticks).next u tr' v ∧ v.main = [] ∧
      v.system.phase = .outside ∧ v.console = transcript ticks.toNat) ∧
    (u.main = [] → u.system.phase.waits = false →
      ∃ n ≤ ticks.toNat, u.console = transcript n) := by
  obtain ⟨setup, hsetup, hbefore⟩ := exists_setup img 3 2 1 m ticks firstSample
  have hstart : OnSchedule img ticks.toNat ⟨prepared img 3 2 1 m, .cycleTop ticks.toNat⟩
      firstSample [.line .rule, .line .title] := ⟨0, after_prepared img hroom m _⟩
  obtain ⟨⟨tr', v, hr, hmain, hout, n, hv⟩, hu⟩ :=
    (onSchedule_keeps (toNat_lt_overflowTick hticks) ticks).completes hsetup
      (by simpa [Application.Within, Phase.waits] using hstart) rfl hbefore h
  have hn := hv.progress
  rw [hout] at hn
  refine ⟨⟨tr', v, hr, hmain, hout, ?_⟩, fun hm hw => ?_⟩
  · rw [hv.console, show n = ticks.toNat from hn]
  · have hwithin := hu hm
    simp only [Application.Within, hw, Bool.false_eq_true, if_false] at hwithin
    obtain ⟨n, hn⟩ := hwithin
    exact ⟨n, hn.progress.le, hn.console⟩

theorem main_transcript_twoFunctions :
    let app := application .default .typical
    let r := played app.next powerOn twoFunctions
    (∃ tr' v, Run app.next r.2 tr' v ∧ v.main = [] ∧ v.system.phase = .outside ∧
      v.console = transcript 25) ∧ ∃ n ≤ 25, r.2.console = transcript n := by
  have hr : Run (application .default .typical).next powerOn
      (played (application .default .typical).next powerOn twoFunctions).1
      (played (application .default .typical).next powerOn twoFunctions).2 := run_played _ _
  obtain ⟨hend, hnow⟩ := main_transcript (by decide) 25 (by decide) (Machine.powerOn _) hr
  refine ⟨hend, hnow ?_ (by decide +kernel)⟩
  exact List.isEmpty_iff.mp (by decide +kernel)

end MiniRtos.MainProgram
