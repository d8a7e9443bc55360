import MiniRtos.MainExecution
import MiniRtos.DueTime

/-!
# No sample is lost

The sensor task and the logger task agree through a queue and a semaphore. With any
priorities of the three tasks, what the logger task has stored followed by what is queued is
what the sensor task has produced, whenever no task function is executing; no call of a task
function dereferences `NULL`, and `main` returns. This is so for any number of ticks in which
`sample` does not overflow: the sensor task sleeps for three ticks after every sample.
-/
namespace MiniRtos.MainProgram
open TransitionSystem
variable {cfg : Config} {img : Image}

/-- The samples that the sensor task has printed, the oldest one first. -/
def produced : Console cfg Line → List ℤ
  | [] => []
  | .line (.produced sample) :: con => produced con ++ [sample]
  | _ :: con => produced con

/-- The samples that the logger task has printed, the oldest one first. -/
def stored : Console cfg Line → List ℤ
  | [] => []
  | .line (.stored sample) :: con => stored con ++ [sample]
  | _ :: con => stored con

/-- The first `n` values of `sample`. -/
def samples (n : ℕ) : List ℤ := (List.range n).map fun k : ℕ => firstSample + 5 * (k : ℤ)

/-- What the objects and the console say when no task function is executing. -/
structure Delivered (cfg : Config) (o : Objects) (con : Console cfg Line) : Prop where
  producedInOrder : produced con = samples (produced con).length
  storedInOrder : stored con = samples (stored con).length
  pending : ∃ l, Holds cfg o l ∧ produced con = stored con ++ l

theorem samples_succ (n : ℕ) : samples (n + 1) = samples n ++ [firstSample + 5 * (n : ℤ)] := by
  simp [samples, List.range_succ]

/-- The part that the logger task has stored follows from the rest. -/
theorem Delivered.of_pending {o : Objects} {con : Console cfg Line} {l : List ℤ}
    (ho : Holds cfg o l) (hl : produced con = stored con ++ l)
    (hp : produced con = samples (produced con).length) : Delivered cfg o con := by
  refine ⟨hp, ?_, l, ho, hl⟩
  have hprefix : stored con <+: samples (produced con).length := hp ▸ hl ▸ List.prefix_append _ _
  rw [List.prefix_iff_eq_take.mp hprefix]
  have hle := hprefix.length_le
  simp only [samples, List.length_map, List.length_range] at hle ⊢
  simp [← List.map_take, List.take_range, hle]

theorem produced_report (o : Observation cfg) (con : Console cfg Line) :
    produced (report o ++ con) = produced con ∧ stored (report o ++ con) = stored con := by
  cases o <;> exact ⟨rfl, rfl⟩

/-- The first tick, counted from one, in which `sample` overflows when every third tick
produces one. -/
def overflowTick : ℤ := 1288490128

example : overflowTick = 3 * 429496709 + 1 ∧ IsInt (firstSample + 5 * 429496709) ∧
    ¬ IsInt (firstSample + 5 * (429496709 + 1)) := by decide

theorem toNat_lt_overflowTick {ticks : ℤ} (h : ticks < overflowTick) :
    (ticks.toNat : ℤ) < overflowTick := by
  unfold overflowTick at h ⊢
  omega

/-- After `k` samples the sensor task is due in cycle `3 * k` at the earliest, counted from
zero. -/
def Paced (total k : ℕ) (s : Sched cfg) : Phase cfg → Prop
  | .outside => True
  | .cycleTop left => ∃ d, (s.taskList 0).Due d ∧ 3 * k + left ≤ total + (d - 1)
  | .softTimer left _ | .decide left => ∃ d, (s.taskList 0).Due d ∧ 3 * k + left + 1 ≤ total + d
  | _ => False

/-- What holds from one task function to the next. -/
structure Delivering (img : Image) (total : ℕ) (u : System cfg) (sample : ℤ)
    (con : Console cfg Line) : Prop where
  inv : Inv u
  loaded : Loaded img u.machine
  delivered : Delivered cfg u.machine.objects con
  next : sample = firstSample + 5 * ((produced con).length : ℤ)
  created : 0 < u.machine.sched.taskCount
  paced : Paced total (produced con).length u.machine.sched u.phase

section Pace
variable {total left t k : ℕ} {b : Sched.Branch} {m m' : Machine cfg} {sample : ℤ}
  {con : Console cfg Line} {es : List Effect}

/-- The kernel's own steps bring the sensor task no nearer than the ticks do. -/
theorem Delivering.paced_kernel {u w : System cfg} {o : Observation cfg}
    (h : Delivering img total u sample con) (hs : step u .advance = some (o, w))
    (ho : ∀ b t, o ≠ .taskCalled b t) :
    Paced total (produced con).length w.machine.sched w.phase := by
  have hcb := (h.loaded.advance h.inv hs).2
  obtain ⟨hinv, -, -, -, hcreated, hpaced⟩ := h
  cases step_cases hs with
  | runDone => trivial
  | tick hp =>
      rw [hp] at hpaced
      obtain ⟨d, hdue, hle⟩ := hpaced
      exact ⟨d - 1, Sched.due_timerUpdateSleep hdue hcreated, by omega⟩
  | slotSkipped hp | passDone hp =>
      rw [hp] at hpaced
      exact hpaced
  | callbackCalled => exact absurd rfl (hcb _ _ _)
  | taskCalled => exact absurd rfl (ho _ _)
  | idle hp hd =>
      rw [hp] at hpaced
      obtain ⟨d, hdue, hle⟩ := hpaced
      obtain ⟨-, rfl, -⟩ := (hd ▸ hinv.decides hp).idles
      exact ⟨d, Sched.due_resetSlice hdue _, by omega⟩

theorem Delivering.kernel {u w : System cfg} {o : Observation cfg}
    (h : Delivering img total u sample con) (hs : step u .advance = some (o, w))
    (ho : ∀ b t, o ≠ .taskCalled b t) : Delivering img total w sample (report o ++ con) := by
  have hobj := (step_cases hs).objects (by simp)
  have hcount := ((step_cases hs).taskCount h.inv (by simp)).1
  obtain ⟨hp, hst⟩ := produced_report o con
  refine ⟨h.inv.step hs, (h.loaded.advance h.inv hs).1, ?_, by rw [hp, h.next],
    h.created.trans_le hcount, hp ▸ h.paced_kernel hs ho⟩
  obtain ⟨h₁, h₂, l, h₃, h₄⟩ := h.delivered
  exact ⟨by rw [hp, ← h₁], by rw [hst, ← h₂], l, hobj ▸ h₃, by rw [hp, hst, h₄]⟩

/-- What the function of task `t` finds: the sensor task is due when it is called, and
before another function has returned it is due as before. -/
structure Found (img : Image) (total left t : ℕ) (m : Machine cfg) (sample : ℤ)
    (con : Console cfg Line) : Prop where
  executing : Executing img left t m
  delivered : Delivered cfg m.objects con
  next : sample = firstSample + 5 * ((produced con).length : ℤ)
  sensor : t = 0 → 3 * (produced con).length + left + 1 ≤ total
  other : t ≠ 0 → ∃ d, (m.sched.taskList 0).Due d ∧
    3 * (produced con).length + left + 1 ≤ total + d

theorem Entered.found (h : Entered img (Delivering img total) b left t m sample con) :
    Found img total left t m sample con := by
  obtain ⟨⟨u, hu, hs⟩, hexec⟩ := h
  have ho : m.objects = u.machine.objects := (step_cases hs).objects (by simp)
  have hdelivered := ho ▸ hu.delivered
  have hnext := hu.next
  obtain ⟨hinv, -, -, -, -, hpaced⟩ := hu
  cases step_cases hs with
  | taskCalled hp hd =>
      rw [hp] at hpaced
      obtain ⟨d, hdue, hle⟩ := hpaced
      have hdec := hd ▸ hinv.decides hp
      refine ⟨hexec, hdelivered, hnext, ?_,
        fun ht => ⟨d, hdec.due_of_ne hinv.wellFormed hdue (Ne.symm ht), hle⟩⟩
      rintro rfl
      have := hdec.due_called hinv.wellFormed hdue
      omega

/-- Before the tick in which it can overflow `sample` is far from it. -/
theorem Found.isInt (h : Found img total left 0 m sample con) (htotal : total < overflowTick) :
    IsInt (sample + 5) := by
  have hle := h.sensor rfl
  have hnext := h.next
  unfold overflowTick at htotal
  unfold firstSample at hnext
  unfold IsInt
  omega

/-- The sensor task has produced a sample or has not, and sleeps. -/
theorem Found.restores_sensor {sample' : ℤ} {con' : Console cfg Line}
    (h : Found img total left 0 m sample con) (es : List Effect) (h' : Executing img left 0 m')
    (hs : m'.sched = Effect.apply (es.foldl Effect.apply m.sched) (.sleep 3))
    (hes : ∀ e ∈ es, e.SparesDue) (hd : Delivered cfg m'.objects con')
    (hnext : sample' = firstSample + 5 * ((produced con').length : ℤ))
    (hk : (produced con').length ≤ (produced con).length + 1) :
    Restores (Delivering img total) left 0 sample' (m', con') := by
  have hlt := (h'.inv.task left 0 rfl).1
  refine ⟨h'.inv.taskReturned rfl, h'.loaded.taskReturned 0, hd, hnext, by simpa using hlt, 3, ?_,
    ?_⟩
  · rw [hs]
    exact Sched.due_slept es hes h.executing.current 2
  · have hle := h.sensor rfl
    dsimp only
    omega

/-- Another function has returned, and produced nothing. -/
theorem Found.restores_other {con' : Console cfg Line} (h : Found img total left t m sample con)
    (ht : t ≠ 0) (h' : Executing img left t m') (hs : m'.sched = es.foldl Effect.apply m.sched)
    (hes : ∀ e ∈ es, e.SparesDue) (hd : Delivered cfg m'.objects con')
    (hk : produced con' = produced con) :
    Restores (Delivering img total) left t sample (m', con') := by
  obtain ⟨d, hdue, hle⟩ := h.other ht
  obtain ⟨hlt, hcur⟩ := h.executing.inv.task left t rfl
  have hlt' := (h'.inv.task left t rfl).1
  refine ⟨h'.inv.taskReturned rfl, h'.loaded.taskReturned t, hd, hk ▸ h.next,
    by simpa using Nat.zero_lt_of_lt hlt', d, ?_, by rw [hk]; omega⟩
  rw [hs]
  exact Sched.due_returned es hes hdue (Nat.zero_lt_of_lt hlt) hcur (Ne.symm ht)

end Pace

section Functions
variable {total left t : ℕ} {b : Sched.Branch} {m : Machine cfg} {sample : ℤ}
  {con : Console cfg Line}

theorem Found.delivers_sensor (h : Found img total left 0 m sample con)
    (htotal : total < overflowTick) :
    (sensorTask sample).wp answer (Restores (Delivering img total) left 0)
      (m, .ran b 0 :: con) := by
  obtain ⟨hsamples, -, l, ho, hl⟩ := h.delivered
  refine sensorTask_wp h.executing ho (h.isInt htotal) ?_ ?_
  · intro m' h' _ ho' hs'
    have hlength : (produced (.line (.produced sample) :: .ran b 0 :: con)).length =
        (produced con).length + 1 := by simp [produced]
    refine h.restores_sensor [.unblock .queueEmpty, .unblock .semaphore] h' hs'
      (by simp [Effect.SparesDue]) (.of_pending ho' ?_ ?_) ?_ hlength.le
    · simp [produced, stored, hl]
    · rw [hlength, samples_succ, ← hsamples, ← h.next]
      rfl
    · rw [hlength, h.next]
      push_cast
      omega
  · intro m' h' _ ho' hs'
    exact h.restores_sensor [.park .queueFull (by simp)] h' hs' (by simp [Effect.SparesDue])
      (.of_pending ho' hl hsamples) h.next (Nat.le_succ _)

theorem Found.delivers_logger (h : Found img total left t m sample con) (ht : t ≠ 0) :
    loggerTask.wp answer (fun _ => Restores (Delivering img total) left t sample)
      (m, .ran b t :: con) := by
  obtain ⟨hsamples, -, l, ho, hl⟩ := h.delivered
  refine loggerTask_wp h.executing ho ?_ ?_
  · rintro m' value rest h' rfl ho' hs'
    exact h.restores_other ht h' hs' (by simp [Effect.SparesDue])
      (.of_pending ho' (by simp [produced, stored, hl]) hsamples) rfl
  · intro m' h' _ ho' hs'
    exact h.restores_other ht h' hs' (by simp [Effect.SparesDue]) (.of_pending ho' hl hsamples) rfl

theorem Found.delivers_display (h : Found img total left t m sample con) (ht : t ≠ 0) :
    displayTask.wp answer (fun _ => Restores (Delivering img total) left t sample)
      (m, .ran b t :: con) := by
  obtain ⟨hsamples, -, l, ho, hl⟩ := h.delivered
  refine displayTask_wp h.executing ho ?_
  intro m' h' ho' hs'
  exact h.restores_other ht h' hs' (by simp [Effect.SparesDue]) (.of_pending ho' hl hsamples) rfl

end Functions

theorem delivering_keeps {total : ℕ} (htotal : total < overflowTick)
    (sensor logger display ticks : ℤ) :
    (applicationWith cfg img sensor logger display ticks).Keeps (Delivering img total) := by
  obtain ⟨⟨hsl, hsd⟩, -⟩ : (img.sensorTask ≠ img.loggerTask ∧ img.sensorTask ≠ img.displayTask) ∧
      _ := by simpa using img.nodup
  refine keeps_of (fun u x con h => ⟨h.inv, h.loaded⟩)
    (fun u w x con o h hs ho => h.kernel hs ho) ?_ ?_ ?_
  · intro b left t m x con hent hf
    obtain rfl := hent.executing.isSensor_iff.mp hf
    exact hent.found.delivers_sensor htotal
  · intro b left t m x con hent hf
    exact hent.found.delivers_logger fun ht =>
      hsl ((hent.executing.isSensor_iff.mpr ht).symm.trans hf)
  · intro b left t m x con hent hf
    exact hent.found.delivers_display fun ht =>
      hsd ((hent.executing.isSensor_iff.mpr ht).symm.trans hf)

theorem delivering_prepared (sensor logger display : ℤ) (m : Machine cfg) (total : ℕ) :
    Delivering img total ⟨prepared img sensor logger display m, .cycleTop total⟩ firstSample
      [.line .rule, .line .title] where
  inv := inv_prepared img sensor logger display m _
  loaded := loaded_prepared img sensor logger display m
  delivered := .of_pending (holds_prepared img sensor logger display m) rfl rfl
  next := rfl
  created := one_le_taskCount_prepared img sensor logger display m
  paced := ⟨0, due_prepared img sensor logger display m, by simp [produced]⟩

/-- From every state of a run of `main` the program gets to its end, and between two task
functions nothing that was produced is lost, stored twice or out of order. -/
theorem samples_delivered (sensor logger display ticks : ℤ) (hticks : ticks < overflowTick)
    (m : Machine cfg)
    {tr : TransitionSystem.History (Execution cfg ℤ Line) Unit _} {u : Execution cfg ℤ Line}
    (h : Run (applicationWith cfg img sensor logger display ticks).next
      ((applicationWith cfg img sensor logger display ticks).start m firstSample) tr u) :
    (∃ tr' v, Run (applicationWith cfg img sensor logger display ticks).next u tr' v ∧
      v.main = [] ∧ v.system.phase = .outside ∧
        Delivered cfg v.system.machine.objects v.console) ∧
    (u.main = [] → u.system.phase.waits = false →
      Delivered cfg u.system.machine.objects u.console) := by
  obtain ⟨setup, hsetup, hbefore⟩ := exists_setup img sensor logger display m ticks firstSample
  have hstart : Delivering img ticks.toNat
      ⟨prepared img sensor logger display m, .cycleTop ticks.toNat⟩ firstSample
      [.line .rule, .line .title] := delivering_prepared sensor logger display m _
  obtain ⟨⟨tr', v, hr, hmain, hout, hv⟩, hu⟩ :=
    (delivering_keeps (toNat_lt_overflowTick hticks) sensor logger display ticks).completes hsetup
      (by simpa [Application.Within, Phase.waits] using hstart) rfl hbefore h
  refine ⟨⟨tr', v, hr, hmain, hout, hv.delivered⟩, fun hm hw => ?_⟩
  have hwithin := hu hm
  simp only [Application.Within, hw, Bool.false_eq_true, if_false] at hwithin
  exact hwithin.delivered

/-- The functions at typical code addresses. -/
def Image.typical : Image := ⟨0x401200#64, 0x401280#64, 0x401320#64, by decide⟩

/-- `main` on a machine after power-on. -/
def powerOn : Execution Config.default ℤ Line :=
  (application .default .typical).start (Machine.powerOn _) firstSample

/-- Until the second task function has returned. -/
def twoFunctions : List Unit := List.replicate 45 ()

theorem samples_delivered_twoFunctions :
    let app := application .default .typical
    let r := played app.next powerOn twoFunctions
    stored r.2.console = [100] ∧
      (∃ tr' v, Run app.next r.2 tr' v ∧ v.main = [] ∧ v.system.phase = .outside ∧
        Delivered .default v.system.machine.objects v.console) ∧
      Delivered .default r.2.system.machine.objects r.2.console := by
  have hr : Run (application .default .typical).next powerOn
      (played (application .default .typical).next powerOn twoFunctions).1
      (played (application .default .typical).next powerOn twoFunctions).2 := run_played _ _
  obtain ⟨hend, hnow⟩ := samples_delivered 3 2 1 25 (by decide) (Machine.powerOn _) hr
  refine ⟨by decide +kernel, hend, hnow ?_ (by decide +kernel)⟩
  exact List.isEmpty_iff.mp (by decide +kernel)

end MiniRtos.MainProgram
