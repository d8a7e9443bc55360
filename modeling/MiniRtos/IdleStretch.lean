import MiniRtos.CounterOverflow
import MiniRtos.RunLength
import MiniRtos.TimerSchedule

/-!
# Idle stretches

While no task is READY the cycles of `rtos_run` only count, and how long that goes on can
be read off the counters: until the first sleeper wakes up or the first timer fires. So a
stretch of idle cycles is one jump, which a kernel without a periodic tick would make, and
in the cycle after the longest one application code is called. Where nothing sleeps and no
timer is armed the kernel idles until `rtos_run` returns.
-/
namespace MiniRtos
open TransitionSystem
variable {cfg : Config}

def TCB.isSleeping (t : TCB) : Bool := t.state = .blocked ∧ t.blockReason = .sleep

/-- A control block after `k` idle cycles. -/
def TCB.idleFor (t : TCB) (k : ℕ) (current : Bool) : TCB :=
  { t with
    sleepTicks := if t.isSleeping then t.sleepTicks - k else t.sleepTicks
    sliceTicksUsed := if current ∧ 0 < k then 0#32 else t.sliceTicksUsed }

def SoftTimer.armed (x : SoftTimer) : Bool := x.inUse && x.active

/-- A slot after `k` ticks in which it does not fire. -/
def SoftTimer.idleFor (x : SoftTimer) (k : ℕ) : SoftTimer :=
  { x with remaining := if x.armed then x.remaining - BitVec.ofNat 32 k else x.remaining }

def Sched.idleFor (s : Sched cfg) (k : ℕ) : Sched cfg :=
  { s with
    taskList := fun i =>
      if i < s.taskCount then (s.taskList i).idleFor k (s.rtosCurrentTask = some i)
      else s.taskList i }

def TimerState.idleFor (t : TimerState cfg) (k : ℕ) : TimerState cfg :=
  ⟨t.kernelTick + BitVec.ofNat 32 k, fun i => (t.softTimers i).idleFor k⟩

/-- `k` idle cycles at once. -/
def Machine.idleFor (m : Machine cfg) (k : ℕ) : Machine cfg :=
  { m with timer := m.timer.idleFor k, sched := m.sched.idleFor k }

/-- No sleeper wakes up and no timer fires in the next `k` ticks. -/
structure Machine.Quiet (m : Machine cfg) (k : ℕ) : Prop where
  sleepers : ∀ i < m.sched.taskCount, (m.sched.taskList i).isSleeping → 0 < k →
    (k : ℤ) < (m.sched.taskList i).sleepTicks
  timers : ∀ i, (m.timer.softTimers i).armed → 0 < k → k < (m.timer.softTimers i).remaining.toNat

section Jumps

attribute [ext] TCB SoftTimer

theorem TCB.idleFor_zero (t : TCB) (current : Bool) : t.idleFor 0 current = t := by
  simp [TCB.idleFor]

theorem TCB.isSleeping_iff {t : TCB} :
    t.isSleeping = true ↔ t.state = .blocked ∧ t.blockReason = .sleep := by
  simp [TCB.isSleeping]

theorem TCB.idleFor_idleFor (t : TCB) (current : Bool) (k l : ℕ) :
    (t.idleFor k current).idleFor l current = t.idleFor (k + l) current := by
  have hsleeping : (t.idleFor k current).isSleeping = t.isSleeping := rfl
  refine TCB.ext rfl rfl rfl rfl ?_ rfl rfl rfl rfl rfl ?_
  · change (if (t.idleFor k current).isSleeping then _ else _) = ite _ _ _
    rw [hsleeping]
    simp only [TCB.idleFor]
    split_ifs
    · push_cast
      omega
    · rfl
  · simp only [TCB.idleFor]
    cases current <;> simp
    split_ifs <;> first | rfl | omega

theorem SoftTimer.idleFor_zero (x : SoftTimer) : x.idleFor 0 = x := by
  simp [SoftTimer.idleFor]

theorem SoftTimer.idleFor_idleFor (x : SoftTimer) (k l : ℕ) :
    (x.idleFor k).idleFor l = x.idleFor (k + l) := by
  have harmed : (x.idleFor k).armed = x.armed := rfl
  refine SoftTimer.ext rfl rfl ?_ rfl rfl rfl rfl
  change (if (x.idleFor k).armed then _ else _) = ite _ _ _
  rw [harmed]
  simp only [SoftTimer.idleFor]
  split_ifs
  · rw [BitVec.ofNat_add, BitVec.sub_sub]
  · rfl

theorem Machine.idleFor_zero (m : Machine cfg) : m.idleFor 0 = m := by
  simp [Machine.idleFor, Sched.idleFor, TimerState.idleFor, TCB.idleFor_zero,
    SoftTimer.idleFor_zero]

/-- A jump over `k` cycles and one over `l` more are one jump. -/
theorem Machine.idleFor_idleFor (m : Machine cfg) (k l : ℕ) :
    (m.idleFor k).idleFor l = m.idleFor (k + l) := by
  simp only [Machine.idleFor, TimerState.idleFor, Sched.idleFor]
  congr 2
  · funext i
    split_ifs
    · exact TCB.idleFor_idleFor _ _ _ _
    · rfl
  · rw [BitVec.ofNat_add, BitVec.add_assoc]
  · funext i
    exact SoftTimer.idleFor_idleFor _ _ _

/-- What is quiet for `k + l` ticks is quiet for `l` once `k` of them are over. -/
theorem Machine.quiet_idleFor {m : Machine cfg} {k l : ℕ} (h : m.Quiet k) (hl : 0 < l) :
    (m.idleFor k).Quiet l ↔ m.Quiet (k + l) := by
  have hsleeper : ∀ i < m.sched.taskCount, ((m.idleFor k).sched.taskList i).isSleeping =
        (m.sched.taskList i).isSleeping ∧
      ((m.sched.taskList i).isSleeping = true →
        ((m.idleFor k).sched.taskList i).sleepTicks = (m.sched.taskList i).sleepTicks - k) := by
    intro i hi
    simp only [Machine.idleFor, Sched.idleFor, if_pos hi]
    exact ⟨rfl, fun hs => if_pos hs⟩
  have htimer : ∀ i, (m.timer.softTimers i).armed = true →
      ((m.idleFor k).timer.softTimers i).remaining.toNat =
        (m.timer.softTimers i).remaining.toNat - k := by
    intro i harmed
    have hlt := (m.timer.softTimers i).remaining.isLt
    change ((m.timer.softTimers i).idleFor k).remaining.toNat = _
    rw [SoftTimer.idleFor, if_pos harmed]
    rcases k.eq_zero_or_pos with rfl | hk
    · simp
    · have hrem := h.timers i harmed hk
      rw [BitVec.toNat_sub_of_le (by rw [BitVec.le_def, BitVec.toNat_ofNat]; omega),
        BitVec.toNat_ofNat, Nat.mod_eq_of_lt (by omega)]
  constructor
  · rintro ⟨hs, ht⟩
    refine ⟨fun i hi hsleep _ => ?_, fun i harmed _ => ?_⟩
    · obtain ⟨hsame, hticks⟩ := hsleeper i hi
      have := hs i hi (hsame.trans hsleep) hl
      rw [hticks hsleep] at this
      push_cast
      omega
    · have := ht i harmed hl
      rw [htimer i harmed] at this
      omega
  · rintro ⟨hs, ht⟩
    refine ⟨fun i hi hsleep _ => ?_, fun i harmed _ => ?_⟩
    · obtain ⟨hsame, hticks⟩ := hsleeper i hi
      have := hs i hi (hsame.symm.trans hsleep) (by omega)
      rw [hticks (hsame.symm.trans hsleep)]
      push_cast at this
      omega
    · have := ht i harmed (by omega)
      rw [htimer i harmed]
      omega

end Jumps

section Cycle

/-- The sleep loop, when nobody wakes up. -/
theorem Sched.timerUpdateSleep_quiet {s : Sched cfg}
    (h : ∀ i < s.taskCount, (s.taskList i).isSleeping → 1 < (s.taskList i).sleepTicks) :
    s.timerUpdateSleep = { s with
      taskList := fun i =>
        if i < s.taskCount then (s.taskList i).idleFor 1 false else s.taskList i } := by
  have hloop : ∀ n ≤ s.taskCount, (List.range n).foldl updateSleepTask s = { s with
      taskList := fun i => if i < n then (s.taskList i).idleFor 1 false else s.taskList i } := by
    intro n hn
    induction n with
    | zero => simp
    | succ n ih =>
        rw [List.range_succ, List.foldl_append, ih (by omega), List.foldl_cons, List.foldl_nil]
        generalize hu : ({ s with
          taskList := fun i => if i < n then (s.taskList i).idleFor 1 false else s.taskList i } :
            Sched cfg) = u
        have hself : u.taskList n = s.taskList n := by simp [← hu]
        have htable : ({ s with
            taskList := fun i =>
              if i < n + 1 then (s.taskList i).idleFor 1 false else s.taskList i } : Sched cfg) =
            { u with
              taskList := Function.update u.taskList n ((s.taskList n).idleFor 1 false) } := by
          subst hu
          congr 1
          funext i
          by_cases hi : i = n
          · subst hi
            simp
          · rw [Function.update_of_ne hi]
            simp only [show i < n + 1 ↔ i < n by omega]
        rw [htable, updateSleepTask, hself]
        cases hsleep : (s.taskList n).isSleeping with
        | true =>
            obtain ⟨hst, hr⟩ := TCB.isSleeping_iff.mp hsleep
            have hlast := h n hn hsleep
            rw [if_neg (by simp [hst, hr])]
            simp only [modifyTask_self, hself]
            rw [if_neg (by omega)]
            simp [modifyTask, hself, TCB.idleFor, hsleep]
        | false =>
            have hawake : (s.taskList n).idleFor 1 false = u.taskList n := by
              simp [TCB.idleFor, hsleep, hself]
            rw [if_pos (by simpa [TCB.isSleeping, imp_iff_not_or] using hsleep), hawake,
              Function.update_eq_self]
  exact hloop _ le_rfl

/-- A slot's turn in a quiet tick, and in one that is not. -/
theorem SoftTimer.turn_eq (x : SoftTimer) :
    x.turn.1 = decide (x.armed = true ∧ x.remaining.toNat ≤ 1) ∧
      (x.turn.1 = false → x.turn.2 = x.idleFor 1) := by
  cases harmed : x.armed with
  | false =>
      rw [SoftTimer.turn_skipped harmed]
      simp [SoftTimer.idleFor, harmed]
  | true =>
      obtain ⟨huse, hactive⟩ : x.inUse = true ∧ x.active = true := by
        simpa [SoftTimer.armed] using harmed
      rcases x.remaining.toNat.eq_zero_or_pos with hz | hpos
      · have hzero : x.remaining = 0#32 := BitVec.toNat_inj.mp (by simpa using hz)
        simp [SoftTimer.turn, huse, hactive, hzero]
      · obtain ⟨hturn, hrem⟩ := SoftTimer.turn_armed huse hactive hpos
        rw [hturn]
        constructor
        · simp only [true_and, decide_eq_decide]
          omega
        · simp [SoftTimer.idleFor, harmed]

/-- The pass over the slots from `i` on, when none of them fires. -/
def TimerState.idleFrom (t : TimerState cfg) (i : ℕ) : TimerState cfg :=
  { t with softTimers := fun j => if i ≤ j.val then (t.softTimers j).idleFor 1 else t.softTimers j }

/-- The environment has no part in the steps of the history. -/
def KernelOnly (tr : History cfg) : Prop :=
  ∀ e ∈ tr, e.act = .advance ∧ e.src.phase.application = false

/-- Nothing but idling is to be seen. -/
def ShowsIdle (tr : History cfg) : Prop := ∀ e ∈ tr, e.obs = .silent ∨ e.obs = .idle

variable {m : Machine cfg} {left : ℕ}

/-- One slot of the pass. -/
theorem step_slot (m : Machine cfg) (left : ℕ) (i : Fin cfg.rtosSoftTimerCount) :
    ∃ o, step ⟨m, .softTimer left i⟩ .advance =
      if (m.timer.softTimers i).turn.1 then
        some (o, ⟨{ m with timer := (m.timer.timerUpdateSoftSlot i).2 }, .callback left i⟩)
      else
        some (.silent,
          ⟨{ m with timer := (m.timer.timerUpdateSoftSlot i).2 }, .softTimer left (i + 1)⟩) := by
  simp only [step, System.advance, i.isLt, dif_pos, Fin.eta, TimerState.timerUpdateSoftSlot_fst]
  cases (m.timer.softTimers i).turn.1 with
  | true => exact ⟨_, rfl⟩
  | false => exact ⟨.silent, rfl⟩

theorem TimerState.idleFrom_succ (t : TimerState cfg) (i : Fin cfg.rtosSoftTimerCount)
    (h : (t.softTimers i).turn.1 = false) :
    ((t.timerUpdateSoftSlot i).2.idleFrom (i + 1)) = t.idleFrom i := by
  simp only [TimerState.idleFrom, TimerState.timerUpdateSoftSlot_kernelTick,
    TimerState.timerUpdateSoftSlot_softTimers, TimerState.mk.injEq, true_and]
  funext j
  by_cases hj : j = i
  · subst hj
    rw [if_neg (by omega), if_pos le_rfl, Function.update_self]
    exact (t.softTimers j).turn_eq.2 h
  · have hne : j.val ≠ i.val := fun he => hj (Fin.ext he)
    rw [Function.update_of_ne hj]
    simp only [show i.val + 1 ≤ j.val ↔ i.val ≤ j.val by omega]

/-- The rest of a pass: a callback is called if one of the slots is due. -/
theorem pass_from (m : Machine cfg) (left n i : ℕ) (hn : i + n = cfg.rtosSoftTimerCount) :
    ∃ tr w, Run step ⟨m, .softTimer left i⟩ tr w ∧ KernelOnly tr ∧ ticks tr = 0 ∧
      ((∃ j, i ≤ j.val ∧ (m.timer.softTimers j).turn.1 = true) ∧ w.phase.application = true ∨
        (∀ j, i ≤ j.val → (m.timer.softTimers j).turn.1 = false) ∧
          w = ⟨{ m with timer := m.timer.idleFrom i }, .decide left⟩ ∧ ShowsIdle tr) := by
  induction n generalizing i m with
  | zero =>
      have hs : step ⟨m, .softTimer left i⟩ .advance = some (.silent, ⟨m, .decide left⟩) := by
        simp only [step, System.advance]
        rw [dif_neg (by omega)]
      have hdone : m.timer.idleFrom i = m.timer := by
        simp only [TimerState.idleFrom]
        congr 1
        funext j
        rw [if_neg (by omega)]
      refine ⟨_, _, .snoc .nil hs, by simp [KernelOnly, Phase.application], rfl, .inr ⟨?_, ?_, ?_⟩⟩
      · intro j hj
        omega
      · rw [hdone]
      · simp [ShowsIdle]
  | succ n ih =>
      have hi : i < cfg.rtosSoftTimerCount := by omega
      obtain ⟨o, hs⟩ := step_slot m left ⟨i, hi⟩
      cases hturn : (m.timer.softTimers ⟨i, hi⟩).turn.1 with
      | true =>
          rw [hturn, if_pos rfl] at hs
          refine ⟨_, _, .snoc .nil hs, by simp [KernelOnly, Phase.application], rfl, .inl ⟨?_, rfl⟩⟩
          exact ⟨⟨i, hi⟩, le_rfl, hturn⟩
      | false =>
          rw [hturn, if_neg Bool.false_ne_true] at hs
          have hlater : ∀ j : Fin cfg.rtosSoftTimerCount, i + 1 ≤ j.val →
              (m.timer.timerUpdateSoftSlot ⟨i, hi⟩).2.softTimers j = m.timer.softTimers j := by
            intro j hj
            rw [TimerState.timerUpdateSoftSlot_softTimers, Function.update_of_ne]
            intro he
            simp only [he] at hj
            omega
          obtain ⟨tr, w, hr, hkernel, hticks, hend⟩ :=
            ih { m with timer := (m.timer.timerUpdateSoftSlot ⟨i, hi⟩).2 } (i + 1) (by omega)
          refine ⟨_, w, (Run.snoc .nil hs).append hr, ?_, ?_, ?_⟩
          · simpa [KernelOnly, Phase.application, or_imp, forall_and] using hkernel
          · simpa [ticks, isTick] using hticks
          · rcases hend with ⟨⟨j, hj, hdue⟩, happ⟩ | ⟨hnone, rfl, hidle⟩
            · refine .inl ⟨⟨j, by omega, ?_⟩, happ⟩
              rw [← hlater j hj]
              exact hdue
            · refine .inr ⟨fun j hj => ?_, ?_, ?_⟩
              · rcases hj.eq_or_lt with he | hlt
                · rw [← show (⟨i, hi⟩ : Fin _) = j from Fin.ext he]
                  exact hturn
                · rw [← hlater j hlt]
                  exact hnone j hlt
              · exact congrArg (fun t => (⟨{ m with timer := t }, .decide left⟩ : System cfg))
                  (m.timer.idleFrom_succ ⟨i, hi⟩ hturn)
              · simpa [ShowsIdle, or_imp, forall_and] using hidle

/-- The decision of a cycle, by whether a task is READY. -/
theorem decide_from (hinv : Inv (⟨m, .decide left⟩ : System cfg)) :
    ∃ o w, step ⟨m, .decide left⟩ .advance = some (o, w) ∧
      (m.sched.readyTasks = ∅ ∧ o = .idle ∧
          w = ⟨{ m with sched := m.sched.resetSlice m.sched.rtosCurrentTask }, .cycleTop left⟩ ∨
        m.sched.readyTasks ≠ ∅ ∧ w.phase.application = true) := by
  obtain ⟨⟨o, w⟩, hs⟩ := Option.isSome_iff_exists.mp
    ((⟨m, .decide left⟩ : System cfg).exists_progress (by simp))
  simp only [Phase.application, Bool.false_eq_true, if_false] at hs
  have hd := hinv.decides rfl
  refine ⟨o, w, hs, ?_⟩
  cases step_cases hs with
  | idle hp hr =>
      cases hp
      rw [hr] at hd
      obtain ⟨-, rfl, rfl⟩ := hd.idles
      exact .inl ⟨(hd.none_iff hinv.wellFormed).mp rfl, rfl, rfl⟩
  | taskCalled hp hr =>
      rw [hr] at hd
      refine .inr ⟨fun he => ?_, rfl⟩
      cases (hd.none_iff hinv.wellFormed).mpr he
  | tick hp | slotSkipped hp | callbackCalled hp | passDone hp | runDone hp => cases hp

theorem Sched.idleFor_one (s : Sched cfg) :
    ({ s with
        taskList := fun i => if i < s.taskCount then (s.taskList i).idleFor 1 false
          else s.taskList i } : Sched cfg).resetSlice s.rtosCurrentTask = s.idleFor 1 := by
  cases hc : s.rtosCurrentTask with
  | none => simp [Sched.resetSlice, Sched.idleFor, hc]
  | some c =>
      have hlt := (s.rtosCurrentTask_eq_some.mp hc).2
      simp only [Sched.resetSlice, Sched.modifyTask, Sched.idleFor, hc]
      congr 1
      funext i
      by_cases hi : i = c
      · subst hi
        simp [hlt, TCB.idleFor]
      · simp [hi, Ne.symm hi]

/-- One cycle in which no task is READY at first. -/
theorem cycle_from (hinv : Inv (⟨m, .cycleTop (left + 1)⟩ : System cfg))
    (hready : m.sched.readyTasks = ∅) :
    ∃ tr w, Run step ⟨m, .cycleTop (left + 1)⟩ tr w ∧ KernelOnly tr ∧ ticks tr = 1 ∧
      (¬ m.Quiet 1 ∧ w.phase.application = true ∨
        m.Quiet 1 ∧ w = ⟨m.idleFor 1, .cycleTop left⟩ ∧ ShowsIdle tr) := by
  have htick : step ⟨m, .cycleTop (left + 1)⟩ .advance = some (.silent,
      ⟨{ m with timer := m.timer.timerTick, sched := m.sched.timerUpdateSleep },
        .softTimer left 0⟩) := rfl
  obtain ⟨tr, w, hr, hkernel, hticks, hend⟩ :=
    pass_from { m with timer := m.timer.timerTick, sched := m.sched.timerUpdateSleep } left _ 0
      (Nat.zero_add _)
  have hrun := (Run.snoc .nil htick).append hr
  have hkernel' : KernelOnly (tr ++ [⟨⟨m, .cycleTop (left + 1)⟩, .advance, .silent,
      ⟨{ m with timer := m.timer.timerTick, sched := m.sched.timerUpdateSleep },
        .softTimer left 0⟩⟩]) := by
    simpa [KernelOnly, Phase.application, or_imp, forall_and] using hkernel
  have hticks' : ticks (tr ++ [⟨⟨m, .cycleTop (left + 1)⟩, .advance, .silent,
      ⟨{ m with timer := m.timer.timerTick, sched := m.sched.timerUpdateSleep },
        .softTimer left 0⟩⟩]) = 1 := by
    simpa [ticks, isTick] using hticks
  rcases hend with ⟨⟨j, -, hdue⟩, happ⟩ | ⟨hnone, rfl, hidle⟩
  · refine ⟨_, w, hrun, hkernel', hticks', .inl ⟨fun hq => ?_, happ⟩⟩
    have hturn := (m.timer.softTimers j).turn_eq.1
    rw [show (m.timer.softTimers j).turn.1 = true from hdue] at hturn
    obtain ⟨harmed, hle⟩ := of_decide_eq_true hturn.symm
    have := hq.timers j harmed Nat.one_pos
    omega
  · have hinv' := hrun.invariant hinv fun u a o w hu hs => hu.step hs
    obtain ⟨o, w, hs, hdecision⟩ := decide_from hinv'
    have hcycle := hrun.snoc hs
    have htimers : ∀ i, (m.timer.softTimers i).armed →
        1 < (m.timer.softTimers i).remaining.toNat := by
      intro i harmed
      have hturn := (m.timer.softTimers i).turn_eq.1
      rw [show (m.timer.softTimers i).turn.1 = false from hnone i (Nat.zero_le _)] at hturn
      have hnot := of_decide_eq_false hturn.symm
      by_contra hle
      exact hnot ⟨harmed, not_lt.mp hle⟩
    refine ⟨_, w, hcycle, ?_, ?_, ?_⟩
    · exact List.forall_mem_cons.mpr ⟨⟨rfl, rfl⟩, hkernel'⟩
    · rw [ticks_cons, hticks']
      rfl
    by_cases hsleepers : ∀ i < m.sched.taskCount, (m.sched.taskList i).isSleeping →
        1 < (m.sched.taskList i).sleepTicks
    · have hquiet : m.Quiet 1 := ⟨fun i hi hsl _ => hsleepers i hi hsl, fun i ha _ => htimers i ha⟩
      have hsched := Sched.timerUpdateSleep_quiet hsleepers
      rcases hdecision with ⟨-, rfl, rfl⟩ | ⟨hne, -⟩
      · refine .inr ⟨hquiet, ?_, ?_⟩
        · have htimer : m.timer.timerTick.idleFrom 0 = m.timer.idleFor 1 := by
            simp [TimerState.idleFrom, TimerState.idleFor, TimerState.timerTick]
          simp only [htimer, hsched, Machine.idleFor]
          rw [← Sched.idleFor_one]
          rfl
        · simpa [ShowsIdle, or_imp, forall_and] using hidle
      · refine absurd ?_ hne
        rw [Finset.eq_empty_iff_forall_notMem] at hready ⊢
        intro i hi
        simp only [hsched, Sched.mem_readyTasks] at hi
        obtain ⟨hlt, hst⟩ := hi
        rw [if_pos hlt] at hst
        exact hready i (Sched.mem_readyTasks.mpr ⟨hlt, hst⟩)
    · push Not at hsleepers
      obtain ⟨i, hi, hsl, hle⟩ := hsleepers
      refine .inl ⟨fun hq => ?_, ?_⟩
      · have := hq.sleepers i hi hsl Nat.one_pos
        omega
      · rcases hdecision with ⟨hnone, -⟩ | ⟨-, happ⟩
        · obtain ⟨hst, hr⟩ := TCB.isSleeping_iff.mp hsl
          have hawake : i ∈ m.sched.timerUpdateSleep.readyTasks := by
            refine Sched.mem_readyTasks.mpr ⟨?_, ?_⟩
            · simpa using hi
            · rw [Sched.timerUpdateSleep_taskList hi, TCB.afterTick, if_neg (by simp [hst, hr]),
                if_pos (by omega)]
              rfl
          rw [show m.sched.timerUpdateSleep.readyTasks = ∅ from hnone] at hawake
          cases hawake
        · exact happ

theorem Machine.Quiet.mono {k l : ℕ} (h : m.Quiet l) (hle : k ≤ l) : m.Quiet k :=
  ⟨fun i hi hs hk => by have := h.sleepers i hi hs (by omega); omega,
    fun i ha hk => by have := h.timers i ha (by omega); omega⟩

theorem Sched.readyTasks_idleFor (s : Sched cfg) (k : ℕ) :
    (s.idleFor k).readyTasks = s.readyTasks := by
  ext i
  simp only [Sched.mem_readyTasks]
  refine and_congr_right fun hi => ?_
  simp only [Sched.idleFor, if_pos (show i < s.taskCount from hi)]
  rfl

end Cycle

theorem KernelOnly.append {tr later : History cfg} (h : KernelOnly tr) (h' : KernelOnly later) :
    KernelOnly (later ++ tr) := fun e he => (List.mem_append.mp he).elim (h' e) (h e)

/-- Where only the kernel acts, every run goes the same way. -/
theorem KernelOnly.suffix {s u v : System cfg} {tr tr' : History cfg} (h : KernelOnly tr)
    (hr : Run step s tr u) (hr' : Run step s tr' v) : tr' <:+ tr ∨ tr <:+ tr' := by
  have hforced : ∀ e ∈ tr, ∀ a r, step e.src a = some r → a = e.act := by
    intro e he a r hs
    obtain ⟨hact, happ⟩ := h e he
    have hout : e.src.phase ≠ .outside := fun ho => by simp [ho, Phase.application] at happ
    rw [hact]
    cases a with
    | advance => rfl
    | init | run => simp [step, hout] at hs
    | call => simp [step, happ] at hs
    | ret =>
        simp only [step, System.ret] at hs
        split at hs <;> simp_all [Phase.application]
  rcases hr.comparable hforced hr' with ⟨rest, -, rfl⟩ | ⟨rest, -, rfl⟩
  · exact .inr (List.suffix_append _ _)
  · exact .inl (List.suffix_append _ _)

/-- Every sleeper has more than `INT_MIN` ticks to go. -/
def Sched.CountsDown (s : Sched cfg) : Prop :=
  ∀ i < s.taskCount, s.Sleeper i → -2 ^ 31 < (s.taskList i).sleepTicks

/-- A sleeper that the tick does not wake has a tick to go. -/
theorem Sched.CountsDown.timerUpdateSleep {s : Sched cfg} (h : s.CountsDown) :
    s.timerUpdateSleep.CountsDown := by
  intro i hi hsleeper
  rw [timerUpdateSleep_taskCount] at hi
  rw [Sleeper, timerUpdateSleep_taskList hi] at hsleeper
  rw [timerUpdateSleep_taskList hi]
  unfold TCB.afterTick at hsleeper ⊢
  split_ifs at hsleeper ⊢ with hawake hdue
  · exact h i hi hsleeper
  · cases hsleeper.1
  · dsimp only
    omega

/-- Until application code is called, no sleeper's count is decremented at `INT_MIN`. -/
theorem KernelOnly.not_atLimit {s v : System cfg} {tr : History cfg} (hs : Inv s)
    (hcounts : s.machine.sched.CountsDown) (h : Run step s tr v) (htr : KernelOnly tr) :
    ∀ e ∈ tr, atLimit e = false := by
  refine (h.edge_invariant (P := fun u => Inv u ∧
    (u.phase.application = false → u.machine.sched.CountsDown)) ⟨hs, fun _ => hcounts⟩ htr ?_).2
  rintro u a o w ⟨hu, hdown⟩ ⟨rfl, happ⟩ hstep
  have hcounts := hdown happ
  refine ⟨⟨hu.step hstep, fun happ' => ?_⟩, ?_⟩
  · cases step_cases hstep with
    | tick => exact hcounts.timerUpdateSleep
    | idle hp hd =>
        obtain ⟨-, rfl, -⟩ := Sched.Decides.idles (hd ▸ hu.decides hp)
        intro i hi hsleeper
        obtain ⟨n, hn⟩ := u.machine.sched.resetSlice_taskList u.machine.sched.rtosCurrentTask i
        rw [Sched.Sleeper, hn] at hsleeper
        rw [hn]
        exact hcounts i (by simpa using hi) hsleeper
    | taskCalled | callbackCalled => cases happ'
    | runDone | slotSkipped | passDone => exact hcounts
  · unfold atLimit
    split
    · next hact => cases hact
    · next left _ hp =>
      rw [List.any_eq_false]
      intro i hi hlimit
      obtain ⟨hsleeper, hticks⟩ := of_decide_eq_true hlimit
      exact absurd hticks (hcounts i (List.mem_range.mp hi) hsleeper).ne'
    · rfl

/-- As long as it stays quiet the cycles are idle, and the jump leads where they lead. -/
theorem idle_run {s : System cfg} {left k : ℕ} (hs : Inv s) (hphase : s.phase = .cycleTop left)
    (hready : s.machine.sched.readyTasks = ∅) (hk : k ≤ left) (hquiet : s.machine.Quiet k) :
    ∃ tr, Run step s tr ⟨s.machine.idleFor k, .cycleTop (left - k)⟩ ∧ KernelOnly tr ∧
      ShowsIdle tr ∧ ticks tr = k := by
  induction k with
  | zero =>
      refine ⟨[], ?_, by simp [KernelOnly], by simp [ShowsIdle], rfl⟩
      rw [Machine.idleFor_zero, Nat.sub_zero, ← hphase]
      exact .nil
  | succ k ih =>
      obtain ⟨tr, hr, hkernel, hidle, hticks⟩ := ih (by omega) (hquiet.mono (by omega))
      obtain ⟨l, hl⟩ : ∃ l, left - k = l + 1 := ⟨left - k - 1, by omega⟩
      rw [hl] at hr
      have hinv := hr.invariant hs fun u a o w hu hs => hu.step hs
      obtain ⟨tr', w, hr', hkernel', hticks', hend⟩ :=
        cycle_from hinv ((Sched.readyTasks_idleFor _ _).trans hready)
      have hnext : (s.machine.idleFor k).Quiet 1 :=
        (Machine.quiet_idleFor (hquiet.mono (by omega)) Nat.one_pos).mpr hquiet
      rcases hend with ⟨hnot, -⟩ | ⟨-, rfl, hidle'⟩
      · exact absurd hnext hnot
      refine ⟨tr' ++ tr, ?_, hkernel.append hkernel', ?_, ?_⟩
      · rw [Machine.idleFor_idleFor] at hr'
        rw [show left - (k + 1) = l by omega]
        exact hr.append hr'
      · exact fun e he => (List.mem_append.mp he).elim (hidle' e) (hidle e)
      · rw [ticks, List.countP_append]
        simp only [ticks] at hticks hticks'
        omega

/-- In a state in which no task is READY the kernel idles for as long as no sleeper wakes
up and no timer fires: its state after `k` such cycles is given by one jump, nothing else
can happen on the way, and when one of them is due in the cycle after them, then
application code is called in that cycle. The counts of the sleepers are above `INT_MIN`, and
so they are whenever one of them is decremented. -/
theorem idle_stretch {s : System cfg} {left k : ℕ} (hs : Reachable s)
    (hphase : s.phase = .cycleTop left) (hready : s.machine.sched.readyTasks = ∅)
    (hcounts : s.machine.sched.CountsDown) (hk : k ≤ left) (hquiet : s.machine.Quiet k) :
    ∃ tr, Run step s tr ⟨s.machine.idleFor k, .cycleTop (left - k)⟩ ∧ ShowsIdle tr ∧
      ticks tr = k ∧ (∀ tr' v, Run step s tr' v → tr' <:+ tr ∨ tr <:+ tr') ∧
      (∀ e ∈ tr, atLimit e = false) ∧
      (k < left → ¬ s.machine.Quiet (k + 1) →
        ∃ tr' v, Run step s (tr' ++ tr) v ∧ ticks tr' = 1 ∧ v.phase.application = true ∧
          (∀ e ∈ tr', atLimit e = false) ∧
          ∀ tr'' v', Run step s tr'' v' → tr'' <:+ tr' ++ tr ∨ tr' ++ tr <:+ tr'') := by
  obtain ⟨tr, hr, hkernel, hidle, hticks⟩ := idle_run hs.inv hphase hready hk hquiet
  refine ⟨tr, hr, hidle, hticks, fun tr' v hr' => hkernel.suffix hr hr',
    hkernel.not_atLimit hs.inv hcounts hr, fun hlt hdue => ?_⟩
  obtain ⟨l, hl⟩ : ∃ l, left - k = l + 1 := ⟨left - k - 1, by omega⟩
  rw [hl] at hr
  have hinv := hr.invariant hs.inv fun u a o w hu hs => hu.step hs
  obtain ⟨tr', v, hr', hkernel', hticks', hend⟩ :=
    cycle_from hinv ((Sched.readyTasks_idleFor _ _).trans hready)
  rcases hend with ⟨-, happ⟩ | ⟨hnext, -⟩
  · have hrun := hr.append hr'
    have hall := (hkernel.append hkernel').not_atLimit hs.inv hcounts hrun
    exact ⟨tr', v, hrun, hticks', happ, fun e he => hall e (by simp [he]), fun tr'' v' hr'' =>
      (hkernel.append hkernel').suffix hrun hr''⟩
  · exact absurd ((Machine.quiet_idleFor hquiet Nat.one_pos).mp hnext) hdue

/-- A task sleeps for three ticks while a timer of period five is armed. -/
def dozingSetup : List (Action Config.default) :=
  [.call (.task (.create 1 0x100#64)),
    .call (.timer (.softCreate .periodic 5#32 0x200#64 0#64)),
    .call (.timer (.softStart (some ⟨0, Config.default.softTimerCount_pos⟩))), .run 9] ++
    cycleActions _ ++ [.call (.task (.sleep 3)), .ret]

theorem idle_stretch_dozingSetup :
    let s := (System.after _ dozingSetup).2
    ∃ tr, Run step s tr ⟨s.machine.idleFor 2, .cycleTop 6⟩ ∧ ShowsIdle tr ∧ ticks tr = 2 ∧
      (∀ tr' v, Run step s tr' v → tr' <:+ tr ∨ tr <:+ tr') ∧ (∀ e ∈ tr, atLimit e = false) ∧
      ∃ tr' v, Run step s (tr' ++ tr) v ∧ ticks tr' = 1 ∧ v.phase.application = true := by
  intro s
  have hphase : s.phase = .cycleTop 8 := by decide +kernel
  have hready : s.machine.sched.readyTasks = ∅ := by decide +kernel
  have hcounts : s.machine.sched.CountsDown := by
    unfold Sched.CountsDown
    decide +kernel
  have hquiet : s.machine.Quiet 2 := ⟨by decide +kernel, by decide +kernel⟩
  have hdue : ¬ s.machine.Quiet 3 := fun h =>
    absurd (h.sleepers 0 (by decide +kernel) (by decide +kernel) (by decide)) (by decide +kernel)
  obtain ⟨tr, hr, hidle, hticks, honly, hlimit, hnext⟩ :=
    idle_stretch (System.after_reachable _) hphase hready hcounts (by decide) hquiet
  obtain ⟨tr', v, hr', hticks', happ, -⟩ := hnext (by decide) hdue
  exact ⟨tr, hr, hidle, hticks, honly, hlimit, tr', v, hr', hticks', happ⟩

end MiniRtos
