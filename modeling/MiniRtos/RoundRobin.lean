import MiniRtos.BoundedBypass
import MiniRtos.TurnTaking

/-!
# Exact round robin

When no task changes a state, the tasks of the highest priority take turns. Among them
the queue is their list in creation order, rotated once for each turn that is over: the
task of the current turn stands at its end, or is missing while it runs. The slice
counter of that task is the number of ticks its turn has had. Tasks of lower priority
are in the queue too and never come first in it.
-/
namespace MiniRtos
open TransitionSystem QueueOrder TurnTaking
variable {cfg : Config}

namespace Sched
variable {s s' : Sched cfg} {active active' : CPUContext} {top rest : List ℕ} {b : Branch}
  {t c u d : ℕ}

/-- The tasks of the highest priority, in the order in which they were created. -/
def topTasks (s : Sched cfg) : List ℕ :=
  (List.range s.taskCount).filter fun i => ∀ j < s.taskCount, s.prio j ≤ s.prio i

theorem mem_topTasks {i : ℕ} :
    i ∈ s.topTasks ↔ i < s.taskCount ∧ ∀ j < s.taskCount, s.prio j ≤ s.prio i := by
  simp [topTasks]

theorem topTasks_ne_nil (h : 0 < s.taskCount) : s.topTasks ≠ [] := by
  cases hm : (List.range s.taskCount).argmax s.prio with
  | none =>
      have hempty := congrArg List.length (List.argmax_eq_none.mp hm)
      rw [List.length_range, List.length_nil] at hempty
      omega
  | some t =>
      have ht : t ∈ s.topTasks := mem_topTasks.mpr ⟨List.mem_range.mp (List.argmax_mem hm),
        fun j hj => List.le_of_mem_argmax (List.mem_range.mpr hj) hm⟩
      exact List.ne_nil_of_mem ht

theorem topTasks_nodup (s : Sched cfg) : s.topTasks.Nodup := List.nodup_range.filter _

/-- Their places in the ready queue. -/
def placesOf (s : Sched cfg) (top : List ℕ) : List ℕ := s.readyQueue.filter (· ∈ top)

def AllReady (s : Sched cfg) : Prop := ∀ i < s.taskCount, (s.taskList i).state = .ready

/-- Task `c` has the turn in which tick `u` falls, counted from 0, and the others follow. -/
structure OnTurn (s : Sched cfg) (top : List ℕ) (u c : ℕ) (rest : List ℕ) : Prop where
  ring : top.rotate (u / cfg.rtosTimeSliceTicks) = c :: rest
  current : s.currentTaskIndex = c
  slice : rest ≠ [] → s.slice c = u % cfg.rtosTimeSliceTicks + 1

/-- Between two cycles, after `d` decisions. -/
def Waiting (s : Sched cfg) (top : List ℕ) : ℕ → Prop
  | 0 => s.currentTaskIndex = -1 ∧ s.placesOf top = top
  | u + 1 => ∃ c rest, s.OnTurn top u c rest ∧ s.placesOf top = rest ++ [c]

/-- What the rotation depends on. -/
structure SameTurn (s s' : Sched cfg) : Prop where
  taskCount : s'.taskCount = s.taskCount
  current : s'.currentTaskIndex = s.currentTaskIndex
  readyQueue : s'.readyQueue = s.readyQueue
  state : ∀ i < s.taskCount, (s'.taskList i).state = (s.taskList i).state
  prio : ∀ i < s.taskCount, s'.prio i = s.prio i
  slice : ∀ i < s.taskCount, s'.slice i = s.slice i

theorem SameTurn.refl (s : Sched cfg) : SameTurn s s :=
  ⟨rfl, rfl, rfl, fun _ _ => rfl, fun _ _ => rfl, fun _ _ => rfl⟩

theorem topTasks_congr (hcount : s'.taskCount = s.taskCount)
    (hprio : ∀ i < s.taskCount, s'.prio i = s.prio i) : s'.topTasks = s.topTasks := by
  unfold topTasks
  rw [hcount]
  refine List.filter_congr fun i hi => ?_
  rw [decide_eq_decide]
  refine forall₂_congr fun j hj => ?_
  rw [hprio j hj, hprio i (List.mem_range.mp hi)]

theorem OnTurn.mem (h : s.OnTurn top u c rest) : c ∈ top := by
  have hc : c ∈ top.rotate (u / cfg.rtosTimeSliceTicks) := by
    rw [h.ring]
    exact List.mem_cons_self
  exact List.mem_rotate.mp hc

theorem OnTurn.notMem (h : s.OnTurn top u c rest) (hn : top.Nodup) : c ∉ rest := by
  have hring : (top.rotate (u / cfg.rtosTimeSliceTicks)).Nodup := List.nodup_rotate.mpr hn
  rw [h.ring] at hring
  exact (List.nodup_cons.mp hring).1

theorem SameTurn.onTurn (h : SameTurn s s') (ht : s.OnTurn s.topTasks u c rest) :
    s'.OnTurn s.topTasks u c rest where
  ring := ht.ring
  current := h.current.trans ht.current
  slice hne := (h.slice c (mem_topTasks.mp ht.mem).1).trans (ht.slice hne)

theorem SameTurn.waiting (h : SameTurn s s') (hw : s.Waiting s.topTasks d) :
    s'.Waiting s.topTasks d := by
  have hplaces : s'.placesOf s.topTasks = s.placesOf s.topTasks := by
    rw [placesOf, h.readyQueue, placesOf]
  cases d with
  | zero => exact ⟨h.current.trans hw.1, hplaces.trans hw.2⟩
  | succ u =>
      obtain ⟨c, rest, ht, hp⟩ := hw
      exact ⟨c, rest, h.onTurn ht, hplaces.trans hp⟩

theorem placesOf_erase (top : List ℕ) (hq : s'.readyQueue = s.readyQueue.erase t) :
    s'.placesOf top = (s.placesOf top).erase t := by
  rw [placesOf, hq, placesOf, List.erase_filter]

/-- In a queue of all tasks the first choice is the first of the highest priority. -/
theorem AllReady.head_places (hall : s.AllReady) (h : s.WellFormed) {best : ℕ}
    (hb : s.readyQueue.argmax s.prio = some best) :
    (s.placesOf s.topTasks).head? = some best := by
  refine argmax_eq_head_filter hb fun x hx => ?_
  have hlt := (h.mem_queue.mp hx).1
  rw [decide_eq_true_iff, mem_topTasks]
  constructor
  · intro htop y hy
    exact htop.2 y (h.mem_queue.mp hy).1
  · intro hmax
    exact ⟨hlt, fun j hj => hmax j (h.mem_queue.mpr ⟨hj, hall j hj⟩)⟩

/-- The current task is READY and nobody has a higher priority, so that a switch between
two cycles is the first one or comes with the end of a slice. -/
theorem SwitchGuard.expired (hall : s.AllReady) (g : s.SwitchGuard t b)
    (hc : s.currentTaskIndex = c) (hct : c ∈ s.topTasks) (ht : t < s.taskCount) :
    b = .sliceExpired ∧ cfg.rtosTimeSliceTicks ≤ s.slice c ∧ t ≠ c := by
  obtain ⟨hlt, hmax⟩ := mem_topTasks.mp hct
  have hcur : s.rtosCurrentTask = some c := s.rtosCurrentTask_eq_some.mpr ⟨hc, hlt⟩
  cases g with
  | firstTick hn =>
      rw [hcur] at hn
      cases hn
  | forced hc' hst =>
      obtain rfl := Option.some.inj (hcur.symm.trans hc')
      exact absurd (hall c hlt) hst
  | preempted hc' _ hp =>
      obtain rfl := Option.some.inj (hcur.symm.trans hc')
      exact absurd hp (not_lt.mpr (hmax t ht))
  | sliceExpired hc' _ _ hslice hne =>
      obtain rfl := Option.some.inj (hcur.symm.trans hc')
      exact ⟨rfl, hslice, hne⟩

theorem SwitchGuard.ne_continued (g : s.SwitchGuard t b) : b ≠ .continued := by
  cases g <;> simp

/-- What the decision of tick `d` leads to: the task whose turn it is runs, and was
switched in exactly when it did not have the turn before. -/
structure TakesTurn (s' : Sched cfg) (top : List ℕ) (d t : ℕ) (b : Branch) : Prop where
  exists_rest : ∃ rest, s'.OnTurn top d t rest ∧ s'.placesOf top = rest
  continued_iff : b = .continued ↔ d ≠ 0 ∧
    turn cfg.rtosTimeSliceTicks top.length d = turn cfg.rtosTimeSliceTicks top.length (d - 1)

theorem Decides.firstTurn (h : s.WellFormed) (hall : s.AllReady) (hw : s.Waiting s.topTasks 0)
    (dec : s.Decides active (some (b, t), s', active')) : s'.TakesTurn s.topTasks 0 t b := by
  obtain ⟨hcur, hplaces⟩ := hw
  have hnone : s.rtosCurrentTask = none := by simp [Sched.rtosCurrentTask, hcur]
  have hq := placesOf_erase s.topTasks (dec.readyQueue h)
  cases dec.slice.1 with
  | goesOn hc => simp [hnone] at hc
  | begins hb hg hslice =>
      have hhead := hall.head_places h hb
      rw [hplaces] at hhead
      cases htop : s.topTasks with
      | nil => simp [htop] at hhead
      | cons x rest =>
          obtain rfl : x = t := by simpa [htop] using hhead
          constructor
          · refine ⟨rest, ⟨?_, (dec.runs h).current, ?_⟩, ?_⟩
            · rw [Nat.zero_div, List.rotate_zero]
            · intro _
              rw [hslice, Nat.zero_mod]
            · rw [← htop, hq, hplaces, htop, List.erase_cons_head]
          · simp [hg.ne_continued]

theorem OnTurn.length (hturn : s.OnTurn top u c rest) : rest.length + 1 = top.length := by
  rw [← top.length_rotate (u / cfg.rtosTimeSliceTicks), hturn.ring]
  rfl

/-- At the end of a slice the turn passes to the next of the ring. -/
theorem OnTurn.passes (hturn : s.OnTurn top u c (x :: rest))
    (hused : cfg.rtosTimeSliceTicks ≤ u % cfg.rtosTimeSliceTicks + 1)
    (hcur : s'.currentTaskIndex = x) (hslice : s'.slice x = 1) :
    s'.OnTurn top (u + 1) x (rest ++ [c]) := by
  obtain ⟨hdiv, hmod⟩ := moves cfg.timeSlice_pos hused
  refine ⟨?_, hcur, ?_⟩
  · rw [hdiv, rotate_succ hturn.ring]
    rfl
  · intro _
    rw [hslice, hmod]

/-- Within a slice, and for a task without peers, the turn stays where it is. -/
theorem OnTurn.keeps (hturn : s.OnTurn top u c rest)
    (hused : rest ≠ [] → u % cfg.rtosTimeSliceTicks + 1 < cfg.rtosTimeSliceTicks)
    (hcur : s'.currentTaskIndex = c)
    (hnext : (s'.taskList c).sliceTicksUsed = (s.taskList c).sliceTicksUsed + 1#32) :
    s'.OnTurn top (u + 1) c rest := by
  refine ⟨?_, hcur, ?_⟩
  · by_cases hempty : rest = []
    · subst hempty
      exact rotate_eq_singleton hturn.ring _
    · rw [(stays (hused hempty)).1]
      exact hturn.ring
  · intro hne
    have huint := cfg.timeSlice_uint
    have hold := hturn.slice hne
    have hstay := hused hne
    have hsucc : s'.slice c = (s.slice c + 1) % 2 ^ 32 := by
      rw [Sched.slice, hnext, BitVec.toNat_add]
      rfl
    rw [hsucc, hold, (stays hstay).2, Nat.mod_eq_of_lt (by omega)]

theorem Decides.nextTurn (h : s.WellFormed) (hall : s.AllReady)
    (hw : s.Waiting s.topTasks (u + 1)) (dec : s.Decides active (some (b, t), s', active')) :
    s'.TakesTurn s.topTasks (u + 1) t b := by
  obtain ⟨c, rest, hturn, hplaces⟩ := hw
  have hq := placesOf_erase s.topTasks (dec.readyQueue h)
  have hcur := (dec.runs h).current
  have hlength := hturn.length
  have hiff := turn_succ_eq_iff (u := u) cfg.timeSlice_pos (k := s.topTasks.length) (by omega)
  have hnot := hturn.notMem s.topTasks_nodup
  rw [hplaces] at hq
  cases dec.slice.1 with
  | begins hb hg hslice =>
      -- the slice is used up, and the next of the ring heads the queue
      have hlt := (h.mem_queue.mp (List.argmax_mem hb)).1
      obtain ⟨-, hused, hne⟩ := hg.expired hall hturn.current hturn.mem hlt
      have hhead := hall.head_places h hb
      rw [hplaces] at hhead
      cases rest with
      | nil => exact absurd (by simpa using hhead) hne.symm
      | cons x rest =>
          obtain rfl : x = t := by simpa using hhead
          rw [hturn.slice (by simp)] at hused
          constructor
          · refine ⟨rest ++ [c], hturn.passes hused hcur hslice, ?_⟩
            rw [hq, List.cons_append, List.erase_cons_head]
          · rw [Nat.add_sub_cancel, hiff]
            simp only [List.length_cons] at hlength
            have hno : ¬ (s.topTasks.length = 1 ∨ u % cfg.rtosTimeSliceTicks + 1 <
                cfg.rtosTimeSliceTicks) := by omega
            simp [hg.ne_continued, hno]
  | @goesOn best hc hb hslice hnext =>
      obtain rfl : t = c := by
        have hct := (s.rtosCurrentTask_eq_some.mp hc).1
        have hcc := hturn.current
        omega
      have hused : rest ≠ [] → u % cfg.rtosTimeSliceTicks + 1 < cfg.rtosTimeSliceTicks := by
        intro hne
        have hbest : best ≠ t := by
          rintro rfl
          have hhead := hall.head_places h hb
          obtain ⟨x, tail, rfl⟩ := List.exists_cons_of_ne_nil hne
          rw [hplaces] at hhead
          simp only [List.cons_append, List.head?_cons, Option.some.injEq] at hhead
          exact hnot (by simp [hhead])
        rw [← hturn.slice hne]
        exact hslice.resolve_right hbest
      constructor
      · refine ⟨rest, hturn.keeps hused hcur hnext, ?_⟩
        rw [hq, List.erase_append_right _ hnot, List.erase_cons_head, List.append_nil]
      · rw [Nat.add_sub_cancel, hiff]
        have hyes : s.topTasks.length = 1 ∨ u % cfg.rtosTimeSliceTicks + 1 <
            cfg.rtosTimeSliceTicks := by
          by_cases hempty : rest = []
          · left
            rw [← hlength, hempty]
            rfl
          · exact .inr (hused hempty)
        simp [hyes]

/-- When its function returns, the task goes to the end of the queue. -/
theorem OnTurn.returns (h : s.WellFormed) (hturn : s.OnTurn s.topTasks u t rest)
    (hplaces : s.placesOf s.topTasks = rest)
    (hstate : ∀ i < s.taskCount, (s.taskList i).state = if i = t then .running else .ready) :
    (s.taskReturned t).AllReady ∧ (s.taskReturned t).topTasks = s.topTasks ∧
      (s.taskReturned t).Waiting s.topTasks (u + 1) := by
  have hlt := (mem_topTasks.mp hturn.mem).1
  have hrun : (s.taskList t).state = .running := by rw [hstate t hlt, if_pos rfl]
  have hsame := s.taskReturned_sameTask t
  have hqueue : (s.taskReturned t).readyQueue = s.readyQueue.erase t ++ [t] := by
    rw [Sched.taskReturned, if_pos hrun, h.toShape.setTaskState_readyQueue hlt, if_pos rfl]
  refine ⟨?_, ?_, t, rest, ?_, ?_⟩
  · intro i hi
    rw [taskReturned_taskCount] at hi
    rw [Sched.taskReturned, if_pos hrun]
    by_cases hit : i = t
    · rw [hit, s.setTaskState_self hlt]
      rfl
    · rw [s.setTaskState_of_ne (by exact_mod_cast hit), hstate i hi, if_neg hit]
  · exact topTasks_congr (s.taskReturned_taskCount t) fun i _ => (hsame i).priority
  · refine ⟨hturn.ring, ?_, fun hne => ?_⟩
    · rw [taskReturned_currentTaskIndex]
      exact hturn.current
    · rw [Sched.slice, (hsame t).sliceTicksUsed]
      exact hturn.slice hne
  · have hout : t ∉ s.readyQueue := by
      intro hm
      have hready := (h.mem_queue.mp hm).2
      rw [hrun] at hready
      cases hready
    rw [placesOf, hqueue, List.erase_of_not_mem hout, List.filter_append]
    have hself : [t].filter (· ∈ s.topTasks) = [t] := by simp [hturn.mem]
    rw [hself]
    exact congrArg (· ++ [t]) hplaces

end Sched

/-- Every decision that called a task, the first one first: whether there was a context
switch, and the task. -/
def dispatches : History cfg → List (Bool × ℕ)
  | [] => []
  | e :: tr =>
      match e.obs with
      | .taskCalled b t => dispatches tr ++ [(decide (b ≠ .continued), t)]
      | _ => dispatches tr

/-- What tick `u + 1` runs, with slices of `n` ticks. -/
def roundRobin (n : ℕ) (top : List ℕ) (u : ℕ) : Bool × ℕ :=
  (decide (u = 0 ∨ turn n top.length u ≠ turn n top.length (u - 1)),
    top.getD (turn n top.length u) 0)

/-- A call changes no task's state and no place in the ready queue, and creates no task. -/
structure KeepsStates (m m' : Machine cfg) : Prop where
  taskCount : m'.sched.taskCount = m.sched.taskCount
  readyQueue : m'.sched.readyQueue = m.sched.readyQueue
  state : ∀ i < m.sched.taskCount, (m'.sched.taskList i).state = (m.sched.taskList i).state

instance (m m' : Machine cfg) : Decidable (KeepsStates m m') :=
  decidable_of_iff (m'.sched.taskCount = m.sched.taskCount ∧
      m'.sched.readyQueue = m.sched.readyQueue ∧
      ∀ i < m.sched.taskCount, (m'.sched.taskList i).state = (m.sched.taskList i).state)
    ⟨fun ⟨h₁, h₂, h₃⟩ => ⟨h₁, h₂, h₃⟩, fun h => ⟨h.taskCount, h.readyQueue, h.state⟩⟩

def isCall : Action cfg → Bool
  | .call _ => true
  | _ => false

def createsTask : Action cfg → Bool
  | .call (.task (.create _ _)) => true
  | _ => false

/-- The step is not `rtos_init`, and if it is a call it keeps all states. -/
def Undisturbed (e : Edge cfg) : Prop :=
  e.act ≠ .init ∧ (isCall e.act → KeepsStates e.src.machine e.dst.machine)

instance (e : Edge cfg) : Decidable (Undisturbed e) :=
  inferInstanceAs (Decidable (_ ∧ (_ → _)))

/-- The main program creates a task, or makes another call that keeps all states. -/
def SetsUp (e : Edge cfg) : Prop :=
  createsTask e.act ∨ isCall e.act ∧ KeepsStates e.src.machine e.dst.machine

instance (e : Edge cfg) : Decidable (SetsUp e) := inferInstanceAs (Decidable (_ ∨ _))

/-- Where the rotation stands after `d` decisions. -/
inductive Stands (top : List ℕ) (u : System cfg) : ℕ → Prop
  | waiting {d : ℕ} : (∀ left t, u.phase ≠ .task left t) → u.machine.sched.AllReady →
      u.machine.sched.Waiting top d → Stands top u d
  | running {d left t : ℕ} {rest : List ℕ} : u.phase = .task left t →
      u.machine.sched.OnTurn top d t rest → u.machine.sched.placesOf top = rest →
      (∀ i < u.machine.sched.taskCount,
        (u.machine.sched.taskList i).state = if i = t then .running else .ready) →
      Stands top u (d + 1)

section Steps
variable {u w : System cfg} {a : Action cfg} {o : Observation cfg} {top : List ℕ} {d : ℕ}

theorem Machine.exec_sameTurn {m m' : Machine cfg} {c : Call cfg} {v : Value}
    (h : m.exec c = some (v, m')) (hk : KeepsStates m m') : Sched.SameTurn m.sched m'.sched := by
  have hsched := Machine.exec_sched h
  have hsame : ∀ i < m.sched.taskCount,
      Sched.SameTask (m.sched.taskList i) (m'.sched.taskList i) := by
    intro i hi
    rw [hsched]
    exact Effect.apply_sameTask _ _ hi
  constructor
  · exact hk.taskCount
  · rw [hsched, Effect.apply_currentTaskIndex]
  · exact hk.readyQueue
  · exact hk.state
  · exact fun i hi => (hsame i hi).priority
  · exact fun i hi => congrArg BitVec.toNat (hsame i hi).sliceTicksUsed

theorem Stands.congr (h : Stands top u d) (hs : Sched.SameTurn u.machine.sched w.machine.sched)
    (htop : u.machine.sched.topTasks = top)
    (hp : ∀ left t, w.phase = .task left t ↔ u.phase = .task left t) : Stands top w d := by
  subst htop
  cases h with
  | waiting hno hall hw =>
      refine .waiting (fun left t hwp => hno left t ((hp left t).mp hwp)) ?_ (hs.waiting hw)
      intro i hi
      rw [hs.taskCount] at hi
      rw [hs.state i hi]
      exact hall i hi
  | running hup hturn hplaces hstate =>
      refine .running ((hp _ _).mpr hup) (hs.onTurn hturn) ?_ ?_
      · rw [Sched.placesOf, hs.readyQueue]
        exact hplaces
      · intro i hi
        rw [hs.taskCount] at hi
        rw [hs.state i hi]
        exact hstate i hi

/-- Only a decision and the return of a task function move the rotation. -/
theorem StepCases.sameTurn (h : StepCases u a o w)
    (hk : Undisturbed (⟨u, a, o, w⟩ : Edge cfg)) (hst : Stands top u d)
    (hd : ∀ left, u.phase ≠ .decide left)
    (hr : a = .ret → ∀ left t, u.phase ≠ .task left t) :
    Sched.SameTurn u.machine.sched w.machine.sched ∧
      ∀ left t, w.phase = .task left t ↔ u.phase = .task left t := by
  cases h with
  | init => exact absurd rfl hk.1
  | call _ hexec => exact ⟨Machine.exec_sameTurn hexec (hk.2 rfl), fun _ _ => Iff.rfl⟩
  | taskReturned hp => exact absurd hp (hr rfl _ _)
  | idle hp | taskCalled hp => exact absurd hp (hd _)
  | tick hp =>
      have hall : u.machine.sched.AllReady := by
        cases hst with
        | waiting _ hall _ => exact hall
        | running hp' => simp [hp] at hp'
      have hsleep := Sched.timerUpdateSleep_of_no_blocked fun i hi => by
        rw [hall i hi]
        decide
      refine ⟨?_, by simp [hp]⟩
      rw [hsleep]
      exact .refl _
  | run hp | callbackReturned hp | runDone hp | slotSkipped hp | callbackCalled hp
  | passDone hp => exact ⟨.refl _, by simp [hp]⟩

/-- The history so far is that of round robin. -/
structure Rotates (top : List ℕ) (tr : History cfg) (u : System cfg) : Prop where
  inv : Inv u
  topTasks : u.machine.sched.topTasks = top
  stands : Stands top u (dispatches tr).length
  log : dispatches tr =
    (List.range (dispatches tr).length).map (roundRobin cfg.rtosTimeSliceTicks top)
  ticks : (dispatches tr).length + u.phase.undecided = ticks tr

theorem dispatches_of_ne {e : Edge cfg} (tr : History cfg) (h : ∀ b t, e.obs ≠ .taskCalled b t) :
    dispatches (e :: tr) = dispatches tr := by
  cases ho : e.obs with
  | taskCalled b t => exact absurd ho (h b t)
  | _ => simp [dispatches, ho]

theorem Stands.takesTurn (h : Stands top u d) (hu : Inv u)
    (htop : u.machine.sched.topTasks = top) {left t : ℕ} {b : Sched.Branch} {s' : Sched cfg}
    {active active' : CPUContext} (hp : u.phase = .decide left)
    (hd : u.machine.sched.Decides active (some (b, t), s', active')) :
    s'.TakesTurn top d t b ∧
      ∀ i < s'.taskCount, (s'.taskList i).state = if i = t then .running else .ready := by
  have hruns := hd.runs hu.wellFormed
  subst htop
  cases h with
  | running hp' => simp [hp] at hp'
  | waiting _ hall hw =>
      constructor
      · cases d with
        | zero => exact hd.firstTurn hu.wellFormed hall hw
        | succ d => exact hd.nextTurn hu.wellFormed hall hw
      · intro i hi
        rw [hruns.taskCount] at hi
        have hstatus := congrArg Prod.fst (hruns.status i)
        by_cases hit : i = t
        · rw [if_pos hit] at hstatus ⊢
          exact hstatus
        · rw [if_neg hit] at hstatus ⊢
          exact hstatus.trans (hall i hi)

/-- While there is a task, the queue is not empty between two cycles. -/
theorem Stands.not_idle (h : Stands top u d) (hne : top ≠ []) {left : ℕ}
    (hp : u.phase = .decide left) : u.machine.sched.readyQueue ≠ [] := by
  intro hempty
  have hplaces : u.machine.sched.placesOf top = [] := by rw [Sched.placesOf, hempty]; rfl
  cases h with
  | running hp' => simp [hp] at hp'
  | waiting _ _ hw =>
      cases d with
      | zero => exact hne (hw.2.symm.trans hplaces)
      | succ d =>
          obtain ⟨c, rest, -, hrest⟩ := hw
          simp [hplaces] at hrest

theorem Rotates.decision {tr : History cfg} (h : Rotates top tr u) (hne : top ≠ []) {left : ℕ}
    (hp : u.phase = .decide left) (hs : StepCases u a o w) (hw : Inv w) :
    Rotates top (⟨u, a, o, w⟩ :: tr) w := by
  have hticks := h.ticks
  rw [hp] at hticks
  obtain ⟨r, hd, ho⟩ := hs.decides h.inv hp
  have htick : isTick (⟨u, a, o, w⟩ : Edge cfg) = false := by simp [isTick, hp]
  cases r with
  | none => exact absurd hd.idles.1 (h.stands.not_idle hne hp)
  | some bt =>
      obtain ⟨b, t⟩ := bt
      have hruns := hd.runs h.inv.wellFormed
      obtain ⟨⟨⟨rest, hturn, hplaces⟩, hcont⟩, hstate⟩ :=
        h.stands.takesTurn h.inv h.topTasks hp hd
      have hphase : w.phase = .task left t := by
        subst ho
        cases hs with
        | taskCalled hp' =>
            obtain rfl : left = _ := by simpa using hp.symm.trans hp'
            rfl
      have hentry : roundRobin cfg.rtosTimeSliceTicks top (dispatches tr).length =
          (decide (b ≠ .continued), t) := by
        rw [roundRobin, List.getD_eq_getElem?_getD, turn, getElem?_of_rotate hturn.ring]
        refine Prod.ext ?_ rfl
        simp only [decide_eq_decide, ne_eq, hcont, not_and_or, not_not]
        rfl
      have hdisp : dispatches (⟨u, a, o, w⟩ :: tr) =
          dispatches tr ++ [(decide (b ≠ .continued), t)] := by
        simp [dispatches, ho]
      have hlength : (dispatches (⟨u, a, o, w⟩ :: tr)).length = (dispatches tr).length + 1 := by
        simp [hdisp]
      constructor
      · exact hw
      · rw [← h.topTasks]
        exact Sched.topTasks_congr hruns.taskCount fun i _ => hruns.priority i
      · rw [hlength]
        exact .running hphase hturn hplaces hstate
      · rw [hlength, List.range_succ, List.map_append, ← h.log, hdisp, List.map_singleton, hentry]
      · rw [hlength, hphase, ticks_cons, htick]
        simp only [Phase.undecided] at hticks ⊢
        simpa using hticks

theorem Rotates.ret {tr : History cfg} (h : Rotates top tr u) {left t : ℕ}
    (hp : u.phase = .task left t) (hs : StepCases u .ret o w) (hw : Inv w) :
    Rotates top (⟨u, .ret, o, w⟩ :: tr) w := by
  have hticks := h.ticks
  rw [hp] at hticks
  have hstands := h.stands
  generalize hd : (dispatches tr).length = d at hstands
  have htop := h.topTasks
  subst htop
  cases hs with
  | callbackReturned hp' => simp [hp] at hp'
  | @taskReturned left' t' hp' =>
      obtain ⟨rfl, rfl⟩ : left' = left ∧ t' = t := by simpa [hp, eq_comm] using hp'
      cases hstands with
      | waiting hno => exact absurd hp (hno _ _)
      | @running d left t rest hp'' hturn hplaces hstate =>
          obtain ⟨rfl, rfl⟩ : left = left' ∧ t = t' := by simpa [hp, eq_comm] using hp''
          obtain ⟨hall, htop, hwaiting⟩ := hturn.returns h.inv.wellFormed hplaces hstate
          constructor
          · exact hw
          · exact htop
          · refine .waiting (by simp) hall ?_
            change Sched.Waiting _ _ (dispatches tr).length
            rw [hd]
            exact hwaiting
          · exact h.log
          · rw [ticks_cons]
            simpa [isTick, hp, Phase.undecided, dispatches] using hticks

theorem Rotates.step {tr : History cfg} (h : Rotates top tr u) (hne : top ≠ [])
    (hk : Undisturbed (⟨u, a, o, w⟩ : Edge cfg)) (hs : MiniRtos.step u a = some (o, w)) :
    Rotates top (⟨u, a, o, w⟩ :: tr) w := by
  have hw := h.inv.step hs
  have hcases := step_cases hs
  by_cases hd : ∃ left, u.phase = .decide left
  · obtain ⟨left, hp⟩ := hd
    exact h.decision hne hp hcases hw
  by_cases hr : a = .ret ∧ ∃ left t, u.phase = .task left t
  · obtain ⟨rfl, left, t, hp⟩ := hr
    exact h.ret hp hcases hw
  push Not at hd hr
  obtain ⟨hsame, hphase⟩ := hcases.sameTurn hk h.stands hd hr
  have hobs : ∀ b t, o ≠ .taskCalled b t := by
    rintro b t rfl
    cases hcases with
    | taskCalled hp => exact hd _ hp
  have hdisp : dispatches (⟨u, a, o, w⟩ :: tr) = dispatches tr := dispatches_of_ne tr hobs
  have hticks := h.ticks
  constructor
  · exact hw
  · rw [← h.topTasks]
    exact Sched.topTasks_congr hsame.taskCount hsame.prio
  · rw [hdisp]
    exact h.stands.congr hsame h.topTasks hphase
  · rw [hdisp]
    exact h.log
  · rw [hdisp, ticks_cons]
    cases hcases with
    | idle hp | taskCalled hp => exact absurd hp (hd _)
    | taskReturned hp => exact absurd hp (hr rfl _ _)
    | init => exact absurd rfl hk.1
    | run hp | callbackReturned hp | runDone hp | slotSkipped hp | callbackCalled hp
    | passDone hp | tick hp =>
        rw [hp] at hticks
        simp only [Phase.undecided] at hticks ⊢
        simpa [isTick, hp] using hticks
    | call hp => simpa [isTick] using hticks

end Steps

/-- Before the first cycle, with every task that was created. -/
structure Assembled (u : System cfg) : Prop where
  inv : Inv u
  outside : u.phase = .outside
  current : u.machine.sched.currentTaskIndex = -1
  allReady : u.machine.sched.AllReady
  queue : u.machine.sched.readyQueue = List.range u.machine.sched.taskCount

theorem Initial.assembled {s : System cfg} (h : Initial s) : Assembled s := by
  have hinv := h.inv
  obtain ⟨hp, m, hm⟩ := h
  refine ⟨hinv, hp, ?_, ?_, ?_⟩
  · simp [hm, Machine.rtosInit]
  · intro i hi
    simp [hm, Machine.rtosInit] at hi
  · simp [hm, Machine.rtosInit]

section Setup
variable {u w : System cfg} {a : Action cfg} {o : Observation cfg}

/-- A new task is READY behind all others, unless the table is full. -/
theorem Assembled.create (h : Assembled u) {p : ℤ} {f : BitVec 64} {v : Value} {m : Machine cfg}
    (hexec : u.machine.exec (.task (.create p f)) = some (v, m)) : Assembled ⟨m, u.phase⟩ := by
  have hsched : m.sched = (u.machine.sched.rtosCreateTask p f).2 := Machine.exec_sched hexec
  rw [Sched.rtosCreateTask_sched] at hsched
  have hinv := h.inv.call hexec
  by_cases hfull : cfg.rtosMaxTasks ≤ u.machine.sched.taskCount
  · rw [if_pos hfull] at hsched
    exact ⟨hinv, h.outside, hsched ▸ h.current, hsched ▸ h.allReady, hsched ▸ h.queue⟩
  rw [if_neg hfull] at hsched
  generalize hn : u.machine.sched.taskCount = n at hsched
  have hcount : (u.machine.sched.addTask p f).taskCount = n + 1 := by simp [Sched.addTask, hn]
  have hshape := h.inv.wellFormed.toShape.addTask (by omega) p f
  have hqueue : (u.machine.sched.addTask p f).readyQueue = List.range n :=
    h.queue.trans (by rw [hn])
  constructor
  · exact hinv
  · exact h.outside
  · simp only [hsched, Sched.setTaskState_currentTaskIndex]
    exact h.current
  · intro i hi
    simp only [hsched, Sched.setTaskState_taskCount, hcount] at hi
    simp only [hsched]
    by_cases hin : i = n
    · rw [hin, Sched.setTaskState_self _ (by omega)]
      rfl
    · rw [Sched.setTaskState_of_ne _ (by exact_mod_cast hin),
        u.machine.sched.addTask_of_ne p f (by omega)]
      exact h.allReady i (by omega)
  · simp only [hsched, Sched.setTaskState_taskCount, hcount]
    rw [hshape.setTaskState_readyQueue (by omega), if_pos rfl, hqueue,
      List.erase_of_not_mem (by simp), List.range_succ]

theorem Assembled.step (h : Assembled u) (hset : SetsUp (⟨u, a, o, w⟩ : Edge cfg))
    (hs : MiniRtos.step u a = some (o, w)) : Assembled w := by
  have hw := h.inv.step hs
  have hcases := step_cases hs
  rcases hset with hcreate | ⟨hcall, hkeeps⟩
  · cases hcases with
    | @call c v m happ hexec =>
        cases c with
        | task c =>
            cases c with
            | create p f => exact h.create hexec
            | _ => cases hcreate
        | _ => cases hcreate
    | _ => cases hcreate
  · cases hcases with
    | call happ hexec =>
        have hsame := Machine.exec_sameTurn hexec hkeeps
        refine ⟨hw, h.outside, hsame.current.trans h.current, ?_, ?_⟩
        · intro i hi
          rw [hsame.taskCount] at hi
          exact (hsame.state i hi).trans (h.allReady i hi)
        · rw [hsame.readyQueue, hsame.taskCount]
          exact h.queue
    | _ => cases hcall

theorem Assembled.rotates (h : Assembled u) : Rotates u.machine.sched.topTasks [] u where
  inv := h.inv
  topTasks := rfl
  stands := by
    refine .waiting (by simp [h.outside]) h.allReady ⟨h.current, ?_⟩
    rw [Sched.placesOf, h.queue]
    refine List.filter_congr fun i hi => ?_
    rw [decide_eq_decide, Sched.mem_topTasks]
    exact and_iff_right (List.mem_range.mp hi)
  log := rfl
  ticks := by simp [dispatches, h.outside, Phase.undecided]

end Setup

/-- With slices of `n` ticks and the highest tasks in creation order, tick `t` runs number
`(t - 1) / n` modulo their number, with a context switch in the first tick and when that
number changes; between the task functions every task is READY. -/
theorem exact_round_robin {s₀ s v : System cfg} {setup tr : History cfg} (hs₀ : Initial s₀)
    (hsetup : Run step s₀ setup s) (hset : ∀ e ∈ setup, SetsUp e)
    (hpos : 0 < s.machine.sched.taskCount) (h : Run step s tr v)
    (hk : ∀ e ∈ tr, Undisturbed e) :
    dispatches tr = (List.range (dispatches tr).length).map
        (roundRobin cfg.rtosTimeSliceTicks s.machine.sched.topTasks) ∧
      (dispatches tr).length + v.phase.undecided = ticks tr ∧
      ((∀ left t, v.phase ≠ .task left t) → v.machine.sched.AllReady) := by
  have hassembled : Assembled s :=
    hsetup.invariant_on hs₀.assembled hset fun _ _ _ _ hu hok hs => hu.step hok hs
  have hrotates : Rotates s.machine.sched.topTasks tr v :=
    h.history_invariant hassembled.rotates (.of_forall hk)
      fun _ _ _ _ _ hu hok hs => hu.step (Sched.topTasks_ne_nil hpos) hok hs
  refine ⟨hrotates.log, hrotates.ticks, fun hno => ?_⟩
  have hstands := hrotates.stands
  generalize (dispatches tr).length = d at hstands
  cases hstands with
  | waiting _ hall _ => exact hall
  | running hp => exact absurd hp (hno _ _)

/-- Two tasks of priority 5 and one of priority 1, for three ticks. -/
def peersSetup : List (Action Config.default) :=
  [.call (.task (.create 5 0x1000#64)), .call (.task (.create 1 0x2000#64)),
    .call (.task (.create 5 0x3000#64))]

def peersTicks : List (Action Config.default) :=
  [.run 3] ++ cycleActions _ ++ [.ret] ++ cycleActions _ ++ [.ret] ++ cycleActions _ ++ [.ret]

theorem exact_round_robin_peers :
    let s := (System.after _ peersSetup).2
    let r := played step s peersTicks
    dispatches r.1 = [(true, 0), (true, 2), (true, 0)] ∧
      dispatches r.1 = (List.range (dispatches r.1).length).map
        (roundRobin 1 s.machine.sched.topTasks) ∧
      (dispatches r.1).length + r.2.phase.undecided = ticks r.1 ∧
      ((∀ left t, r.2.phase ≠ .task left t) → r.2.machine.sched.AllReady) := by
  have hset : ∀ e ∈ (System.after _ peersSetup).1, SetsUp e := by decide +kernel
  have hk : ∀ e ∈ (played step (System.after _ peersSetup).2 peersTicks).1, Undisturbed e := by
    decide +kernel
  constructor
  · decide +kernel
  · exact exact_round_robin (System.boot_initial _) (run_played _ peersSetup) hset
      (by decide +kernel) (run_played _ peersTicks) hk

end MiniRtos
