import Mathlib.Algebra.Order.BigOperators.Group.Finset
import MiniRtos.PeriodicTask

/-!
# Response time

A READY task waits for its peers and for tasks of higher priority. What its peers can use
before it is bounded as if the others were not there, since a task that is switched out
within its slice has its place behind the waiting one. The rest of the wait is made up of
executions of tasks of higher priority, and tasks that sleep between their executions can
have only so many of them in a given number of cycles.
-/
namespace MiniRtos
open TransitionSystem QueueOrder
variable {cfg : Config}

namespace Sched
variable {s s' u : Sched cfg} {active active' : CPUContext} {x : ℕ}

/-- The cycles that tasks of the priority of `x` can still use before it. A current task of
another priority has no slice to finish. -/
def peerRank (s : Sched cfg) (x : ℕ) : ℕ :=
  match s.rtosCurrentTask with
  | none => s.bypassRank x
  | some c =>
      if s.prio c = s.prio x then s.bypassRank x
      else cfg.rtosTimeSliceTicks * (s.peersAhead x).card

theorem peerRank_of_peer {c : ℕ} (hc : s.rtosCurrentTask = some c) (he : s.prio c = s.prio x) :
    s.peerRank x = s.bypassRank x := by
  simp only [peerRank, hc, if_pos he]

theorem peerRank_of_ne {c : ℕ} (hc : s.rtosCurrentTask = some c) (hne : s.prio c ≠ s.prio x) :
    s.peerRank x = cfg.rtosTimeSliceTicks * (s.peersAhead x).card := by
  simp only [peerRank, hc, if_neg hne]

theorem slices_le_peerRank (s : Sched cfg) (x : ℕ) :
    cfg.rtosTimeSliceTicks * (s.peersAhead x).card ≤ s.peerRank x := by
  have hle : cfg.rtosTimeSliceTicks * (s.peersAhead x).card ≤ s.bypassRank x :=
    Nat.le_add_right _ _
  unfold peerRank
  split
  · exact hle
  · split_ifs
    · exact hle
    · exact le_rfl

theorem peerRank_le (s : Sched cfg) (x : ℕ) : s.peerRank x ≤ s.bypassRank x := by
  unfold peerRank
  split
  · exact le_rfl
  · split_ifs
    · exact le_rfl
    · exact Nat.le_add_right _ _

theorem KeepsPlace.peerRank_le (h : KeepsPlace x s u) (hs : s.Shape) (hx : x ∈ s.readyQueue) :
    u.peerRank x ≤ s.peerRank x := by
  have hbypass := h.bypassRank_le hs hx
  unfold Sched.peerRank
  rw [h.rtosCurrentTask hs]
  cases hc : s.rtosCurrentTask with
  | none => exact hbypass
  | some c =>
      simp only
      rw [h.prio c (s.rtosCurrentTask_eq_some.mp hc).2, h.prio x (hs.bounded x hx)]
      split_ifs
      · exact hbypass
      · exact Nat.mul_le_mul_left _ (Finset.card_le_card (h.peersAhead hs hx))

section Dispatch
variable {b : Branch} {t : ℕ}

/-- A peer that is called while a task of another priority is current begins a slice, and
it gives up its place ahead of `x` for it. -/
theorem Decides.peerRank_fresh (h : s.WellFormed)
    (d : s.Decides active (some (b, t), s', active')) (hx : x ∈ s.readyTasks)
    (hmax : ∀ j ∈ s.readyTasks, s.prio j ≤ s.prio x) (htx : t ≠ x) (htp : s.prio t = s.prio x)
    {c : ℕ} (hc : s.rtosCurrentTask = some c) (hne : s.prio c ≠ s.prio x) :
    s'.bypassRank x + 1 ≤ s.peerRank x := by
  have hcur := d.rtosCurrentTask h
  have hpeers := d.peersAhead h htx
  have hnot : t ∉ s'.peersAhead x := by
    rw [hpeers]
    exact Finset.notMem_erase t _
  have hN := cfg.timeSlice_pos
  cases d.slice.1 with
  | begins hb _ hone =>
      have hcard := Finset.card_erase_add_one (h.argmax_mem_peersAhead hx hmax hb htx)
      rw [bypassRank, hcur, hpeers, peerRank_of_ne hc hne, ← hcard, Nat.mul_add]
      simp only [hpeers ▸ hnot, if_false, hone]
      omega
  | goesOn hc' =>
      obtain rfl : c = t := Option.some.inj (hc.symm.trans hc')
      exact absurd htp hne

/-- Calling a task of higher priority keeps the rank, calling a peer lowers it. -/
theorem Decides.peerRank_le (h : s.WellFormed)
    (d : s.Decides active (some (b, t), s', active')) (hx : x ∈ s.readyTasks) (htx : t ≠ x)
    (hwrap : ∀ c, s.rtosCurrentTask = some c → c ∈ s.peersAhead x → s.slice c + 1 < 2 ^ 32) :
    s'.peerRank x + (if s.prio x < s.prio t then 0 else 1) ≤ s.peerRank x := by
  have hruns := d.runs h
  have hcur := d.rtosCurrentTask h
  have hge : s.prio x ≤ s.prio t := hruns.maximal x (h.mem_queue_iff.mpr hx)
  by_cases habove : s.prio x < s.prio t
  · have hne : s'.prio t ≠ s'.prio x := by
      rw [hruns.priority, hruns.priority]
      exact habove.ne'
    rw [if_pos habove, peerRank_of_ne hcur hne, d.peersAhead h htx, Nat.add_zero]
    exact (Nat.mul_le_mul_left _ (Finset.card_erase_le)).trans (s.slices_le_peerRank x)
  · have htp : s.prio t = s.prio x := le_antisymm (not_lt.mp habove) hge
    have hmax : ∀ j ∈ s.readyTasks, s.prio j ≤ s.prio x := fun j hj =>
      htp ▸ hruns.maximal j (h.mem_queue_iff.mpr hj)
    have hrank := (d.bypassRank_lt h hx hmax htx hwrap).2.2
    have htp' : s'.prio t = s'.prio x := by rwa [hruns.priority, hruns.priority]
    rw [if_neg habove, peerRank_of_peer hcur htp']
    cases hc : s.rtosCurrentTask with
    | none => simpa only [peerRank, hc] using hrank
    | some c =>
        by_cases hcp : s.prio c = s.prio x
        · rwa [peerRank_of_peer hc hcp]
        · exact d.peerRank_fresh h hx hmax htx htp hc hcp

end Dispatch

end Sched

/-- A step in which task `x`, once READY, goes on waiting: no call sets its state and its
function is not called. -/
structure Waits (x : ℕ) (e : Edge cfg) : Prop where
  running : e.act ≠ .init
  untouched : e.act.spares e.src.machine x
  other : x ∉ taskCalls [e]

instance (x : ℕ) (e : Edge cfg) : Decidable (Waits x e) :=
  decidable_of_iff (e.act ≠ .init ∧ e.act.spares e.src.machine x ∧ x ∉ taskCalls [e])
    ⟨fun ⟨h₁, h₂, h₃⟩ => ⟨h₁, h₂, h₃⟩, fun h => ⟨h.running, h.untouched, h.other⟩⟩

/-- The function of a task of higher priority than `x` is called. -/
def callsAbove (x : ℕ) (e : Edge cfg) : Bool :=
  match e.obs with
  | .taskCalled _ t => e.src.machine.sched.prio x < e.src.machine.sched.prio t
  | _ => false

/-- Task `x` is READY, and the slice of a task that is current and ahead of it is not about
to wrap. -/
structure Waiting (x : ℕ) (u : System cfg) : Prop where
  inv : Inv u
  ready : x ∈ u.machine.sched.readyTasks
  room : ∀ c, u.machine.sched.rtosCurrentTask = some c → c ∈ u.machine.sched.peersAhead x →
    u.machine.sched.slice c + 1 < 2 ^ 32

section Steps
variable {u w : System cfg} {a : Action cfg} {o : Observation cfg} {x : ℕ}

theorem Waiting.decide (h : Waiting x u) (hs : step u a = some (o, w))
    (hw : Waits x (⟨u, a, o, w⟩ : Edge cfg)) {left : ℕ} (hp : u.phase = .decide left) :
    Waiting x w ∧ (w.machine.sched.peerRank x +
      if callsAbove x (⟨u, a, o, w⟩ : Edge cfg) then 0 else 1) ≤ u.machine.sched.peerRank x := by
  have hwf := h.inv.wellFormed
  obtain ⟨r, hd, ho⟩ := (step_cases hs).decides h.inv hp
  obtain ⟨b, t, rfl⟩ : ∃ b t, r = some (b, t) := by
    cases r with
    | none =>
        have hempty := (hd.none_iff hwf).mp rfl
        exact absurd h.ready (by simp [hempty])
    | some bt => exact ⟨bt.1, bt.2, rfl⟩
  subst ho
  have htx : t ≠ x := by
    have hother := hw.other
    rintro rfl
    simp [taskCalls] at hother
  have hruns := hd.runs hwf
  have hrank := hd.peerRank_le hwf h.ready htx h.room
  refine ⟨⟨h.inv.step hs, ?_, fun c hc hm => ?_⟩, by simpa [callsAbove] using hrank⟩
  · have hst := hruns.status x
    rw [if_neg htx.symm] at hst
    obtain ⟨hlt, hready⟩ := Sched.mem_readyTasks.mp h.ready
    exact Sched.mem_readyTasks.mpr
      ⟨hruns.taskCount ▸ hlt, (congrArg Prod.fst hst).trans hready⟩
  · have hcur := w.machine.sched.rtosCurrentTask_eq_some.mp hc
    obtain rfl : c = t := by exact_mod_cast hcur.1.symm.trans hruns.current
    rw [hd.peersAhead hwf htx] at hm
    exact absurd hm (Finset.notMem_erase c _)

/-- While `x` waits every step keeps the rank, and the decisions lower it that are not in
favour of a task of higher priority. -/
theorem Waiting.step (h : Waiting x u) (hs : step u a = some (o, w))
    (hw : Waits x (⟨u, a, o, w⟩ : Edge cfg)) :
    Waiting x w ∧ (w.machine.sched.peerRank x +
      if isDecision (⟨u, a, o, w⟩ : Edge cfg) && !callsAbove x (⟨u, a, o, w⟩ : Edge cfg)
        then 1 else 0) ≤ u.machine.sched.peerRank x := by
  by_cases hp : ∃ left, u.phase = .decide left
  · obtain ⟨left, hp⟩ := hp
    have hdec : isDecision (⟨u, a, o, w⟩ : Edge cfg) = true := by simp only [isDecision, hp]
    obtain ⟨hwaiting, hrank⟩ := h.decide hs hw hp
    refine ⟨hwaiting, ?_⟩
    cases hc : callsAbove x (⟨u, a, o, w⟩ : Edge cfg) <;> simpa [hdec, hc] using hrank
  · push Not at hp
    have hshape := h.inv.wellFormed.toShape
    have hxq : x ∈ u.machine.sched.readyQueue := h.inv.wellFormed.mem_queue_iff.mpr h.ready
    have hplace := (step_cases hs).keepsPlace h.inv h.ready hw.running hp hw.untouched
    have hinv := h.inv.step hs
    have hnd : isDecision (⟨u, a, o, w⟩ : Edge cfg) = false := by
      cases hq : u.phase with
      | decide left => exact absurd hq (hp left)
      | _ => simp only [isDecision, hq]
    refine ⟨⟨hinv, hinv.wellFormed.mem_queue_iff.mp hplace.queued, fun c hc hm => ?_⟩, ?_⟩
    · rw [hplace.rtosCurrentTask hshape] at hc
      rw [hplace.slice c (u.machine.sched.rtosCurrentTask_eq_some.mp hc).2]
      exact h.room c hc (hplace.peersAhead hshape hxq hm)
    · simpa [hnd] using hplace.peerRank_le hshape hxq

end Steps

theorem Waiting.start {s₀ s : System cfg} {tr₀ : History cfg} {left x : ℕ} (hs₀ : Initial s₀)
    (h₀ : Run MiniRtos.step s₀ tr₀ s) (hcycles : cyclesSinceInit tr₀ < 2 ^ 32)
    (hp : s.phase = .decide left) (hx : x ∈ s.machine.sched.readyTasks) : Waiting x s := by
  obtain ⟨hs, hb⟩ := SlicesBounded.run hs₀ h₀
  refine ⟨hs, hx, fun c hc _ => ?_⟩
  have hslice := hb.slice c (s.machine.sched.rtosCurrentTask_eq_some.mp hc).2
  simp only [hp, Phase.undecided] at hslice
  omega

/-- The decisions of a wait that do not go to tasks of higher priority. -/
theorem Waiting.run {s v : System cfg} {tr : History cfg} {x : ℕ} (hs : Waiting x s)
    (h : Run MiniRtos.step s tr v) (hwaits : ∀ e ∈ tr, Waits x e) :
    tr.countP (fun e => isDecision e && !callsAbove x e) ≤ s.machine.sched.peerRank x := by
  have hcount := (h.countP_add_rank_le (P := Waiting x)
    (fun e => isDecision e && !callsAbove x e) (fun u => u.machine.sched.peerRank x) hs hwaits
    fun u a o w hu hw hstep => hu.step hstep hw).2
  exact (Nat.le_add_right _ _).trans hcount

theorem countP_isDecision_le (tr : History cfg) (x : ℕ) :
    tr.countP isDecision ≤
      tr.countP (fun e => isDecision e && !callsAbove x e) + tr.countP (callsAbove x) := by
  induction tr with
  | nil => simp
  | cons e tr ih =>
      rw [List.countP_cons, List.countP_cons, List.countP_cons]
      cases isDecision e <;> cases callsAbove x e <;> simp <;> omega

/-- From a decision on, a READY task waits for as many cycles as are given to tasks of
higher priority, and at most a slice for each peer ahead and one more. -/
theorem response_time {s₀ s v : System cfg} {tr₀ tr : History cfg} {left x : ℕ}
    (hs₀ : Initial s₀) (h₀ : Run step s₀ tr₀ s) (hcycles : cyclesSinceInit tr₀ < 2 ^ 32)
    (hp : s.phase = .decide left) (hx : x ∈ s.machine.sched.readyTasks) (h : Run step s tr v)
    (hwaits : ∀ e ∈ tr, Waits x e) :
    tr.countP isDecision ≤ tr.countP (callsAbove x) + cfg.rtosTimeSliceTicks *
      (((s.machine.sched.peersAhead x).filter
        fun j => s.machine.sched.rtosCurrentTask ≠ some j).card + 1) := by
  have hpeers := (Waiting.start hs₀ h₀ hcycles hp hx).run h hwaits
  have hrank := (s.machine.sched.peerRank_le x).trans (s.machine.sched.bypassRank_le x)
  have hsplit := countP_isDecision_le tr x
  omega

/-- Two tasks of equal priority and one above them that is created first, at the first
decision. -/
def belowSleeperRun : List (Action Config.default) :=
  [.call (.task (.create 3 0x1000#64)), .call (.task (.create 1 0x2000#64)),
    .call (.task (.create 1 0x3000#64)), .run 9] ++ List.replicate 10 .advance

/-- The task above sleeps for two ticks, the first of the equal tasks is executed once. -/
def interferedRun : List (Action Config.default) :=
  [.advance, .call (.task (.sleep 2)), .ret] ++ cycleActions _ ++ [.ret] ++ cycleActions _

theorem response_time_interferedRun :
    let s := (System.after _ belowSleeperRun).2
    let r := played step s interferedRun
    r.1.countP isDecision = 3 ∧ r.1.countP (callsAbove 2) = 2 ∧
      r.1.countP isDecision ≤ r.1.countP (callsAbove 2) + 1 *
        (((s.machine.sched.peersAhead 2).filter
          fun j => s.machine.sched.rtosCurrentTask ≠ some j).card + 1) := by
  have hp : (System.after _ belowSleeperRun).2.phase = .decide 8 := by decide +kernel
  refine ⟨by decide +kernel, by decide +kernel, ?_⟩
  exact response_time (System.boot_initial _) (run_played _ belowSleeperRun) (by decide +kernel)
    hp (by decide +kernel) (run_played _ _) (by decide +kernel)

section Spacing
variable {u w : System cfg} {a : Action cfg} {o : Observation cfg} {tr : History cfg} {t p : ℕ}

/-- The function of task `t` is called. -/
def isCallOf (t : ℕ) (e : Edge cfg) : Bool :=
  match e.obs with
  | .taskCalled _ u => u = t
  | _ => false

/-- After `k` ticks and `c` calls of the function of task `t` these are `p` ticks apart. -/
inductive Spacing (t p : ℕ) (tr : History cfg) (u : System cfg) (k c : ℕ) : Prop
  | executing {left : ℕ} : u.phase = .task left t → c * p ≤ k + p →
      (sleptLast t (p ≤ ·) tr → ∃ n : ℤ, p ≤ n ∧ u.machine.sched.Sleeps t n) → Spacing t p tr u k c
  | asleep {m : ℕ} : u.phase.executes t = false → u.machine.sched.Sleeps t m → 1 ≤ m →
      c * p ≤ k + min m p → Spacing t p tr u k c
  | awake : u.phase.executes t = false → c * p ≤ k → Spacing t p tr u k c

theorem Spacing.count_le {k c : ℕ} (h : Spacing t p tr u k c) (hp : 1 ≤ p) : c ≤ k / p + 1 := by
  have hle : c * p ≤ k + p := by
    cases h with
    | executing _ hle => exact hle
    | asleep _ _ _ hle => omega
    | awake _ hle => omega
  calc
    c = c * p / p := (Nat.mul_div_cancel c hp).symm
    _ ≤ (k + p) / p := Nat.div_le_div_right hle
    _ = k / p + 1 := Nat.add_div_right k hp

theorem isCallOf_of_ne (h : ∀ b, o ≠ .taskCalled b t) :
    isCallOf t (⟨u, a, o, w⟩ : Edge cfg) = false := by
  cases o with
  | taskCalled b i => exact decide_eq_false fun he => h b (he ▸ rfl)
  | _ => rfl

theorem Spacing.asleep_step {m c : ℕ} (hu : Inv u) (hs : MiniRtos.step u a = some (o, w))
    (hx : u.phase.executes t = false) (hsl : u.machine.sched.Sleeps t m) (hm : 1 ≤ m)
    (hle : c * p ≤ ticks tr + min m p) (hlets : letsSleep t (⟨u, a, o, w⟩ : Edge cfg)) :
    Spacing t p (⟨u, a, o, w⟩ :: tr) w (ticks (⟨u, a, o, w⟩ :: tr)) c := by
  have hw := (step_cases hs).executes_of_ne hx (hsl.not_called hu (step_cases hs))
  rw [ticks_cons]
  by_cases htick : isTick (⟨u, a, o, w⟩ : Edge cfg)
  · rw [if_pos htick]
    rcases Nat.lt_or_ge 1 m with hlt | hge
    · have hnext := hsl.tick hs htick (by omega)
      rw [show (m : ℤ) - 1 = ((m - 1 : ℕ) : ℤ) by omega] at hnext
      exact .asleep hw hnext (by omega) (by omega)
    · exact .awake hw (by omega)
  · rw [if_neg htick]
    exact .asleep hw (hsl.between hu hs hlets htick) hm hle

theorem Spacing.step (h : Spacing t p tr u (ticks tr) (tr.countP (isCallOf t))) (hp : 1 ≤ p)
    (hu : Inv u) (hok : sleepsBetween t (p ≤ ·) (⟨u, a, o, w⟩ : Edge cfg) tr)
    (hs : MiniRtos.step u a = some (o, w)) :
    Spacing t p (⟨u, a, o, w⟩ :: tr) w (ticks (⟨u, a, o, w⟩ :: tr))
      ((⟨u, a, o, w⟩ :: tr).countP (isCallOf t)) := by
  have hc := step_cases hs
  cases h with
  | @executing left hphase hle hsl =>
      cases hc with
      | call _ hexec =>
          exact .executing hphase (by simpa [ticks_cons, isTick, isCallOf] using hle)
            fun hlast => by simpa using sleptLast_call hu hexec hphase (by simpa using hsl) hlast
      | @taskReturned left' t' hp' =>
          obtain ⟨rfl, rfl⟩ := Phase.task.inj (hphase.symm.trans hp')
          obtain ⟨n, hn, hslept⟩ := hsl (sleepsBetween_ret hok hphase)
          lift n to ℕ using by omega
          refine .asleep rfl hslept.taskReturned (by omega) ?_
          rw [min_eq_right (by omega)]
          simpa [ticks_cons, isTick, isCallOf] using hle
      | init hp' | run hp' | callbackReturned hp' | runDone hp' | tick hp' | slotSkipped hp'
      | callbackCalled hp' | passDone hp' | idle hp' | taskCalled hp' => simp [hphase] at hp'
  | asleep hx hsl hm hle =>
      have hno := isCallOf_of_ne (u := u) (a := a) (w := w) (hsl.not_called hu hc)
      rw [List.countP_cons_of_neg (by simp [hno])]
      exact .asleep_step hu hs hx hsl hm hle (sleepsBetween_outside hok hx)
  | awake hx hle =>
      have hmono : ticks tr ≤ ticks (⟨u, a, o, w⟩ :: tr) := by
        rw [ticks_cons]
        exact Nat.le_add_right _ _
      by_cases ho : ∃ b, o = .taskCalled b t
      · obtain ⟨b, rfl⟩ := ho
        have hphase : ∃ left, w.phase = .task left t := by
          cases hc with
          | taskCalled => exact ⟨_, rfl⟩
        obtain ⟨left, hphase⟩ := hphase
        refine .executing hphase ?_ (by simp [sleptLast])
        rw [List.countP_cons_of_pos (by simp [isCallOf]), Nat.succ_mul]
        omega
      · push Not at ho
        rw [List.countP_cons_of_neg (by simp [isCallOf_of_ne ho])]
        exact .awake (hc.executes_of_ne hx ho) (hle.trans hmono)

end Spacing

/-- The tasks of higher priority than `x`. -/
def Sched.tasksAbove (s : Sched cfg) (x : ℕ) : Finset ℕ :=
  (Finset.range s.taskCount).filter fun j => s.prio x < s.prio j

theorem Sched.mem_tasksAbove {s : Sched cfg} {x j : ℕ} :
    j ∈ s.tasksAbove x ↔ j < s.taskCount ∧ s.prio x < s.prio j := by
  simp [Sched.tasksAbove]

/-- No task of higher priority than `x` is created. -/
def createsNoneAbove (x : ℕ) (e : Edge cfg) : Bool :=
  match e.act with
  | .call (.task (.create q _)) => q ≤ e.src.machine.sched.prio x
  | _ => true

theorem StepCases.tasksAbove {u w : System cfg} {a : Action cfg} {o : Observation cfg} {x : ℕ}
    (h : StepCases u a o w) (hu : Inv u) (ha : a ≠ .init) (hx : x < u.machine.sched.taskCount)
    (hok : createsNoneAbove x (⟨u, a, o, w⟩ : Edge cfg)) :
    w.machine.sched.tasksAbove x ⊆ u.machine.sched.tasksAbove x := by
  intro j hj
  obtain ⟨hlt, habove⟩ := Sched.mem_tasksAbove.mp hj
  rw [h.prio hu ha hx] at habove
  by_cases hold : j < u.machine.sched.taskCount
  · rw [h.prio hu ha hold] at habove
    exact Sched.mem_tasksAbove.mpr ⟨hold, habove⟩
  · obtain ⟨f, rfl⟩ := h.prio_new hu ha (not_lt.mp hold) hlt
    have hle : w.machine.sched.prio j ≤ u.machine.sched.prio x := by
      simpa [createsNoneAbove] using hok
    exact absurd habove (not_lt.mpr hle)

/-- Only tasks that have been above `x` from the beginning are called before it. -/
theorem Waiting.called_above {s v : System cfg} {tr : History cfg} {x : ℕ} (hs : Waiting x s)
    (h : Run MiniRtos.step s tr v) (hwaits : ∀ e ∈ tr, Waits x e)
    (hcreate : ∀ e ∈ tr, createsNoneAbove x e) :
    ∀ e ∈ tr, callsAbove x e → ∃ t ∈ s.machine.sched.tasksAbove x, isCallOf t e := by
  have hadmitted : ∀ e ∈ tr, Waits x e ∧ createsNoneAbove x e := fun e he =>
    ⟨hwaits e he, hcreate e he⟩
  refine (h.edge_invariant
    (P := fun u => Waiting x u ∧ u.machine.sched.tasksAbove x ⊆ s.machine.sched.tasksAbove x)
    ⟨hs, subset_rfl⟩ hadmitted ?_).2
  rintro u a o w ⟨hu, habove⟩ ⟨hw, hok⟩ hstep
  have hc := step_cases hstep
  have hx := (Sched.mem_readyTasks.mp hu.ready).1
  refine ⟨⟨(hu.step hstep hw).1, (hc.tasksAbove hu.inv hw.running hx hok).trans habove⟩, ?_⟩
  intro hcalls
  cases hc with
  | @taskCalled left t b _ _ hp hd =>
      have hchosen := (Sched.Decides.runs hu.inv.wellFormed (hd ▸ hu.inv.decides hp)).chosen
      refine ⟨t, habove (Sched.mem_tasksAbove.mpr ⟨?_, ?_⟩), by simp [isCallOf]⟩
      · exact (hu.inv.wellFormed.mem_queue.mp hchosen).1
      · simpa [callsAbove] using hcalls
  | _ => cases hcalls

theorem countP_le_sum {α ι : Type*} {p : α → Bool} {q : ι → α → Bool} {s : Finset ι} {l : List α}
    (h : ∀ a ∈ l, p a → ∃ i ∈ s, q i a) : l.countP p ≤ ∑ i ∈ s, l.countP (q i) := by
  induction l with
  | nil => simp
  | cons a l ih =>
      have hrest := ih fun b hb => h b (by simp [hb])
      by_cases hp : p a
      · obtain ⟨i, hi, hq⟩ := h a (by simp) hp
        rw [List.countP_cons_of_pos hp]
        refine Nat.succ_le_of_lt (hrest.trans_lt (Finset.sum_lt_sum (fun j _ => ?_) ⟨i, hi, ?_⟩))
        · exact List.Sublist.countP_le (List.sublist_cons_self a l)
        · rw [List.countP_cons_of_pos hq]
          exact Nat.lt_succ_self _
      · rw [List.countP_cons_of_neg hp]
        exact hrest.trans (Finset.sum_le_sum fun j _ =>
          List.Sublist.countP_le (List.sublist_cons_self a l))

theorem Spacing.run {s v : System cfg} {tr : History cfg} {t p : ℕ} (hs : Inv s)
    (ht : s.phase.executes t = false) (hp : 1 ≤ p) (h : Run MiniRtos.step s tr v)
    (hok : Disciplined (fun e tr => sleepsBetween t (p ≤ ·) e tr) tr) :
    tr.countP (isCallOf t) ≤ ticks tr / p + 1 := by
  have hspacing : Inv v ∧ Spacing t p tr v (ticks tr) (tr.countP (isCallOf t)) :=
    h.history_invariant
      (P := fun tr v => Inv v ∧ Spacing t p tr v (ticks tr) (tr.countP (isCallOf t)))
      ⟨hs, .awake ht (by simp)⟩ hok
      fun tr u a o w hu hok hstep => ⟨hu.1.step hstep, hu.2.step hp hu.1 hok hstep⟩
  exact hspacing.2.count_le hp

theorem decisions_eq {s v : System cfg} {tr : History cfg} (h : Run step s tr v) :
    tr.countP isDecision + v.phase.undecided = s.phase.undecided + ticks tr := by
  induction h with
  | nil => simp
  | snoc _ hs ih =>
      have hund := (step_cases hs).undecided
      rw [List.countP_cons, ticks_cons]
      omega

theorem StepCases.decided {u w : System cfg} {a : Action cfg} {o : Observation cfg}
    (h : StepCases u a o w) (hdec : isDecision (⟨u, a, o, w⟩ : Edge cfg)) :
    w.phase.undecided = 0 := by
  simp only [isDecision] at hdec
  split at hdec
  · next left hp => cases h <;> simp_all [Phase.undecided, Phase.application]
  · cases hdec

/-- What can be asked for in `D` cycles by the tasks above `x` and by the peers that can go
before it, when task `t` sleeps for at least `p t` ticks between its executions. -/
def Sched.demand (s : Sched cfg) (x : ℕ) (p : ℕ → ℕ) (D : ℕ) : ℕ :=
  ∑ t ∈ s.tasksAbove x, ((D - 1) / p t + 1) + cfg.rtosTimeSliceTicks *
    (((s.peersAhead x).filter fun j => s.rtosCurrentTask ≠ some j).card + 1)

/-- If the tasks above `x` keep their distances and the demand in `D` cycles is below `D`,
then `x` does not wait for `D` cycles: its function is called in one of them. -/
theorem deadline_met {s₀ s v : System cfg} {tr₀ tr : History cfg} {left x D : ℕ} {p : ℕ → ℕ}
    (hs₀ : Initial s₀) (h₀ : Run step s₀ tr₀ s) (hcycles : cyclesSinceInit tr₀ < 2 ^ 32)
    (hphase : s.phase = .decide left) (hx : x ∈ s.machine.sched.readyTasks)
    (hp : ∀ t ∈ s.machine.sched.tasksAbove x, 1 ≤ p t)
    (hdemand : s.machine.sched.demand x p D < D) (h : Run step s tr v)
    (hwaits : ∀ e ∈ tr, Waits x e) (hcreate : ∀ e ∈ tr, createsNoneAbove x e)
    (hok : ∀ t ∈ s.machine.sched.tasksAbove x,
      Disciplined (fun e tr => sleepsBetween t (p t ≤ ·) e tr) tr) :
    tr.countP isDecision < D := by
  have hs := Waiting.start hs₀ h₀ hcycles hphase hx
  induction h with
  | nil =>
      rw [List.countP_nil]
      omega
  | @snoc u v tr a o hr hstep ih =>
      have hlt := ih (fun e he => hwaits e (by simp [he])) (fun e he => hcreate e (by simp [he]))
        fun t ht => (hok t ht).2
      have hrun := hr.snoc hstep
      by_cases hdec : isDecision (⟨u, a, o, v⟩ : Edge cfg)
      · rw [List.countP_cons_of_pos hdec]
        by_contra hge
        -- the `D`-th decision: as many ticks have passed as there were cycles before it
        have hcount : (⟨u, a, o, v⟩ :: tr : History cfg).countP isDecision = D := by
          rw [List.countP_cons_of_pos hdec]
          omega
        have hticks : ticks (⟨u, a, o, v⟩ :: tr) ≤ D - 1 := by
          have heq := decisions_eq hrun
          rw [(step_cases hstep).decided hdec] at heq
          simp only [hphase, Phase.undecided] at heq
          omega
        have habove : (⟨u, a, o, v⟩ :: tr : History cfg).countP (callsAbove x) ≤
            ∑ t ∈ s.machine.sched.tasksAbove x, ((D - 1) / p t + 1) := by
          refine (countP_le_sum (hs.called_above hrun hwaits hcreate)).trans
            (Finset.sum_le_sum fun t ht => ?_)
          have hspacing := Spacing.run hs.inv (by simp [hphase, Phase.executes]) (hp t ht) hrun
            (hok t ht)
          exact hspacing.trans (Nat.succ_le_succ (Nat.div_le_div_right hticks))
        have hpeers := hs.run hrun hwaits
        have hrank := (s.machine.sched.peerRank_le x).trans (s.machine.sched.bypassRank_le x)
        have hsplit := countP_isDecision_le (⟨u, a, o, v⟩ :: tr) x
        unfold Sched.demand at hdemand
        omega
      · rwa [List.countP_cons_of_neg hdec]

theorem deadline_met_interferedRun :
    let s := (System.after _ belowSleeperRun).2
    let r := played step s interferedRun
    r.1.countP isDecision = 3 ∧ s.machine.sched.demand 2 (fun _ => 2) 6 = 5 ∧
      r.1.countP isDecision < 6 := by
  have hp : (System.after _ belowSleeperRun).2.phase = .decide 8 := by decide +kernel
  refine ⟨by decide +kernel, by decide +kernel, ?_⟩
  exact deadline_met (x := 2) (p := fun _ => 2) (System.boot_initial _)
    (run_played _ belowSleeperRun) (by decide +kernel) hp (by decide +kernel)
    (fun _ _ => by decide) (by decide +kernel) (run_played _ _) (by decide +kernel)
    (by decide +kernel) (by decide +kernel)

end MiniRtos
