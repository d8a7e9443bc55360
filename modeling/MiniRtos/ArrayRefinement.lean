import MiniRtos.ArrayKernel
import MiniRtos.KernelInvariant

/-!
# The arrays refine the list of entries

Every function on the arrays has a result, so that none of its accesses is out of bounds,
and the result is what the function of the same name computes on the task table and the
list of entries. What makes this so is that the table and the queue fit their arrays and
that every entry of the queue is a task.
-/
namespace MiniRtos
open CheckedArray TransitionSystem
variable {cfg : Config}

namespace ArrayKernel
variable (k : ArrayKernel cfg)

/-- The table and the entries in use. -/
def abs : Sched cfg := ⟨k.taskList, k.taskCount, k.currentTaskIndex, k.ready.entries⟩

structure Fits : Prop where
  count_le : k.taskCount ≤ cfg.rtosMaxTasks
  ready_le : k.ready.readyCount ≤ cfg.rtosMaxTasks
  bounded : ∀ i ∈ k.ready.entries, i < k.taskCount

/-- All accesses are within bounds, and the result is `s`. -/
def Computes (x : Option (ArrayKernel cfg)) (s : Sched cfg) : Prop :=
  ∃ k', x = some k' ∧ k'.abs = s ∧ k'.Fits

def updated (i : ℕ) (f : TCB → TCB) : ArrayKernel cfg :=
  { k with taskList := Function.update k.taskList i (f (k.taskList i)) }

def withReady (a : ReadyArray) : ArrayKernel cfg := { k with ready := a }

@[simp] theorem abs_taskList : k.abs.taskList = k.taskList := rfl

@[simp] theorem abs_taskCount : k.abs.taskCount = k.taskCount := rfl

@[simp] theorem abs_currentTaskIndex : k.abs.currentTaskIndex = k.currentTaskIndex := rfl

@[simp] theorem abs_readyQueue : k.abs.readyQueue = k.ready.entries := rfl

theorem abs_updated (i : ℕ) (f : TCB → TCB) : (k.updated i f).abs = k.abs.modifyTask i f := rfl

theorem abs_withReady (a : ReadyArray) :
    (k.withReady a).abs = { k.abs with readyQueue := a.entries } := rfl

variable {k}

section Accesses

theorem modifyTask_of_lt {i : ℕ} (hi : i < cfg.rtosMaxTasks) (f : TCB → TCB) :
    k.modifyTask i f = some (k.updated i f) := by
  rw [ArrayKernel.modifyTask, ArrayKernel.task, load_of_lt _ hi, Option.bind_some,
    ArrayKernel.setTask, store_of_lt _ hi]
  rfl

/-- The loop over the stack, with all words within it. -/
theorem initTaskStack_eq (t : TCB) :
    ArrayKernel.initTaskStack cfg t = some (Sched.initTaskStack cfg t) := by
  have hloop : ∃ stack, forLoop (clearStackWord cfg) (Sched.rtosStackWords cfg) 0 t.stackMemory =
      some stack ∧ stack = fun i => if i < 0 + Sched.rtosStackWords cfg then 0#64
        else t.stackMemory i := by
    refine forLoop_rule (P := fun n stack => stack = fun i => if i < n then 0#64
      else t.stackMemory i) (by simp) ?_
    rintro j stack hj rfl
    refine ⟨_, store_of_lt _ (by omega) _, ?_⟩
    funext i
    rw [Function.update_apply]
    by_cases hi : i = j
    · simp [hi]
    · simp only [if_neg hi, show i < j + 1 ↔ i < j by omega]
  obtain ⟨stack, hrun, hstack⟩ := hloop
  rw [ArrayKernel.initTaskStack, hrun, Option.map_some, hstack, Nat.zero_add]
  rfl

variable (h : k.Fits) {i : ℕ}
include h

theorem Fits.task (hi : i < k.taskCount) : k.task i = some (k.taskList i) :=
  load_of_lt _ (hi.trans_le h.count_le)

theorem Fits.setTask (hi : i < k.taskCount) (f : TCB → TCB) :
    k.setTask i (f (k.taskList i)) = some (k.updated i f) := by
  rw [ArrayKernel.setTask, store_of_lt _ (hi.trans_le h.count_le)]
  rfl

theorem Fits.modifyTask (hi : i < k.taskCount) (f : TCB → TCB) :
    k.modifyTask i f = some (k.updated i f) := modifyTask_of_lt (hi.trans_le h.count_le) f

theorem Fits.slot (hi : i < k.ready.readyCount) : k.slot i = some (k.ready.readyQueue i) :=
  load_of_lt _ (hi.trans_le h.ready_le)

theorem Fits.readyQueue_lt (hi : i < k.ready.readyCount) : k.ready.readyQueue i < k.taskCount :=
  h.bounded _ ((ReadyArray.mem_entries _).mpr ⟨i, hi, rfl⟩)

theorem Fits.readyQueueFind (taskIndex : ℕ) :
    k.readyQueueFind taskIndex = some ((List.range k.ready.readyCount).find? fun i =>
      k.ready.readyQueue i = taskIndex) := by
  rw [ArrayKernel.readyQueueFind, List.range_eq_range']
  refine scan_eq fun j hj => ?_
  rw [h.slot (by omega)]
  rfl

theorem Fits.readyQueueContains (taskIndex : ℕ) :
    k.readyQueueContains taskIndex = some (k.ready.contains taskIndex) := by
  rw [ArrayKernel.readyQueueContains, h.readyQueueFind, Option.map_some]
  exact congrArg some (Bool.eq_iff_iff.mpr (List.find?_isSome.trans List.any_eq_true.symm))

end Accesses

/-- The loop that moves entries up stays within the array. -/
theorem forLoop_shiftPass (n j : ℕ) (k : ArrayKernel cfg) (hn : j + n < cfg.rtosMaxTasks) :
    forLoop shiftPass n j k =
      some { k with
        ready := { k.ready with readyQueue := ReadyArray.shiftDown k.ready.readyQueue j n } } := by
  induction n generalizing j k with
  | zero => rfl
  | succ n ih =>
      have hload : k.slot (j + 1 : ℕ) = some (k.ready.readyQueue (j + 1)) :=
        load_of_lt _ (by omega)
      rw [forLoop, shiftPass, hload, Option.bind_some, setSlot, store_of_lt _ (by omega)]
      exact ih (j + 1) _ (by omega)

theorem Fits.readyQueueRemove (h : k.Fits) (taskIndex : ℕ) :
    k.readyQueueRemove taskIndex = some (k.withReady (k.ready.remove taskIndex)) := by
  rw [ArrayKernel.readyQueueRemove, h.readyQueueFind, Option.bind_some, ReadyArray.remove]
  cases hfind : (List.range k.ready.readyCount).find? fun i => k.ready.readyQueue i = taskIndex with
  | none => rfl
  | some i =>
      have hi : i < k.ready.readyCount := List.mem_range.mp (List.mem_of_find?_eq_some hfind)
      have hle := h.ready_le
      simp only
      rw [forLoop_shiftPass _ _ _ (by omega)]
      rfl

section States

theorem abs_remove (taskIndex : ℕ) :
    (k.withReady (k.ready.remove taskIndex)).abs = k.abs.readyQueueRemove taskIndex := by
  rw [abs_withReady, ReadyArray.entries_remove]
  rfl

variable (h : k.Fits)
include h

theorem Fits.updated (i : ℕ) (f : TCB → TCB) : (k.updated i f).Fits :=
  ⟨h.count_le, h.ready_le, h.bounded⟩

theorem Fits.remove (taskIndex : ℕ) : (k.withReady (k.ready.remove taskIndex)).Fits where
  count_le := h.count_le
  ready_le := by
    have hle : (k.ready.remove taskIndex).entries.length ≤ k.ready.entries.length := by
      rw [ReadyArray.entries_remove]
      exact List.length_erase_le
    simp only [ReadyArray.entries_length] at hle
    exact hle.trans h.ready_le
  bounded i hi := by
    simp only [withReady, ReadyArray.entries_remove] at hi
    exact h.bounded i (List.mem_of_mem_erase hi)

theorem Fits.readyQueueEnqueue {i : ℕ} (hi : i < k.taskCount) :
    Computes (k.readyQueueEnqueue i) (k.abs.readyQueueEnqueue i) := by
  have hrange : ¬ ((i : ℤ) < 0 ∨ (k.taskCount : ℤ) ≤ i) := by omega
  have hentries := k.ready.entries_enqueue k.abs rfl i
  have hsame : k.abs.readyQueueEnqueue i =
      { k.abs with readyQueue := (k.abs.readyQueueEnqueue i).readyQueue } := by
    unfold Sched.readyQueueEnqueue
    split_ifs <;> rfl
  rw [← hentries] at hsame
  rw [hsame, ArrayKernel.readyQueueEnqueue, if_neg hrange, h.task hi, Option.bind_some]
  simp only [abs_taskList, abs_taskCount, ReadyArray.enqueue, if_neg hrange, Int.toNat_natCast]
  by_cases hready : (k.taskList i).state ≠ .ready
  · simp only [if_pos hready]
    exact ⟨k, rfl, rfl, h⟩
  simp only [if_neg hready]
  by_cases hfull : cfg.rtosMaxTasks ≤ k.ready.readyCount
  · simp only [hfull, true_or, if_true]
    exact ⟨k, rfl, rfl, h⟩
  rw [if_neg hfull, h.readyQueueContains, Option.bind_some]
  simp only [hfull, false_or]
  by_cases hcontained : k.ready.contains i
  · simp only [if_pos hcontained]
    exact ⟨k, rfl, rfl, h⟩
  · simp only [if_neg hcontained]
    rw [setSlot, store_of_lt _ (not_le.mp hfull)]
    refine ⟨_, rfl, rfl, h.count_le, not_le.mp hfull, fun x hx => ?_⟩
    obtain ⟨j, hj, rfl⟩ := (ReadyArray.mem_entries _).mp hx
    simp only [setReadyCount] at hj ⊢
    rcases Nat.lt_succ_iff_lt_or_eq.mp hj with hlt | rfl
    · rw [Function.update_of_ne hlt.ne]
      exact h.readyQueue_lt hlt
    · rw [Function.update_self]
      exact hi

theorem Fits.setTaskState (i : ℤ) (st : TaskState) (r : BlockReason) :
    Computes (k.schedulerSetTaskState i st r) (k.abs.schedulerSetTaskState i st r) := by
  unfold schedulerSetTaskState Sched.schedulerSetTaskState
  rw [abs_taskCount]
  by_cases hr : i < 0 ∨ (k.taskCount : ℤ) ≤ i
  · rw [if_pos hr, if_pos hr]
    exact ⟨k, rfl, rfl, h⟩
  rw [if_neg hr, if_neg hr]
  obtain ⟨j, rfl⟩ : ∃ j : ℕ, i = j := ⟨i.toNat, by omega⟩
  have hj : j < k.taskCount := by omega
  have hremoved := h.remove j
  have hmodified := hremoved.updated j fun t => { t with state := st, blockReason := r }
  simp only [Int.toNat_natCast]
  rw [h.readyQueueRemove, Option.bind_some, hremoved.modifyTask hj, Option.bind_some,
    ← abs_remove, ← abs_updated]
  by_cases hst : st = .ready
  · simp only [if_pos hst]
    rw [hmodified.modifyTask hj, Option.bind_some, ← abs_updated]
    exact (hmodified.updated j _).readyQueueEnqueue hj
  · simp only [if_neg hst]
    exact ⟨_, rfl, rfl, hmodified⟩

end States

section Peek

/-- A position of the queue as the `int` that holds it. -/
def position : Option ℕ → ℤ
  | none => -1
  | some p => p

theorem position_neg (p : Option ℕ) : position p < 0 ↔ p = none := by
  cases p <;> simp [position]

theorem entries_getD {a : ReadyArray} {i : ℕ} (hi : i < a.readyCount) :
    a.entries.getD i 0 = a.readyQueue i := by
  rw [List.getD_eq_getElem?_getD, a.entries_getElem?, if_pos hi, Option.getD_some]

theorem Fits.isBetter (h : k.Fits) (t : TCB) {best : Option ℕ}
    (hbest : ∀ b, best = some b → b < k.ready.readyCount) :
    k.isBetter t (position best) = some (best.all fun pos =>
      (k.taskList (k.ready.entries.getD pos 0)).priority < t.priority) := by
  cases best with
  | none => rfl
  | some b =>
      have hb := hbest b rfl
      rw [ArrayKernel.isBetter, if_neg (by simp [position]), position, h.slot hb,
        Option.bind_some, h.task (h.readyQueue_lt hb), Option.all_some, entries_getD hb]
      rfl

/-- Pass by pass the loop on the array is the loop on the list. -/
theorem Fits.peekLoop {s : Sched cfg} (passes : ℕ) (h : k.Fits) (hs : s.taskList = k.taskList)
    {i : ℕ} (hi : i ≤ k.ready.readyCount) {best : Option ℕ} (hbest : ∀ b, best = some b → b < i) :
    ∃ a : ReadyArray, ArrayKernel.peekLoop passes k i (position best) =
        some (k.withReady a, position (s.peekLoop passes k.ready.entries i best).2) ∧
      a.entries = (s.peekLoop passes k.ready.entries i best).1 ∧ (k.withReady a).Fits ∧
        ∀ b, (s.peekLoop passes k.ready.entries i best).2 = some b → b < a.readyCount := by
  induction passes generalizing k i best with
  | zero => exact ⟨k.ready, rfl, rfl, h, fun b hb => (hbest b hb).trans_le hi⟩
  | succ passes ih =>
      rw [ArrayKernel.peekLoop, Sched.peekLoop, k.ready.entries_getElem?]
      by_cases hend : k.ready.readyCount ≤ i
      · rw [if_pos hend, if_neg (by omega)]
        exact ⟨k.ready, rfl, rfl, h, fun b hb => (hbest b hb).trans_le hi⟩
      have hlt : i < k.ready.readyCount := not_le.mp hend
      rw [if_neg hend, if_pos hlt, h.slot hlt, Option.bind_some, h.task (h.readyQueue_lt hlt),
        Option.bind_some, hs]
      by_cases hstale : (k.taskList (k.ready.readyQueue i)).state ≠ .ready
      · simp only [if_pos hstale]
        rw [h.readyQueueRemove, Option.bind_some, ← ReadyArray.entries_remove]
        refine ih (h.remove _) hs ?_ hbest
        have hmem := (ReadyArray.mem_entries _).mpr ⟨i, hlt, rfl⟩
        have hlength := List.length_erase_of_mem hmem
        rw [← ReadyArray.entries_remove] at hlength
        simp only [ReadyArray.entries_length] at hlength
        simp only [withReady, hlength]
        omega
      · simp only [if_neg hstale]
        rw [h.isBetter _ fun b hb => (hbest b hb).trans hlt, Option.bind_some]
        by_cases hbetter : best.all fun pos => (k.taskList (k.ready.entries.getD pos 0)).priority <
            (k.taskList (k.ready.readyQueue i)).priority
        · rw [if_pos hbetter, if_pos hbetter]
          have hlast : ∀ b, some i = some b → b < i + 1 := fun b hb => by cases hb; omega
          exact ih h hs hlt hlast
        · rw [if_neg hbetter, if_neg hbetter]
          exact ih h hs hlt fun b hb => (hbest b hb).trans (Nat.lt_succ_self i)

theorem Fits.peek (h : k.Fits) :
    ∃ a : ReadyArray, k.readyQueuePeekHighestPriority =
        some (position k.abs.readyQueuePeekHighestPriority.1, k.withReady a) ∧
      (k.withReady a).abs = k.abs.readyQueuePeekHighestPriority.2 ∧ (k.withReady a).Fits ∧
        ∀ b, k.abs.readyQueuePeekHighestPriority.1 = some b → b < k.taskCount := by
  have hnone : ∀ b, (none : Option ℕ) = some b → b < 0 := fun b hb => by cases hb
  obtain ⟨a, hloop, hentries, hfits, hbest⟩ :=
    h.peekLoop (s := k.abs) k.ready.readyCount rfl (Nat.zero_le _) hnone
  have hlength : k.abs.readyQueue.length = k.ready.readyCount := k.ready.entries_length
  have hstart : position none = -1 := rfl
  rw [ArrayKernel.readyQueuePeekHighestPriority, ← hstart, hloop, Option.bind_some,
    Sched.readyQueuePeekHighestPriority, hlength]
  simp only [position_neg, abs_readyQueue]
  cases hr : (k.abs.peekLoop k.ready.readyCount k.ready.entries 0 none).2 with
  | none =>
      refine ⟨a, rfl, ?_, hfits, by simp⟩
      rw [abs_withReady, hentries]
  | some b =>
      have hb := hbest b hr
      have hslot : a.readyQueue b < k.taskCount := hfits.readyQueue_lt hb
      refine ⟨a, ?_, ?_, hfits, ?_⟩
      · rw [if_neg (by simp), position, hfits.slot hb, ← hentries]
        simp only [Option.map_some, entries_getD hb]
        rfl
      · rw [abs_withReady, hentries]
      · simp only [Option.map_some, Option.some.injEq, ← hentries, entries_getD hb]
        rintro _ rfl
        exact hslot

end Peek

section Unblock

/-- One pass of the scan on the table. -/
def unblockStep (tasks : ℕ → TCB) (r : BlockReason) (best : Option ℕ) (i : ℕ) : Option ℕ :=
  if (tasks i).state ≠ .blocked ∨ (tasks i).blockReason ≠ r then best
  else if best.all fun b => (tasks b).priority < (tasks i).priority then some i
  else best

theorem Fits.unblockPass (h : k.Fits) (r : BlockReason) {i : ℕ} (hi : i < k.taskCount)
    {best : Option ℕ} (hbest : ∀ b, best = some b → b < i) :
    k.unblockPass r i best = some (unblockStep k.taskList r best i) ∧
      ∀ b, unblockStep k.taskList r best i = some b → b < i + 1 := by
  rw [ArrayKernel.unblockPass, h.task hi, Option.bind_some, unblockStep]
  by_cases hskip : (k.taskList i).state ≠ .blocked ∨ (k.taskList i).blockReason ≠ r
  · rw [if_pos hskip, if_pos hskip]
    exact ⟨rfl, fun b hb => (hbest b hb).trans (Nat.lt_succ_self i)⟩
  rw [if_neg hskip, if_neg hskip]
  cases best with
  | none => exact ⟨rfl, fun b hb => by cases hb; omega⟩
  | some b =>
      have hb := hbest b rfl
      simp only [h.task (hb.trans hi), Option.map_some, Option.all_some, decide_eq_true_eq]
      by_cases hlt : (k.taskList b).priority < (k.taskList i).priority
      · rw [if_pos hlt]
        exact ⟨trivial, fun c hc => by cases hc; omega⟩
      · rw [if_neg hlt]
        exact ⟨trivial, fun c hc => by cases hc; omega⟩

theorem Fits.unblockOne (h : k.Fits) (r : BlockReason) :
    Computes (k.schedulerUnblockOne r) (k.abs.schedulerUnblockOne r) := by
  have hloop : ∃ best, forLoop (k.unblockPass r) k.taskCount 0 none = some best ∧
      best = (List.range (0 + k.taskCount)).foldl (unblockStep k.taskList r) none ∧
        ∀ b, best = some b → b < 0 + k.taskCount := by
    refine forLoop_rule (P := fun i best =>
      best = (List.range i).foldl (unblockStep k.taskList r) none ∧
        ∀ b, best = some b → b < i) ⟨rfl, by simp⟩ ?_
    rintro j best hj ⟨hfold, hlt⟩
    obtain ⟨hpass, hnext⟩ := h.unblockPass r (by omega) hlt
    refine ⟨_, hpass, ?_, hnext⟩
    rw [List.range_succ, List.foldl_append, ← hfold]
    rfl
  obtain ⟨best, hscan, hbest, -⟩ := hloop
  have hscan' : k.abs.unblockScan r = best := by
    rw [hbest, Nat.zero_add]
    rfl
  rw [schedulerUnblockOne, hscan, Option.bind_some, Sched.schedulerUnblockOne, hscan']
  cases best with
  | none => exact ⟨k, rfl, rfl, h⟩
  | some b => exact h.setTaskState b .ready .none

end Unblock

section Updates

variable (h : k.Fits)
include h

theorem Fits.updateSleepTask {i : ℕ} (hi : i < k.taskCount) :
    Computes (ArrayKernel.updateSleepTask i k) (k.abs.updateSleepTask i) := by
  unfold ArrayKernel.updateSleepTask Sched.updateSleepTask
  rw [h.task hi, Option.bind_some, abs_taskList]
  by_cases hskip : (k.taskList i).state ≠ .blocked ∨ (k.taskList i).blockReason ≠ .sleep
  · rw [if_pos hskip, if_pos hskip]
    exact ⟨k, rfl, rfl, h⟩
  rw [if_neg hskip, if_neg hskip, h.setTask hi fun t => { t with sleepTicks := t.sleepTicks - 1 },
    Option.bind_some, ← abs_updated]
  have hdown := h.updated i fun t => { t with sleepTicks := t.sleepTicks - 1 }
  simp only [abs_updated, Sched.modifyTask_self, abs_taskList]
  split_ifs
  · exact hdown.setTaskState i .ready .none
  · exact ⟨_, rfl, rfl, hdown⟩

theorem Fits.timerUpdateSleep : Computes k.timerUpdateSleep k.abs.timerUpdateSleep := by
  have hloop : ∃ k', k.timerUpdateSleep = some k' ∧
      (k'.abs = (List.range (0 + k.taskCount)).foldl Sched.updateSleepTask k.abs ∧ k'.Fits) ∧
        k'.taskCount = k.taskCount := by
    refine forLoop_rule (P := fun i (k' : ArrayKernel cfg) =>
      (k'.abs = (List.range i).foldl Sched.updateSleepTask k.abs ∧ k'.Fits) ∧
        k'.taskCount = k.taskCount) ⟨⟨rfl, h⟩, rfl⟩ ?_
    rintro j u hj ⟨⟨habs, hfits⟩, hcount⟩
    obtain ⟨u', hpass, habs', hfits'⟩ := hfits.updateSleepTask (i := j) (by omega)
    refine ⟨u', hpass, ⟨?_, hfits'⟩, ?_⟩
    · rw [habs', habs, List.range_succ, List.foldl_append]
      rfl
    · rw [← abs_taskCount, habs', Sched.updateSleepTask_taskCount, abs_taskCount, hcount]
  obtain ⟨k', hrun, ⟨habs, hfits⟩, -⟩ := hloop
  rw [Nat.zero_add] at habs
  exact ⟨k', hrun, habs, hfits⟩

theorem Fits.taskReturned {t : ℕ} (ht : t < k.taskCount) :
    Computes (k.taskReturned t) (k.abs.taskReturned t) := by
  unfold ArrayKernel.taskReturned Sched.taskReturned
  rw [h.task ht, Option.bind_some, abs_taskList]
  split_ifs
  · exact h.setTaskState t .ready .none
  · exact ⟨k, rfl, rfl, h⟩

theorem Fits.taskSleep (n : ℤ) : Computes (k.rtosTaskSleep n) (k.abs.rtosTaskSleep n) := by
  have hcur : k.abs.rtosCurrentTask = k.rtosCurrentTask := rfl
  unfold ArrayKernel.rtosTaskSleep Sched.rtosTaskSleep
  rw [hcur]
  cases hc : k.rtosCurrentTask with
  | none => exact ⟨k, rfl, rfl, h⟩
  | some t =>
      have ht := (k.abs.rtosCurrentTask_eq_some.mp (hcur.trans hc)).2
      simp only
      rw [h.modifyTask ht, Option.bind_some, ← abs_updated]
      exact (h.updated t _).setTaskState _ .blocked .sleep

theorem Fits.requeueOutgoing {c : ℕ} (hc : c < k.taskCount) :
    Computes (k.requeueOutgoing c) (k.abs.requeueOutgoing c) := by
  unfold ArrayKernel.requeueOutgoing Sched.requeueOutgoing
  rw [h.task hc, Option.bind_some, abs_taskList]
  split_ifs
  · exact h.setTaskState c .ready .none
  · exact ⟨k, rfl, rfl, h⟩

/-- The new control block goes into the first slot past the table. -/
theorem Fits.createTask (p : ℤ) (f : BitVec 64) :
    ∃ k' : ArrayKernel cfg, k.rtosCreateTask p f = some ((k.abs.rtosCreateTask p f).1, k') ∧
      k'.abs = (k.abs.rtosCreateTask p f).2 ∧ k'.Fits := by
  unfold ArrayKernel.rtosCreateTask Sched.rtosCreateTask
  rw [abs_taskCount]
  by_cases hfull : cfg.rtosMaxTasks ≤ k.taskCount
  · rw [if_pos hfull, if_pos hfull]
    exact ⟨k, rfl, rfl, h⟩
  rw [if_neg hfull, if_neg hfull]
  have hroom : k.taskCount < cfg.rtosMaxTasks := not_le.mp hfull
  have htask : k.task k.taskCount = some (k.taskList k.taskCount) := load_of_lt _ hroom
  have hset : ∀ t : TCB, k.setTask k.taskCount t = some (k.updated k.taskCount fun _ => t) :=
    fun t => by rw [ArrayKernel.setTask, store_of_lt _ hroom]; rfl
  simp only [htask, initTaskStack_eq, hset, Option.bind_some]
  generalize hnew : ({ k.updated k.taskCount _ with taskCount := k.taskCount + 1 } :
    ArrayKernel cfg) = added
  have hadded : added.Fits := by
    subst hnew
    exact ⟨hroom, h.ready_le, fun i hi => (h.bounded i hi).trans (Nat.lt_succ_self _)⟩
  have hcount : added.taskCount = k.taskCount + 1 := by rw [← hnew]
  obtain ⟨k', hset, habs, hfits⟩ := hadded.setTaskState k.taskCount .ready .none
  have hlt : k.taskCount < k'.taskCount := by
    rw [show k'.taskCount = k'.abs.taskCount from rfl, habs, Sched.setTaskState_taskCount,
      abs_taskCount, hcount]
    exact Nat.lt_succ_self _
  rw [hset, Option.bind_some, hfits.task hlt, Option.map_some]
  subst hnew
  refine ⟨k', ?_, habs, hfits⟩
  rw [← abs_taskList, habs]
  rfl

end Updates

section Decision

/-- A context switch with all accesses within bounds. -/
def Switches (x : Option (ArrayKernel cfg × CPUContext)) (r : Sched cfg × CPUContext) : Prop :=
  ∃ k', x = some (k', r.2) ∧ k'.abs = r.1 ∧ k'.Fits

theorem Fits.switchContexts (h : k.Fits) (active : CPUContext) {outgoing : Option ℕ}
    {incoming : ℕ} (hin : incoming < k.taskCount)
    (hout : ∀ out, outgoing = some out → out < k.taskCount) :
    ∃ k' : ArrayKernel cfg, k.switchContexts active outgoing incoming =
        some (k', (k'.taskList incoming).context) ∧
      k'.abs = k.abs.saveOutgoing active outgoing ∧ k'.Fits ∧ incoming < k'.taskCount := by
  cases outgoing with
  | none =>
      rw [ArrayKernel.switchContexts, h.task hin]
      exact ⟨k, rfl, rfl, h, hin⟩
  | some out =>
      have hsaved := h.updated out fun t => { t with context := active }
      refine ⟨_, ?_, rfl, hsaved, hin⟩
      rw [ArrayKernel.switchContexts, contextSwitch, h.modifyTask (hout out rfl),
        Option.bind_some, hsaved.task hin]
      rfl

theorem Fits.doContextSwitch (h : k.Fits) (active : CPUContext) {outgoing : Option ℕ}
    {incoming : ℕ} (hin : incoming < k.taskCount)
    (hout : ∀ out, outgoing = some out → out < k.taskCount) :
    Switches (k.doContextSwitch active outgoing incoming)
      (k.abs.doContextSwitch active outgoing incoming) := by
  obtain ⟨k₁, hsave, habs, hfits, hin₁⟩ := h.switchContexts active hin hout
  have hcurrent : ({ k₁ with currentTaskIndex := incoming } : ArrayKernel cfg).Fits :=
    ⟨hfits.count_le, hfits.ready_le, hfits.bounded⟩
  have hslice := hcurrent.updated incoming fun t => { t with sliceTicksUsed := 1#32 }
  obtain ⟨k', hset, habs', hfits'⟩ := hslice.setTaskState incoming .running .none
  rw [ArrayKernel.doContextSwitch, hsave, Option.bind_some]
  simp only
  rw [hcurrent.modifyTask hin₁, Option.bind_some, hset]
  refine ⟨k', ?_, ?_, hfits'⟩
  · rw [Sched.doContextSwitch_eq, ← habs]
    rfl
  · rw [habs', Sched.doContextSwitch_eq, ← habs]
    rfl

/-- A decision with all accesses within bounds. -/
def Decided (x : Option (Option (Sched.Branch × ℕ) × ArrayKernel cfg × CPUContext))
    (r : Option (Sched.Branch × ℕ) × Sched cfg × CPUContext) : Prop :=
  ∃ k', x = some (r.1, k', r.2.2) ∧ k'.abs = r.2.1 ∧ k'.Fits

theorem Fits.switchTo (h : k.Fits) (active : CPUContext) (b : Sched.Branch)
    {outgoing : Option ℕ} {best : ℕ} (hbest : best < k.taskCount)
    (hout : ∀ out, outgoing = some out → out < k.taskCount) :
    Decided (k.switchTo active b outgoing best)
      (some (b, best), (k.abs.readyQueuePop best).doContextSwitch active outgoing best) := by
  obtain ⟨k', hswitch, habs, hfits⟩ := (h.remove best).doContextSwitch active hbest hout
  rw [ArrayKernel.switchTo, h.readyQueueRemove, Option.bind_some, hswitch]
  rw [abs_remove] at habs ⊢
  exact ⟨k', rfl, habs, hfits⟩

/-- The outgoing task goes back to the queue before the switch. -/
theorem Fits.requeueAndSwitch (h : k.Fits) (active : CPUContext) (b : Sched.Branch) {c best : ℕ}
    (hc : c < k.taskCount) (hbest : best < k.taskCount) :
    Decided ((k.requeueOutgoing c).bind fun k => k.switchTo active b (some c) best)
      (some (b, best),
        ((k.abs.requeueOutgoing c).readyQueuePop best).doContextSwitch active (some c) best) := by
  obtain ⟨k₁, hrequeue, habs, hfits⟩ := h.requeueOutgoing hc
  have hcount : k₁.taskCount = k.taskCount := by
    rw [show k₁.taskCount = k₁.abs.taskCount from rfl, habs]
    unfold Sched.requeueOutgoing
    split_ifs <;> simp
  rw [hrequeue, Option.bind_some, ← habs]
  refine hfits.switchTo active b (hcount ▸ hbest) fun out hout => ?_
  cases hout
  exact hcount ▸ hc

theorem Fits.decide (h : k.Fits) (active : CPUContext) :
    Decided (k.schedulerRunDecide active) (k.abs.schedulerRunDecide active) := by
  obtain ⟨a, hpeek, habs, hfits, hbest⟩ := h.peek
  have hcur : k.abs.rtosCurrentTask = k.rtosCurrentTask := rfl
  have hlt : ∀ c, k.rtosCurrentTask = some c → c < k.taskCount :=
    fun c hc => (k.abs.rtosCurrentTask_eq_some.mp (hcur.trans hc)).2
  unfold ArrayKernel.schedulerRunDecide Sched.schedulerRunDecide
  rw [hpeek, hcur]
  generalize hr : k.abs.readyQueuePeekHighestPriority = r at habs hbest
  obtain ⟨best, s⟩ := r
  simp only at habs hbest
  subst habs
  simp only [Option.bind_some, position_neg]
  cases best with
  | none =>
      cases hc : k.rtosCurrentTask with
      | none => exact ⟨_, rfl, rfl, hfits⟩
      | some c =>
          simp only [if_true]
          rw [hfits.modifyTask (hlt c hc)]
          exact ⟨_, rfl, rfl, hfits.updated c _⟩
  | some best =>
      have hlt' := hbest best rfl
      simp only [reduceCtorEq, if_false, position, Int.toNat_natCast]
      cases hc : k.rtosCurrentTask with
      | none => exact hfits.switchTo active .firstTick hlt' (by simp)
      | some c =>
          have hc' : c < (k.withReady a).taskCount := hlt c hc
          have hbest' : best < (k.withReady a).taskCount := hlt'
          have hout : ∀ out, some c = some out → out < (k.withReady a).taskCount := by
            rintro _ ⟨⟩
            exact hc'
          generalize k.withReady a = k₁ at hfits hc' hbest' hout ⊢
          have hslice : k₁.setTask c { k₁.abs.taskList c with
              sliceTicksUsed := (k₁.abs.taskList c).sliceTicksUsed + 1#32 } =
                some (k₁.updated c fun t => { t with sliceTicksUsed := t.sliceTicksUsed + 1#32 }) :=
            hfits.setTask hc' fun t => { t with sliceTicksUsed := t.sliceTicksUsed + 1#32 }
          simp only [ArrayKernel.decideBetween, hfits.task hbest', hfits.task hc', Option.bind_some,
            ← abs_taskList]
          by_cases hgone : (k₁.abs.taskList c).state ≠ .running ∧ (k₁.abs.taskList c).state ≠ .ready
          · rw [if_pos hgone, if_pos hgone]
            exact hfits.switchTo active .forced hbest' hout
          rw [if_neg hgone, if_neg hgone]
          by_cases hpreempt : (k₁.abs.taskList c).priority < (k₁.abs.taskList best).priority
          · rw [if_pos hpreempt, if_pos hpreempt]
            exact hfits.requeueAndSwitch active .preempted hc' hbest'
          rw [if_neg hpreempt, if_neg hpreempt]
          by_cases hexpired : (k₁.abs.taskList best).priority = (k₁.abs.taskList c).priority ∧
              cfg.rtosTimeSliceTicks ≤ (k₁.abs.taskList c).sliceTicksUsed.toNat ∧ best ≠ c
          · rw [if_pos hexpired, if_pos hexpired]
            exact hfits.requeueAndSwitch active .sliceExpired hc' hbest'
          · obtain ⟨k', hset, habs', hfits'⟩ := (hfits.updated c fun t =>
              { t with sliceTicksUsed := t.sliceTicksUsed + 1#32 }).setTaskState c .running .none
            rw [if_neg hexpired, if_neg hexpired, hslice, Option.bind_some, hset, ← abs_updated,
              ← habs']
            exact ⟨k', rfl, rfl, hfits'⟩

end Decision

section Calls
variable (h : k.Fits)
include h

theorem Fits.taskIndexFromId (taskId : ℤ) :
    k.taskIndexFromId taskId = some (k.abs.taskIndexFromId taskId) := by
  rw [ArrayKernel.taskIndexFromId, Sched.taskIndexFromId, List.range_eq_range']
  refine scan_eq fun j hj => ?_
  rw [h.task (by omega)]
  rfl

theorem Fits.lookup {α : Type*} (taskId : ℤ) (d : α) (f : ℕ → TCB → α) :
    k.lookup taskId d f = some (match k.abs.taskIndexFromId taskId with
      | none => d
      | some i => f i (k.taskList i)) := by
  rw [ArrayKernel.lookup, h.taskIndexFromId, Option.bind_some]
  cases hi : k.abs.taskIndexFromId taskId with
  | none => rfl
  | some i =>
      simp only
      rw [h.task (List.mem_range.mp (List.mem_of_find?_eq_some hi))]
      rfl

/-- A call of `rtos.c` on tasks, with its result. -/
theorem Fits.exec (c : TaskCall) :
    ∃ k', k.exec c = some ((c.exec k.abs).1, k') ∧ k'.abs = (c.exec k.abs).2 ∧ k'.Fits := by
  cases c with
  | create p f =>
      obtain ⟨k', hcreate, habs, hfits⟩ := h.createTask p f
      exact ⟨k', by rw [ArrayKernel.exec, hcreate]; rfl, habs, hfits⟩
  | sleep n =>
      obtain ⟨k', hsleep, habs, hfits⟩ := h.taskSleep n
      exact ⟨k', by rw [ArrayKernel.exec, hsleep]; rfl, habs, hfits⟩
  | suspend taskId =>
      simp only [ArrayKernel.exec, ArrayKernel.rtosSuspendTask, h.taskIndexFromId,
        Option.bind_some, TaskCall.exec, Sched.rtosSuspendTask]
      cases k.abs.taskIndexFromId taskId with
      | none => exact ⟨k, rfl, rfl, h⟩
      | some i =>
          obtain ⟨k', hset, habs, hfits⟩ := h.setTaskState i .suspended .none
          simp only [hset]
          exact ⟨k', rfl, habs, hfits⟩
  | resume taskId =>
      simp only [ArrayKernel.exec, ArrayKernel.rtosResumeTask, h.taskIndexFromId,
        Option.bind_some, TaskCall.exec, Sched.rtosResumeTask]
      cases hi : k.abs.taskIndexFromId taskId with
      | none => exact ⟨k, rfl, rfl, h⟩
      | some i =>
          have hlt : i < k.taskCount := List.mem_range.mp (List.mem_of_find?_eq_some hi)
          simp only [h.task hlt, Option.bind_some, ← abs_taskList]
          by_cases hsusp : (k.abs.taskList i).state ≠ .suspended
          · simp only [if_pos hsusp]
            exact ⟨k, rfl, rfl, h⟩
          · obtain ⟨k', hset, habs, hfits⟩ := h.setTaskState i .ready .none
            simp only [if_neg hsusp, hset]
            exact ⟨k', rfl, habs, hfits⟩
  | readyCount =>
      refine ⟨k, ?_, rfl, h⟩
      rw [ArrayKernel.exec, ← k.ready.entries_length]
      rfl
  | currentTask => exact ⟨k, rfl, rfl, h⟩
  | getTaskState taskId =>
      refine ⟨k, ?_, rfl, h⟩
      rw [ArrayKernel.exec, h.lookup]
      rfl
  | getTaskStackBase taskId =>
      refine ⟨k, ?_, rfl, h⟩
      rw [ArrayKernel.exec, h.lookup, TaskCall.exec, Sched.rtosGetTaskStackBase]
      cases k.abs.taskIndexFromId taskId <;> rfl
  | getTaskStackPointer taskId =>
      refine ⟨k, ?_, rfl, h⟩
      rw [ArrayKernel.exec, h.lookup, TaskCall.exec, Sched.rtosGetTaskStackPointer]
      cases k.abs.taskIndexFromId taskId <;> rfl
  | getTaskStackSize taskId =>
      refine ⟨k, ?_, rfl, h⟩
      rw [ArrayKernel.exec, h.lookup]
      rfl

end Calls

end ArrayKernel

end MiniRtos
