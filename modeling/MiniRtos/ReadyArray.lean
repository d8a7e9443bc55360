import MiniRtos.QueueOrder
import MiniRtos.ReadyQueue
import MiniRtos.WhileLoop

/-!
# The ready queue as an array

`ready_queue` and `ready_count` with the loops of `scheduler.c` that shift entries, and
what they do to the list of entries, which is all the rest of the model speaks of. The
slots from `ready_count` on are never read. The search for the best entry removes
entries from the array it walks over and remembers the best one by its position; the
invariant that carries it says that everything before the index is READY, so that a
removal never moves a slot before the index.
-/
namespace MiniRtos
open WhileLoop
variable {cfg : Config}

/-- `static int ready_queue[RTOS_MAX_TASKS]; static int ready_count;` -/
structure ReadyArray where
  readyQueue : ℕ → ℕ
  readyCount : ℕ

namespace ReadyArray

/-- The entries in use. -/
def entries (a : ReadyArray) : List ℕ := (List.range a.readyCount).map a.readyQueue

def contains (a : ReadyArray) (taskIndex : ℕ) : Bool :=
  (List.range a.readyCount).any fun i => a.readyQueue i = taskIndex

/-- The inner loop of `ready_queue_remove`, `n` passes from `j` on. -/
def shiftDown (queue : ℕ → ℕ) (j : ℕ) : ℕ → ℕ → ℕ
  | 0 => queue
  | n + 1 => shiftDown (Function.update queue j (queue (j + 1))) (j + 1) n

def remove (a : ReadyArray) (taskIndex : ℕ) : ReadyArray :=
  match (List.range a.readyCount).find? fun i => a.readyQueue i = taskIndex with
  | none => a
  | some i =>
      { readyQueue := shiftDown a.readyQueue i (a.readyCount - 1 - i)
        readyCount := a.readyCount - 1 }

/-- The table is `task_list[0..taskCount)`. -/
def enqueue (cfg : Config) (tasks : ℕ → TCB) (taskCount : ℕ) (a : ReadyArray)
    (taskIndex : ℤ) : ReadyArray :=
  if taskIndex < 0 ∨ (taskCount : ℤ) ≤ taskIndex then a
  else if (tasks taskIndex.toNat).state ≠ .ready then a
  else if cfg.rtosMaxTasks ≤ a.readyCount ∨ a.contains taskIndex.toNat then a
  else
    { readyQueue := Function.update a.readyQueue a.readyCount taskIndex.toNat
      readyCount := a.readyCount + 1 }

/-- The variables of the loop of `ready_queue_peek_highest_priority`. -/
structure Peek where
  array : ReadyArray
  i : ℕ
  bestQueuePos : ℤ

/-- One pass of that loop. After a removal `i--` and the loop's `i++` cancel. -/
def peekPass (tasks : ℕ → TCB) (x : Peek) : Option Peek :=
  if x.array.readyCount ≤ x.i then none
  else
    let taskIndex := x.array.readyQueue x.i
    if (tasks taskIndex).state ≠ .ready then
      some { x with array := x.array.remove taskIndex }
    else if x.bestQueuePos < 0 ∨
        (tasks (x.array.readyQueue x.bestQueuePos.toNat)).priority <
          (tasks taskIndex).priority then
      some { x with i := x.i + 1, bestQueuePos := x.i }
    else some { x with i := x.i + 1 }

def peekStart (a : ReadyArray) : Peek := ⟨a, 0, -1⟩

/-- The returned index, after the loop. -/
def Peek.result (x : Peek) : ℤ :=
  if x.bestQueuePos < 0 then -1 else x.array.readyQueue x.bestQueuePos.toNat

section Entries
variable (a : ReadyArray)

@[simp] theorem entries_length : a.entries.length = a.readyCount := by simp [entries]

theorem entries_getElem? (k : ℕ) :
    a.entries[k]? = if k < a.readyCount then some (a.readyQueue k) else none := by
  simp only [entries, List.getElem?_map]
  by_cases hk : k < a.readyCount
  · simp [hk]
  · simp [hk]

theorem mem_entries {taskIndex : ℕ} :
    taskIndex ∈ a.entries ↔ ∃ i < a.readyCount, a.readyQueue i = taskIndex := by
  simp [entries]

theorem contains_eq (taskIndex : ℕ) : a.contains taskIndex = a.entries.contains taskIndex := by
  rw [Bool.eq_iff_iff, List.contains_iff_mem, mem_entries]
  simp [contains]

theorem shiftDown_apply (queue : ℕ → ℕ) (j n k : ℕ) :
    shiftDown queue j n k = if j ≤ k ∧ k < j + n then queue (k + 1) else queue k := by
  induction n generalizing queue j with
  | zero =>
      rw [shiftDown, if_neg (by omega)]
  | succ n ih =>
      rw [shiftDown, ih]
      by_cases hk : k = j
      · subst hk
        rw [if_neg (by omega), Function.update_self, if_pos (by omega)]
      · by_cases hin : j + 1 ≤ k ∧ k < j + 1 + n
        · rw [if_pos hin, if_pos (by omega), Function.update_of_ne (by omega)]
        · rw [if_neg hin, if_neg (by omega), Function.update_of_ne hk]

theorem remove_of_notMem {taskIndex : ℕ} (h : taskIndex ∉ a.entries) :
    a.remove taskIndex = a := by
  have hnone : (List.range a.readyCount).find? (fun i => a.readyQueue i = taskIndex) = none := by
    rw [List.find?_range_eq_none]
    intro i hi
    have hne : a.readyQueue i ≠ taskIndex := fun he => h ((mem_entries a).mpr ⟨i, hi, he⟩)
    simpa using hne
  unfold remove
  rw [hnone]

/-- The first occurrence goes and the entries behind it move up. -/
theorem remove_of_first {i : ℕ} (hi : i < a.readyCount)
    (hfirst : ∀ k < i, a.readyQueue k ≠ a.readyQueue i) :
    a.remove (a.readyQueue i) =
      { readyQueue := fun k =>
          if i ≤ k ∧ k < a.readyCount - 1 then a.readyQueue (k + 1) else a.readyQueue k
        readyCount := a.readyCount - 1 } := by
  have hfind : (List.range a.readyCount).find? (fun k => a.readyQueue k = a.readyQueue i) =
      some i := by
    rw [List.find?_range_eq_some]
    exact ⟨by simp, by simpa using hi, fun k hk => by simpa using hfirst k hk⟩
  have hshift : shiftDown a.readyQueue i (a.readyCount - 1 - i) = fun k =>
      if i ≤ k ∧ k < a.readyCount - 1 then a.readyQueue (k + 1) else a.readyQueue k := by
    funext k
    rw [shiftDown_apply, Nat.add_sub_of_le (by omega)]
  unfold remove
  rw [hfind]
  simp only [hshift]

theorem entries_remove_of_first {i : ℕ} (hi : i < a.readyCount)
    (hfirst : ∀ k < i, a.readyQueue k ≠ a.readyQueue i) :
    (a.remove (a.readyQueue i)).entries = a.entries.eraseIdx i := by
  rw [remove_of_first a hi hfirst]
  refine List.ext_getElem? fun k => ?_
  rw [List.getElem?_eraseIdx]
  simp only [entries_getElem?]
  by_cases hk : k < i
  · have hstay : ¬ (i ≤ k ∧ k < a.readyCount - 1) := by omega
    rw [if_pos hk, if_neg hstay, if_pos (show k < a.readyCount - 1 by omega),
      if_pos (show k < a.readyCount by omega)]
  · by_cases hlast : k < a.readyCount - 1
    · rw [if_neg hk, if_pos hlast, if_pos ⟨by omega, hlast⟩,
        if_pos (show k + 1 < a.readyCount by omega)]
    · rw [if_neg hk, if_neg hlast, if_neg (show ¬ k + 1 < a.readyCount by omega)]

theorem entries_eraseIdx_of_first {i : ℕ} (hi : i < a.readyCount)
    (hfirst : ∀ k < i, a.readyQueue k ≠ a.readyQueue i) :
    a.entries.eraseIdx i = a.entries.erase (a.readyQueue i) := by
  have hlt : i < a.entries.length := by simpa using hi
  have hslot : a.entries[i] = a.readyQueue i := by simp [entries]
  have hbefore : a.readyQueue i ∉ a.entries.take i := by
    intro hm
    obtain ⟨k, hk, he⟩ := List.mem_take_iff_getElem.mp hm
    refine hfirst k (by omega) ?_
    simpa [entries] using he
  have hsplit : a.entries = a.entries.take i ++ a.readyQueue i :: a.entries.drop (i + 1) := by
    rw [← hslot, ← List.drop_eq_getElem_cons hlt, List.take_append_drop]
  rw [List.eraseIdx_eq_take_drop_succ]
  conv_rhs => rw [hsplit]
  rw [List.erase_append_right _ hbefore, List.erase_cons_head]

/-- `ready_queue_remove` deletes the first occurrence and keeps the order of the rest. -/
theorem entries_remove (taskIndex : ℕ) :
    (a.remove taskIndex).entries = a.entries.erase taskIndex := by
  by_cases hm : taskIndex ∈ a.entries
  · have hsome := (mem_entries a).mp hm
    obtain ⟨hi, hslot⟩ := Nat.find_spec hsome
    have hfirst : ∀ k < Nat.find hsome, a.readyQueue k ≠ a.readyQueue (Nat.find hsome) := by
      intro k hk he
      exact Nat.find_min hsome hk ⟨by omega, he.trans hslot⟩
    rw [← hslot, a.entries_remove_of_first hi hfirst, a.entries_eraseIdx_of_first hi hfirst]
  · rw [remove_of_notMem a hm, List.erase_of_not_mem hm]

theorem entries_enqueue (s : Sched cfg) (h : a.entries = s.readyQueue) (taskIndex : ℤ) :
    (enqueue cfg s.taskList s.taskCount a taskIndex).entries =
      (s.readyQueueEnqueue taskIndex).readyQueue := by
  have hcount : a.readyCount = s.readyQueue.length := by rw [← h, entries_length]
  have hcontains : a.contains taskIndex.toNat = s.readyQueueContains taskIndex.toNat := by
    rw [contains_eq, h]
    rfl
  unfold enqueue Sched.readyQueueEnqueue
  rw [hcontains, hcount]
  split_ifs
  · exact h
  · exact h
  · exact h
  · have hkeep : (List.range a.readyCount).map
        (Function.update a.readyQueue a.readyCount taskIndex.toNat) = a.entries := by
      refine List.map_congr_left fun k hk => Function.update_of_ne ?_ _ _
      exact (List.mem_range.mp hk).ne
    rw [← hcount, ← h, ← hkeep, entries, List.range_succ, List.map_append]
    simp

end Entries

section Peek
variable {tasks : ℕ → TCB} {l : List ℕ} {x y : Peek}

def isReady (tasks : ℕ → TCB) (taskIndex : ℕ) : Bool := (tasks taskIndex).state = .ready

/-- Position `b` holds the first of the greatest keys among the first `n`. -/
structure FirstMax (key : ℕ → ℤ) (n b : ℕ) : Prop where
  lt : b < n
  le : ∀ k < n, key k ≤ key b
  before : ∀ k < b, key k < key b

theorem FirstMax.congr {key key' : ℕ → ℤ} {n b : ℕ} (h : FirstMax key n b)
    (hk : ∀ k < n, key' k = key k) : FirstMax key' n b where
  lt := h.lt
  le k hn := by
    rw [hk k hn, hk b h.lt]
    exact h.le k hn
  before k hb := by
    rw [hk k (hb.trans h.lt), hk b h.lt]
    exact h.before k hb

theorem FirstMax.keep {key : ℕ → ℤ} {n b : ℕ} (h : FirstMax key n b) (hn : key n ≤ key b) :
    FirstMax key (n + 1) b where
  lt := h.lt.trans (Nat.lt_succ_self n)
  le k hk := by
    rcases Nat.lt_succ_iff_lt_or_eq.mp hk with hk | hk
    · exact h.le k hk
    · rw [hk]
      exact hn
  before := h.before

theorem FirstMax.replace {key : ℕ → ℤ} {n b : ℕ} (h : FirstMax key n b) (hn : key b < key n) :
    FirstMax key (n + 1) n where
  lt := Nat.lt_succ_self n
  le k hk := by
    rcases Nat.lt_succ_iff_lt_or_eq.mp hk with hk | hk
    · exact (h.le k hk).trans hn.le
    · rw [hk]
  before k hk := (h.le k hk).trans_lt hn

theorem FirstMax.one (key : ℕ → ℤ) : FirstMax key 1 0 where
  lt := Nat.one_pos
  le k hk := by rw [Nat.lt_one_iff.mp hk]
  before k hk := absurd hk (Nat.not_lt_zero k)

/-- The priority at a position of the array. -/
def Peek.key (tasks : ℕ → TCB) (x : Peek) (k : ℕ) : ℤ := (tasks (x.array.readyQueue k)).priority

/-- What holds whenever the guard is tested: everything before the index is READY, only
stale entries have gone, and the best position is that of the first maximum so far. -/
structure Scanned (tasks : ℕ → TCB) (l : List ℕ) (x : Peek) : Prop where
  index_le : x.i ≤ x.array.readyCount
  ready : ∀ k < x.i, isReady tasks (x.array.readyQueue k)
  rest : x.array.entries.filter (isReady tasks) = l.filter (isReady tasks)
  best : (x.i = 0 ∧ x.bestQueuePos = -1) ∨
    ∃ b : ℕ, x.bestQueuePos = b ∧ FirstMax (x.key tasks) x.i b

theorem scanned_peekStart (tasks : ℕ → TCB) (a : ReadyArray) :
    Scanned tasks a.entries (peekStart a) where
  index_le := Nat.zero_le _
  ready k hk := absurd hk (Nat.not_lt_zero k)
  rest := rfl
  best := .inl ⟨rfl, rfl⟩

/-- The three ways a pass can go. -/
theorem peekPass_cases (h : peekPass tasks x = some y) :
    x.i < x.array.readyCount ∧
      ((isReady tasks (x.array.readyQueue x.i) = false ∧
          y = { x with array := x.array.remove (x.array.readyQueue x.i) }) ∨
        (isReady tasks (x.array.readyQueue x.i) = true ∧
          (x.bestQueuePos < 0 ∨ x.key tasks x.bestQueuePos.toNat < x.key tasks x.i) ∧
          y = { x with i := x.i + 1, bestQueuePos := x.i }) ∨
        (isReady tasks (x.array.readyQueue x.i) = true ∧ 0 ≤ x.bestQueuePos ∧
          x.key tasks x.i ≤ x.key tasks x.bestQueuePos.toNat ∧ y = { x with i := x.i + 1 })) := by
  unfold peekPass at h
  dsimp only at h
  split_ifs at h with hguard hstale hbetter
  · refine ⟨not_le.mp hguard, .inl ⟨by simpa [isReady] using hstale, ?_⟩⟩
    exact (Option.some.inj h).symm
  · refine ⟨not_le.mp hguard, .inr (.inl ⟨?_, hbetter, (Option.some.inj h).symm⟩)⟩
    simpa [isReady] using hstale
  · obtain ⟨hpos, hle⟩ := not_or.mp hbetter
    refine ⟨not_le.mp hguard, .inr (.inr ⟨?_, not_lt.mp hpos, not_lt.mp hle, ?_⟩)⟩
    · simpa [isReady] using hstale
    · exact (Option.some.inj h).symm

/-- A stale entry under the index is the first occurrence of its task, so its removal
moves no slot before the index. -/
theorem Scanned.evict (h : Scanned tasks l x) (hi : x.i < x.array.readyCount)
    (hstale : isReady tasks (x.array.readyQueue x.i) = false) :
    Scanned tasks l { x with array := x.array.remove (x.array.readyQueue x.i) } ∧
      (x.array.remove (x.array.readyQueue x.i)).readyCount = x.array.readyCount - 1 := by
  have hfirst : ∀ k < x.i, x.array.readyQueue k ≠ x.array.readyQueue x.i := by
    intro k hk he
    have hr := h.ready k hk
    rw [he, hstale] at hr
    cases hr
  have hremove := x.array.remove_of_first hi hfirst
  have hslot : ∀ k < x.i,
      (x.array.remove (x.array.readyQueue x.i)).readyQueue k = x.array.readyQueue k := by
    intro k hk
    rw [hremove]
    exact if_neg (by omega)
  have hcount : (x.array.remove (x.array.readyQueue x.i)).readyCount =
      x.array.readyCount - 1 := by
    rw [hremove]
  constructor
  · constructor
    · simp only [hcount]
      omega
    · intro k hk
      simp only [hslot k hk]
      exact h.ready k hk
    · rw [entries_remove, ← List.erase_filter, List.erase_of_not_mem, h.rest]
      intro hm
      rw [(List.mem_filter.mp hm).2] at hstale
      cases hstale
    · rcases h.best with hnone | hbest
      · exact .inl hnone
      · obtain ⟨b, hb, hmax⟩ := hbest
        refine .inr ⟨b, hb, hmax.congr fun k hk => ?_⟩
        simp only [Peek.key, hslot k hk]
  · exact hcount

theorem Scanned.advance (h : Scanned tasks l x) (hi : x.i < x.array.readyCount)
    (hready : isReady tasks (x.array.readyQueue x.i)) {p : ℤ}
    (hbest : ∃ b : ℕ, p = b ∧ FirstMax (x.key tasks) (x.i + 1) b) :
    Scanned tasks l { x with i := x.i + 1, bestQueuePos := p } where
  index_le := hi
  ready k hk := by
    rcases Nat.lt_succ_iff_lt_or_eq.mp hk with hk | hk
    · exact h.ready k hk
    · rw [hk]
      exact hready
  rest := h.rest
  best := .inr hbest

/-- Every pass keeps the invariant and brings the index closer to the end. -/
theorem Scanned.pass (h : Scanned tasks l x) (hp : peekPass tasks x = some y) :
    Scanned tasks l y ∧ y.array.readyCount - y.i < x.array.readyCount - x.i := by
  obtain ⟨hi, hcases⟩ := peekPass_cases hp
  rcases hcases with ⟨hstale, hy⟩ | ⟨hready, hbetter, hy⟩ | ⟨hready, hpos, hle, hy⟩
  · obtain ⟨hs, hcount⟩ := h.evict hi hstale
    subst hy
    refine ⟨hs, ?_⟩
    simp only [hcount]
    omega
  · subst hy
    constructor
    · refine h.advance hi hready ⟨x.i, rfl, ?_⟩
      rcases h.best with ⟨hzero, -⟩ | ⟨b, hb, hmax⟩
      · rw [hzero]
        exact .one _
      · rw [hb, Int.toNat_natCast] at hbetter
        exact hmax.replace (hbetter.resolve_left (by omega))
    · simp only
      omega
  · subst hy
    constructor
    · refine h.advance hi hready (p := x.bestQueuePos) ?_
      rcases h.best with ⟨-, hnone⟩ | ⟨b, hb, hmax⟩
      · omega
      · rw [hb, Int.toNat_natCast] at hle
        exact ⟨b, hb, hmax.keep hle⟩
    · simp only
      omega

theorem Scanned.at_end (h : Scanned tasks l x) (hp : peekPass tasks x = none) :
    x.i = x.array.readyCount := by
  have hle := h.index_le
  unfold peekPass at hp
  dsimp only at hp
  split_ifs at hp with hguard
  omega

theorem exists_peek (tasks : ℕ → TCB) (a : ReadyArray) :
    ∃ x, Leaves (peekPass tasks) (peekStart a) x ∧ Scanned tasks a.entries x ∧
      peekPass tasks x = none :=
  exists_leaves (fun x => x.array.readyCount - x.i) (fun _ _ h hp => h.pass hp)
    (scanned_peekStart tasks a)

theorem Scanned.entries_eq (h : Scanned tasks l x) (hp : peekPass tasks x = none) :
    x.array.entries = l.filter (isReady tasks) := by
  rw [← h.rest, eq_comm, List.filter_eq_self]
  intro t ht
  obtain ⟨k, hk, rfl⟩ := (mem_entries _).mp ht
  exact h.ready k (by rw [h.at_end hp]; exact hk)

theorem Scanned.result_cases (h : Scanned tasks l x) (hp : peekPass tasks x = none) :
    (x.array.readyCount = 0 ∧ x.result = -1) ∨
      ∃ b, x.result = x.array.readyQueue b ∧ FirstMax (x.key tasks) x.array.readyCount b := by
  have hend := h.at_end hp
  rcases h.best with hnone | hbest
  · left
    obtain ⟨hzero, hpos⟩ := hnone
    refine ⟨by omega, ?_⟩
    rw [Peek.result, hpos]
    rfl
  · right
    obtain ⟨b, hpos, hmax⟩ := hbest
    refine ⟨b, ?_, hend ▸ hmax⟩
    rw [Peek.result, hpos, if_neg (by omega), Int.toNat_natCast]

/-- `ready_queue_peek_highest_priority` returns, for every content of the queue and every
assignment of states and priorities. Exactly the stale entries are gone, and the result
is the first entry of the greatest priority, or `-1` when no entry is left. -/
theorem peek_filters_and_selects (tasks : ℕ → TCB) (a : ReadyArray) :
    ∃ x, Leaves (peekPass tasks) (peekStart a) x ∧
      (∀ y, Leaves (peekPass tasks) (peekStart a) y → y = x) ∧
      x.array.entries = a.entries.filter (isReady tasks) ∧
      (x.array.entries = [] → x.result = -1) ∧
      (x.array.entries ≠ [] → ∃ b, x.result = x.array.readyQueue b ∧
        FirstMax (x.key tasks) x.array.readyCount b) := by
  obtain ⟨x, hleaves, hs, hguard⟩ := exists_peek tasks a
  have hlength := x.array.entries_length
  refine ⟨x, hleaves, fun y hy => hy.deterministic hleaves, hs.entries_eq hguard, ?_, ?_⟩
  · intro hempty
    rw [hempty, List.length_nil] at hlength
    rcases hs.result_cases hguard with hnone | hbest
    · exact hnone.2
    · obtain ⟨b, -, hmax⟩ := hbest
      exact absurd hmax.lt (by omega)
  · intro hne
    have hpos := List.length_pos_iff.mpr hne
    rcases hs.result_cases hguard with hnone | hbest
    · omega
    · exact hbest

theorem FirstMax.argmax_entries {a : ReadyArray} {b : ℕ}
    (h : FirstMax (fun k => (tasks (a.readyQueue k)).priority) a.readyCount b) :
    a.entries.argmax (fun i => (tasks i).priority) = some (a.readyQueue b) := by
  have hidx : ∀ k < a.readyCount, a.entries.idxOf (a.readyQueue k) ≤ k := by
    intro k hk
    have hle := QueueOrder.idxOf_getElem_le a.entries k (by rwa [entries_length])
    simpa [entries] using hle
  rw [List.argmax_eq_some_iff]
  refine ⟨(mem_entries a).mpr ⟨b, h.lt, rfl⟩, ?_, ?_⟩
  · intro t ht
    obtain ⟨k, hk, rfl⟩ := (mem_entries a).mp ht
    exact h.le k hk
  · intro t ht hle
    have hlt := List.idxOf_lt_length_of_mem ht
    rw [entries_length] at hlt
    have hslot : a.readyQueue (a.entries.idxOf t) = t := by
      have hget := a.entries_getElem? (a.entries.idxOf t)
      rw [if_pos hlt, List.getElem?_idxOf ht] at hget
      exact (Option.some.inj hget).symm
    refine (hidx b h.lt).trans ?_
    by_contra hbefore
    have hkey := h.before _ (not_le.mp hbefore)
    simp only [hslot] at hkey
    omega

/-- The array and the list of its entries stay in step, and both searches agree. -/
theorem peek_refines (s : Sched cfg) (a : ReadyArray) (h : a.entries = s.readyQueue)
    (hx : Leaves (peekPass s.taskList) (peekStart a) x) :
    x.array.entries = s.readyQueuePeekHighestPriority.2.readyQueue ∧
      x.result = match s.readyQueuePeekHighestPriority.1 with
        | none => -1
        | some best => (best : ℤ) := by
  obtain ⟨y, hy, hs, hguard⟩ := exists_peek s.taskList a
  obtain rfl := hx.deterministic hy
  have hentries := hs.entries_eq hguard
  rw [h] at hentries
  rw [Sched.peek_eq]
  refine ⟨hentries, ?_⟩
  have hargmax : (s.readyQueue.filter s.isReady).argmax s.prio =
      x.array.entries.argmax s.prio := by
    rw [hentries]
    rfl
  simp only [hargmax]
  rcases hs.result_cases hguard with hnone | hbest
  · obtain ⟨hzero, hresult⟩ := hnone
    have hempty : x.array.entries = [] := by
      rw [← List.length_eq_zero_iff, entries_length, hzero]
    rw [hempty, hresult]
    rfl
  · obtain ⟨b, hresult, hmax⟩ := hbest
    rw [hresult, show x.array.entries.argmax s.prio = _ from hmax.argmax_entries]

end Peek

end ReadyArray

end MiniRtos
