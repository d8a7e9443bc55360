import MiniRtos.ForeignPointers

/-!
# Blocks belong to their holders

A block keeps its links where its holder keeps data, so the allocator and the holders
write to the same bytes, only never at the same time. The free list is sound in every
reachable state, whatever addresses are given to `memory_free`; hence from the call that
hands a block out to the one that takes it back, be it with the block's own address or with
a foreign one that is taken for it, the block is off the list, is not handed out again, and
its bytes are what its holder stores.
-/
namespace MiniRtos
open TransitionSystem LinkedStack
variable {cfg : Config}

namespace Pool
variable {p q : Pool cfg} {l : List ℤ}

/-- The blocks at two addresses share no byte. -/
def Apart (cfg : Config) (ptr ptr' : BitVec 64) : Prop :=
  ptr.toNat + cfg.rtosPoolBlockSize ≤ ptr'.toNat ∨ ptr'.toNat + cfg.rtosPoolBlockSize ≤ ptr.toNat

instance (ptr ptr' : BitVec 64) : Decidable (Apart cfg ptr ptr') :=
  inferInstanceAs (Decidable (_ ∨ _))

theorem apart_of_ne {i j : ℤ} (hi : IsBlock cfg i) (hj : IsBlock cfg j) (hne : i ≠ j) :
    Apart cfg (blockAddress cfg i) (blockAddress cfg j) := by
  obtain ⟨m, rfl⟩ : ∃ m : ℕ, i = m := ⟨i.toNat, by have := hi.1; omega⟩
  obtain ⟨n, rfl⟩ : ∃ n : ℕ, j = n := ⟨j.toNat, by have := hj.1; omega⟩
  have hm : m < cfg.rtosPoolBlockCount := by exact_mod_cast hi.2
  have hn : n < cfg.rtosPoolBlockCount := by exact_mod_cast hj.2
  rw [Apart, blockAddress_toNat hm, blockAddress_toNat hn]
  have hstep : ∀ {a b : ℕ}, a < b →
      a * cfg.rtosPoolBlockSize + cfg.rtosPoolBlockSize ≤ b * cfg.rtosPoolBlockSize :=
    fun h => (Nat.succ_mul _ _).symm.le.trans (Nat.mul_le_mul_right _ h)
  rcases lt_or_gt_of_ne fun he : m = n => hne (congrArg Nat.cast he) with hlt | hgt
  · have := hstep hlt
    omega
  · have := hstep hgt
    omega

/-- No address can break the free list. -/
theorem Represents.memoryFree_any (h : p.Represents l) (ptr : BitVec 64) :
    ∃ l', (p.memoryFree ptr).Represents l' := by
  by_cases hr : ptr = 0#64 ∨ blockIndex cfg ptr < 0
  · exact ⟨l, by rwa [memoryFree_rejected hr]⟩
  push Not at hr
  have hb := isBlock_blockIndex (not_lt.mpr hr.2)
  rw [memoryFree_of_index hr.1 rfl hr.2]
  split_ifs with hz
  · exact ⟨l, h⟩
  · exact ⟨_, h.push hb hz⟩

/-- A call of `memory_free` that does not find block `i` leaves it alone. -/
theorem memoryFree_other {ptr : BitVec 64} {i : ℤ} (h : ptr = 0#64 ∨ blockIndex cfg ptr ≠ i) :
    (p.memoryFree ptr).gPoolAllocated i = p.gPoolAllocated i ∧
      (p.memoryFree ptr).gPoolStorage i = p.gPoolStorage i := by
  by_cases hr : ptr = 0#64 ∨ blockIndex cfg ptr < 0
  · rw [memoryFree_rejected hr]
    exact ⟨rfl, rfl⟩
  push Not at hr
  have hne : i ≠ blockIndex cfg ptr := fun he => (h.resolve_left hr.1) he.symm
  rw [memoryFree_of_index hr.1 rfl hr.2]
  split_ifs
  · exact ⟨rfl, rfl⟩
  · exact ⟨Function.update_of_ne hne _ _, Function.update_of_ne hne _ _⟩

/-- `memory_alloc` hands out a block that was free, or none. -/
theorem Represents.handsOut (h : p.Represents l) :
    (p.memoryAlloc.1 = 0#64 ∧ p.memoryAlloc.2 = p) ∨
      ∃ i, IsBlock cfg i ∧ p.gPoolAllocated i = 0#8 ∧ p.memoryAlloc.1 = blockAddress cfg i ∧
        p.memoryAlloc.2.gPoolAllocated = Function.update p.gPoolAllocated i 1#8 ∧
          p.memoryAlloc.2.gPoolStorage = p.gPoolStorage := by
  cases l with
  | nil =>
      have hend : p.gFreeListHead = poolEndOfList := h.chain.eq_nil_iff.mp rfl
      simp [Pool.memoryAlloc, hend]
  | cons i l =>
      obtain ⟨hb, hz⟩ := (h.free i).mp (by simp)
      have hhead : p.gFreeListHead = i := by
        have hc := h.chain
        generalize p.gFreeListHead = head at hc ⊢
        cases hc with
        | cons _ _ => rfl
      have hstop : i ≠ poolEndOfList := by
        have hpos : 0 ≤ i := hb.1
        rw [poolEndOfList]
        omega
      refine .inr ⟨i, hb, hz, h.memoryAlloc.1, ?_, ?_⟩ <;>
        simp only [Pool.memoryAlloc, hhead, if_neg hstop]

end Pool

/-- The call is given an address that `block_index` takes for block `i`. -/
def freesIndex (i : ℤ) (e : Edge cfg) : Bool :=
  match e.act with
  | .call (.memory (.free ptr)) => Pool.blockIndex cfg ptr = i
  | _ => false

/-- The byte that a call stores at an offset of block `i`. -/
def MemoryCall.stores (i : ℤ) (k : ℕ) : MemoryCall → Option (BitVec 8)
  | .write idx offset byte => if idx = i ∧ offset = k then some byte else none
  | _ => none

/-- The byte that was stored last at an offset of block `i`. -/
def lastStored (i : ℤ) (k : ℕ) : History cfg → Option (BitVec 8)
  | [] => none
  | e :: tr =>
      match e.act with
      | .call (.memory c) => (c.stores i k).or (lastStored i k tr)
      | _ => lastStored i k tr

/-- The call hands out a block that shares no byte with the one at `ptr`, or none. -/
def allocatesApart (ptr : BitVec 64) (e : Edge cfg) : Prop :=
  e.act = .call (.memory .alloc) →
    ∃ ptr', e.obs = .returned (.address ptr') ∧ (ptr' = 0#64 ∨ Pool.Apart cfg ptr ptr')

section Calls
variable {p q : Pool cfg} {l : List ℤ} {c : MemoryCall} {v : Value} {i : ℤ}

theorem Pool.Represents.exec (h : p.Represents l) (hc : c.exec p = some (v, q)) :
    ∃ l', q.Represents l' := by
  cases c with
  | alloc =>
      obtain ⟨-, rfl⟩ := Prod.mk.inj (Option.some.inj hc)
      exact ⟨_, h.memoryAlloc.2⟩
  | free ptr =>
      obtain ⟨-, rfl⟩ := Prod.mk.inj (Option.some.inj hc)
      exact h.memoryFree_any ptr
  | availableBlocks =>
      obtain ⟨-, rfl⟩ := Prod.mk.inj (Option.some.inj hc)
      exact ⟨l, h⟩
  | write idx offset byte =>
      simp only [MemoryCall.exec] at hc
      split_ifs at hc with hlive
      obtain ⟨-, rfl⟩ := Prod.mk.inj (Option.some.inj hc)
      exact ⟨l, h.clientWrite hlive.2.2.2 offset byte⟩

/-- What a call leaves of a block that it does not give back. -/
structure Pool.KeepsBlock (p : Pool cfg) (i : ℤ) (c : MemoryCall) (v : Value) (q : Pool cfg) :
    Prop where
  allocated : q.gPoolAllocated i ≠ 0#8
  bytes : ∀ k, q.gPoolStorage i k = ((c.stores i k).getD (p.gPoolStorage i k))
  apart : c = .alloc → ∃ ptr, v = .address ptr ∧
    (ptr = 0#64 ∨ Pool.Apart cfg (Pool.blockAddress cfg i) ptr)

theorem Pool.Represents.keepsBlock (h : p.Represents l) (hc : c.exec p = some (v, q))
    (hb : Pool.IsBlock cfg i) (hheld : p.gPoolAllocated i ≠ 0#8)
    (hfree : ∀ ptr, c = .free ptr → ptr = 0#64 ∨ Pool.blockIndex cfg ptr ≠ i) :
    p.KeepsBlock i c v q := by
  cases c with
  | alloc =>
      obtain ⟨rfl, rfl⟩ := Prod.mk.inj (Option.some.inj hc)
      rcases h.handsOut with ⟨hnull, hsame⟩ | ⟨j, hj, hz, hptr, halloc, hbytes⟩
      · exact ⟨hsame.symm ▸ hheld, fun k => by rw [hsame]; rfl, fun _ => ⟨_, rfl, .inl hnull⟩⟩
      · have hij : i ≠ j := fun he => hheld (he ▸ hz)
        refine ⟨?_, fun k => by rw [hbytes]; rfl, fun _ => ⟨_, rfl, .inr ?_⟩⟩
        · rw [halloc, Function.update_of_ne hij]
          exact hheld
        · rw [hptr]
          exact Pool.apart_of_ne hb hj hij
  | free ptr =>
      obtain ⟨rfl, rfl⟩ := Prod.mk.inj (Option.some.inj hc)
      obtain ⟨halloc, hbytes⟩ := Pool.memoryFree_other (p := p) (hfree ptr rfl)
      exact ⟨halloc ▸ hheld, fun k => congrFun hbytes k, by simp⟩
  | availableBlocks =>
      obtain ⟨rfl, rfl⟩ := Prod.mk.inj (Option.some.inj hc)
      exact ⟨hheld, fun k => rfl, by simp⟩
  | write idx offset byte =>
      simp only [MemoryCall.exec] at hc
      split_ifs at hc with hlive
      obtain ⟨rfl, rfl⟩ := Prod.mk.inj (Option.some.inj hc)
      refine ⟨hheld, fun k => ?_, by simp⟩
      simp only [Pool.clientWrite, MemoryCall.stores]
      by_cases hi : idx = i
      · subst hi
        rw [Function.update_self, Function.update_apply]
        by_cases hk : offset = k
        · simp [hk]
        · simp [hk, Ne.symm hk]
      · rw [Function.update_of_ne (Ne.symm hi), if_neg fun he => hi he.1, Option.getD_none]

end Calls

section Steps
variable {u w : System cfg} {a : Action cfg} {o : Observation cfg}

/-- Only `rtos_init` and the calls of `memory.c` touch the pool. -/
theorem StepCases.pool (h : StepCases u a o w) :
    a = .init ∨ ((∀ c, a ≠ .call (.memory c)) ∧ w.machine.pool = u.machine.pool) ∨
      ∃ c v, a = .call (.memory c) ∧ o = .returned v ∧
        c.exec u.machine.pool = some (v, w.machine.pool) := by
  cases h with
  | init => exact .inl rfl
  | @call c v m _ hexec =>
      by_cases hc : ∃ c', c = .memory c'
      · obtain ⟨c, rfl⟩ := hc
        exact .inr (.inr ⟨c, v, rfl, rfl, Machine.exec_memory hexec⟩)
      · push Not at hc
        refine .inr (.inl ⟨fun c' he => ?_, Machine.exec_pool hexec hc⟩)
        exact hc c' (Action.call.inj he)
  | _ => exact .inr (.inl ⟨by simp, rfl⟩)

/-- The free list is sound. -/
theorem Reachable.represents {s : System cfg} (h : Reachable s) :
    ∃ l, s.machine.pool.Represents l := by
  refine TransitionSystem.Reachable.invariant (P := fun s => ∃ l, s.machine.pool.Represents l) h
    ?_ ?_
  · rintro s ⟨-, m, hm⟩
    rw [hm]
    exact ⟨_, m.pool.memoryInit_represents⟩
  · rintro u a o w ⟨l, hl⟩ hs
    rcases (step_cases hs).pool with rfl | ⟨-, hpool⟩ | ⟨c, v, -, -, hc⟩
    · cases step_cases hs
      exact ⟨_, u.machine.pool.memoryInit_represents⟩
    · exact ⟨l, hpool ▸ hl⟩
    · exact hl.exec hc

end Steps

/-- The holder of block `i` has had it since its bytes were `before`. -/
structure Owned (i : ℤ) (before : ℕ → BitVec 8) (tr : History cfg) (v : System cfg) : Prop where
  sound : ∃ l, v.machine.pool.Represents l
  allocated : v.machine.pool.gPoolAllocated i ≠ 0#8
  bytes : ∀ k, v.machine.pool.gPoolStorage i k = (lastStored i k tr).getD (before k)
  apart : ∀ e ∈ tr, allocatesApart (Pool.blockAddress cfg i) e

theorem Owned.step {i : ℤ} {before : ℕ → BitVec 8} {tr : History cfg} {u w : System cfg}
    {a : Action cfg} {o : Observation cfg} (h : Owned i before tr u) (hb : Pool.IsBlock cfg i)
    (hinit : a ≠ .init) (hfree : freesIndex i (⟨u, a, o, w⟩ : Edge cfg) = false)
    (hs : MiniRtos.step u a = some (o, w)) : Owned i before (⟨u, a, o, w⟩ :: tr) w := by
  rcases (step_cases hs).pool with rfl | ⟨hno, hpool⟩ | ⟨c, v, rfl, rfl, hc⟩
  · exact absurd rfl hinit
  · have hlast : ∀ k, lastStored i k (⟨u, a, o, w⟩ :: tr) = lastStored i k tr := by
      intro k
      simp only [lastStored]
    refine ⟨hpool ▸ h.sound, hpool ▸ h.allocated, fun k => ?_, ?_⟩
    · rw [hlast, hpool]
      exact h.bytes k
    · exact List.forall_mem_cons.mpr ⟨fun he => absurd he (hno _), h.apart⟩
  · obtain ⟨l, hl⟩ := h.sound
    have hkeeps := hl.keepsBlock hc hb h.allocated fun ptr he => by
      subst he
      exact .inr (by simpa [freesIndex] using hfree)
    refine ⟨hl.exec hc, hkeeps.allocated, fun k => ?_, ?_⟩
    · rw [hkeeps.bytes, h.bytes]
      simp only [lastStored]
      cases c.stores i k <;> rfl
    · refine List.forall_mem_cons.mpr ⟨fun he => ?_, h.apart⟩
      obtain ⟨ptr, rfl, hptr⟩ := hkeeps.apart (Call.memory.inj (Action.call.inj he))
      exact ⟨ptr, rfl, hptr⟩

end MiniRtos
