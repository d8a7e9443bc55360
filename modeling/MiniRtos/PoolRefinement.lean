import MiniRtos.LinkedStack
import MiniRtos.KernelInvariant

/-!
# The memory pool is a stack of its free blocks

Three records of the pool have to agree: the links inside the free blocks, the
allocation bytes and the counter. `Represents` ties them to one list. Links of free
blocks survive because a client writes to allocated blocks only, and an address inside
the pool is the start of at most one block, which `block_index` finds.
-/
namespace MiniRtos
open TransitionSystem LinkedStack
variable {cfg : Config}

namespace Pool
variable {p : Pool cfg} {l : List ℤ}

/-- An `int` comes back from memory as it was stored. -/
theorem bytesInt_intByte {v : ℤ} (h₁ : -2 ^ 31 ≤ v) (h₂ : v < 2 ^ 31) :
    bytesInt (intByte v) = v := by
  have hbytes : (intByte v 3 ++ intByte v 2 ++ intByte v 1 ++ intByte v 0 : BitVec 32) =
      BitVec.ofInt 32 v := by
    unfold intByte
    generalize BitVec.ofInt 32 v = x
    rw [BitVec.extractLsb'_append_extractLsb'_eq_extractLsb' (by rfl),
      BitVec.extractLsb'_append_extractLsb'_eq_extractLsb' (by rfl),
      BitVec.extractLsb'_append_extractLsb'_eq_extractLsb' (by rfl)]
    simp
  rw [bytesInt, hbytes]
  exact BitVec.toInt_ofInt_eq_self (by omega) (by simpa using h₁) (by simpa using h₂)

def IsBlock (cfg : Config) (idx : ℤ) : Prop := 0 ≤ idx ∧ idx < cfg.rtosPoolBlockCount

instance (idx : ℤ) : Decidable (IsBlock cfg idx) := inferInstanceAs (Decidable (_ ∧ _))

/-- An address of one of the pool's bytes. -/
def InPool (cfg : Config) (ptr : BitVec 64) : Prop :=
  cfg.poolStorage.toNat ≤ ptr.toNat ∧
    ptr.toNat < cfg.poolStorage.toNat + cfg.rtosPoolBlockCount * cfg.rtosPoolBlockSize

instance (ptr : BitVec 64) : Decidable (InPool cfg ptr) := inferInstanceAs (Decidable (_ ∧ _))

/-- What a link can be. -/
theorem readNextLink_writeNextLink (p : Pool cfg) {idx next : ℤ}
    (h : next = poolEndOfList ∨ IsBlock cfg next) (i : ℤ) :
    (p.writeNextLink idx next).readNextLink i = if i = idx then next else p.readNextLink i := by
  have hcount := cfg.poolBlockCount_int
  have hrange : -2 ^ 31 ≤ next ∧ next < 2 ^ 31 := by
    rcases h with rfl | ⟨h₁, h₂⟩
    · simp [poolEndOfList]
    · omega
  simp only [readNextLink, writeNextLink]
  split_ifs with hi
  · subst hi
    rw [Function.update_self]
    exact bytesInt_intByte hrange.1 hrange.2
  · rw [Function.update_of_ne hi]

section Addresses

theorem block_offset_lt {n : ℕ} (h : n < cfg.rtosPoolBlockCount) :
    n * cfg.rtosPoolBlockSize < cfg.rtosPoolBlockCount * cfg.rtosPoolBlockSize :=
  Nat.mul_lt_mul_of_pos_right h (by have := cfg.poolBlockSize_int; omega)

theorem blockAddress_toNat {n : ℕ} (h : n < cfg.rtosPoolBlockCount) :
    (blockAddress cfg n).toNat = cfg.poolStorage.toNat + n * cfg.rtosPoolBlockSize := by
  have hlt := block_offset_lt h
  have hfits := cfg.poolStorage_fits
  have hcast : (n : ℤ) * cfg.rtosPoolBlockSize = ((n * cfg.rtosPoolBlockSize : ℕ) : ℤ) := by
    push_cast
    rfl
  rw [blockAddress, hcast, BitVec.ofInt_natCast, BitVec.toNat_add, BitVec.toNat_ofNat]
  rw [Nat.mod_eq_of_lt (a := n * cfg.rtosPoolBlockSize) (by omega), Nat.mod_eq_of_lt (by omega)]

theorem blockAddress_inPool {n : ℕ} (h : n < cfg.rtosPoolBlockCount) :
    InPool cfg (blockAddress cfg n) := by
  have hlt := block_offset_lt h
  rw [InPool, blockAddress_toNat h]
  omega

theorem blockAddress_ne_zero {n : ℕ} (h : n < cfg.rtosPoolBlockCount) :
    blockAddress cfg n ≠ 0#64 := by
  have hne := cfg.poolStorage_ne
  intro hz
  have hn := blockAddress_toNat h
  rw [hz] at hn
  simp only [BitVec.toNat_ofNat, Nat.zero_mod] at hn
  omega

/-- For an address inside the pool no conversion of `block_index` loses anything. -/
theorem blockIndex_inPool {ptr : BitVec 64} (h : InPool cfg ptr) :
    blockIndex cfg ptr =
      let offset := ptr.toNat - cfg.poolStorage.toNat
      if offset % cfg.rtosPoolBlockSize = 0 then ((offset / cfg.rtosPoolBlockSize : ℕ) : ℤ)
      else -1 := by
  obtain ⟨hlo, hhi⟩ := h
  have hsize := cfg.poolSize_ptrdiff
  have hcount := cfg.poolBlockCount_int
  have hpos : 0 < cfg.rtosPoolBlockSize := by
    have := cfg.poolBlockSize_int
    omega
  have hnlt : ¬ ptr < cfg.poolStorage := by
    rw [BitVec.lt_def]
    omega
  have hoff : (ptr - cfg.poolStorage).toNat = ptr.toNat - cfg.poolStorage.toNat :=
    BitVec.toNat_sub_of_le (BitVec.le_def.mpr hlo)
  have hint : (ptr - cfg.poolStorage).toInt =
      ((ptr.toNat - cfg.poolStorage.toNat : ℕ) : ℤ) := by
    rw [BitVec.toInt_eq_toNat_of_lt (by omega), hoff]
  simp only [blockIndex, if_neg hnlt, hint]
  generalize ho : ptr.toNat - cfg.poolStorage.toNat = offset
  have hdiv : offset / cfg.rtosPoolBlockSize < cfg.rtosPoolBlockCount :=
    Nat.div_lt_of_lt_mul (by rw [Nat.mul_comm]; omega)
  rw [Int.tmod_eq_emod_of_nonneg (by omega), Int.tdiv_eq_ediv_of_nonneg (by omega),
    ← Int.natCast_mod, ← Int.natCast_ediv]
  generalize offset / cfg.rtosPoolBlockSize = q at hdiv ⊢
  rw [BitVec.toInt_ofInt_eq_self (by omega) (by omega) (by simp; omega)]
  by_cases hm : offset % cfg.rtosPoolBlockSize = 0
  · rw [if_neg (by simp [hm]), if_neg (by omega), if_pos hm]
  · rw [if_pos (by exact_mod_cast hm), if_neg hm]

theorem blockIndex_blockAddress {n : ℕ} (h : n < cfg.rtosPoolBlockCount) :
    blockIndex cfg (blockAddress cfg n) = n := by
  have hpos : 0 < cfg.rtosPoolBlockSize := by
    have := cfg.poolBlockSize_int
    omega
  rw [blockIndex_inPool (blockAddress_inPool h), blockAddress_toNat h]
  simp [Nat.mul_div_cancel _ hpos]

/-- An address inside the pool whose block `block_index` finds is that block's start. -/
theorem blockIndex_isBlock {ptr : BitVec 64} (h : InPool cfg ptr)
    (hidx : 0 ≤ blockIndex cfg ptr) :
    IsBlock cfg (blockIndex cfg ptr) ∧ blockAddress cfg (blockIndex cfg ptr) = ptr := by
  have hlt : ∀ offset, offset < cfg.rtosPoolBlockCount * cfg.rtosPoolBlockSize →
      offset / cfg.rtosPoolBlockSize < cfg.rtosPoolBlockCount := fun offset ho =>
    Nat.div_lt_of_lt_mul (by rw [Nat.mul_comm]; omega)
  rw [blockIndex_inPool h] at hidx ⊢
  simp only at hidx ⊢
  obtain ⟨hlo, hhi⟩ := h
  split_ifs at hidx ⊢ with hm
  · have hb := hlt (ptr.toNat - cfg.poolStorage.toNat) (by omega)
    refine ⟨⟨by omega, by exact_mod_cast hb⟩, ?_⟩
    apply BitVec.eq_of_toNat_eq
    rw [blockAddress_toNat hb, Nat.div_mul_cancel (Nat.dvd_of_mod_eq_zero hm)]
    omega
  · omega

end Addresses

/-- The three records agree on the stack `l` of free blocks, the next one to go first. -/
structure Represents (p : Pool cfg) (l : List ℤ) : Prop where
  chain : Chain p.readNextLink poolEndOfList p.gFreeListHead l
  free : ∀ i, i ∈ l ↔ IsBlock cfg i ∧ p.gPoolAllocated i = 0#8
  available : p.gAvailableBlocks = l.length

/-- The free stack `memory_init` builds. -/
def allBlocks (cfg : Config) : List ℤ := (List.range cfg.rtosPoolBlockCount).map Nat.cast

/-- The link `memory_init` gives block `i`. -/
def initialLink (cfg : Config) (i : ℕ) : ℤ :=
  if i + 1 < cfg.rtosPoolBlockCount then i + 1 else poolEndOfList

theorem initialLink_link (i : ℕ) :
    initialLink cfg i = poolEndOfList ∨ IsBlock cfg (initialLink cfg i) := by
  unfold initialLink IsBlock
  split_ifs
  · right
    omega
  · exact .inl rfl

theorem initBlock_readNextLink (p : Pool cfg) (i : ℕ) (j : ℤ) :
    (p.initBlock i).readNextLink j = if j = i then initialLink cfg i else p.readNextLink j :=
  p.readNextLink_writeNextLink (initialLink_link i) j

theorem initBlock_gPoolAllocated (p : Pool cfg) (i : ℕ) (j : ℤ) :
    (p.initBlock i).gPoolAllocated j = if j = i then 0#8 else p.gPoolAllocated j := by
  simp [initBlock, writeNextLink, Function.update_apply]

/-- Loop invariant of `memory_init`. -/
theorem initBlocks (p : Pool cfg) (n : ℕ) :
    ∀ i < n, ((List.range n).foldl initBlock p).readNextLink i = initialLink cfg i ∧
      ((List.range n).foldl initBlock p).gPoolAllocated i = 0#8 := by
  induction n with
  | zero => simp
  | succ n ih =>
      intro i hi
      rw [List.range_succ, List.foldl_append, List.foldl_cons, List.foldl_nil,
        initBlock_readNextLink, initBlock_gPoolAllocated]
      by_cases he : i = n
      · simp [he]
      · rw [if_neg (by omega), if_neg (by omega)]
        exact ih i (by omega)

theorem memoryInit_represents (p : Pool cfg) : p.memoryInit.Represents (allBlocks cfg) where
  chain := by
    have hpos := cfg.poolBlockCount_pos
    have h := p.initBlocks cfg.rtosPoolBlockCount
    have hmap : allBlocks cfg = (List.range cfg.rtosPoolBlockCount).map fun i : ℕ =>
        if i < cfg.rtosPoolBlockCount then (i : ℤ) else poolEndOfList :=
      List.map_congr_left fun i hi => by rw [if_pos (List.mem_range.mp hi)]
    have hc : Chain p.memoryInit.readNextLink poolEndOfList
        (if 0 < cfg.rtosPoolBlockCount then ((0 : ℕ) : ℤ) else poolEndOfList) _ :=
      Chain.of_forall
        (f := fun i : ℕ => if i < cfg.rtosPoolBlockCount then (i : ℤ) else poolEndOfList)
        (n := cfg.rtosPoolBlockCount) (by simp)
        (fun i hi => by
          simp only [hi, if_true, poolEndOfList]
          omega)
        (fun i hi => by
          simp only [hi, if_true]
          refine (h i hi).1.trans ?_
          simp [initialLink])
    rw [if_pos (by omega)] at hc
    rw [hmap]
    exact hc
  free i := by
    have h := p.initBlocks cfg.rtosPoolBlockCount
    simp only [allBlocks, List.mem_map, List.mem_range, IsBlock]
    constructor
    · rintro ⟨n, hn, rfl⟩
      exact ⟨by omega, (h n hn).2⟩
    · rintro ⟨⟨h₁, h₂⟩, -⟩
      exact ⟨i.toNat, by omega, by omega⟩
  available := by simp [allBlocks, memoryInit]

theorem Represents.head_link (h : p.Represents l) :
    p.gFreeListHead = poolEndOfList ∨ IsBlock cfg p.gFreeListHead := by
  have hc := h.chain
  have hfree := h.free
  generalize p.gFreeListHead = a at hc ⊢
  cases hc with
  | nil => exact .inl rfl
  | cons _ _ => exact .inr ((hfree a).mp (by simp)).1

/-- The address of the block on top of the stack, `NULL` when there is none. -/
def topAddress (cfg : Config) : List ℤ → BitVec 64
  | [] => 0#64
  | i :: _ => blockAddress cfg i

/-- `memory_alloc` pops. -/
theorem Represents.memoryAlloc (h : p.Represents l) :
    p.memoryAlloc.1 = topAddress cfg l ∧
      p.memoryAlloc.2.Represents l.tail := by
  have hc := h.chain
  have hnodup := hc.nodup
  unfold Pool.memoryAlloc
  by_cases he : p.gFreeListHead = poolEndOfList
  · obtain rfl := hc.eq_nil_iff.mpr he
    simpa [he, topAddress] using h
  · rw [if_neg he]
    generalize hhead : p.gFreeListHead = head at hc he
    cases hc with
    | nil => exact absurd rfl he
    | @cons _ l hne hc =>
        refine ⟨rfl, hc, fun i => ?_, by simp [h.available]⟩
        have hi := h.free i
        simp only [List.tail_cons, List.nodup_cons, Function.update_apply] at hnodup ⊢
        by_cases hih : i = head
        · subst hih
          simp [hnodup.1]
        · simpa [hih] using hi

theorem Represents.memoryAlloc_eq_zero (h : p.Represents l) :
    p.memoryAlloc.1 = 0#64 ↔ ∀ i, IsBlock cfg i → p.gPoolAllocated i ≠ 0#8 := by
  rw [h.memoryAlloc.1]
  cases l with
  | nil =>
      have hfree := h.free
      simp only [List.not_mem_nil, false_iff, not_and] at hfree
      simpa [topAddress] using hfree
  | cons i l =>
      obtain ⟨⟨h₁, h₂⟩, hz⟩ := (h.free i).mp (by simp)
      obtain ⟨n, rfl⟩ : ∃ n : ℕ, i = n := ⟨i.toNat, by omega⟩
      have hne : blockAddress cfg n ≠ 0#64 := blockAddress_ne_zero (by omega)
      simp only [topAddress, hne, false_iff, not_forall]
      exact ⟨n, ⟨h₁, h₂⟩, not_not.mpr hz⟩

/-- `memory_free` by the block that `block_index` finds. -/
theorem memoryFree_of_index {ptr : BitVec 64} (hne : ptr ≠ 0#64) {i : ℤ}
    (hidx : blockIndex cfg ptr = i) (hi : 0 ≤ i) :
    p.memoryFree ptr =
      if p.gPoolAllocated i = 0#8 then p
      else
        { p.writeNextLink i p.gFreeListHead with
          gFreeListHead := i
          gPoolAllocated := Function.update p.gPoolAllocated i 0#8
          gAvailableBlocks := p.gAvailableBlocks + 1 } := by
  simp only [Pool.memoryFree, if_neg hne, hidx, if_neg (not_lt.mpr hi)]
  rfl

/-- `memory_free` of a live block pushes it. -/
theorem Represents.push (h : p.Represents l) {i : ℤ} (hb : IsBlock cfg i)
    (hlive : p.gPoolAllocated i ≠ 0#8) :
    ({ p.writeNextLink i p.gFreeListHead with
        gFreeListHead := i
        gPoolAllocated := Function.update p.gPoolAllocated i 0#8
        gAvailableBlocks := p.gAvailableBlocks + 1 } : Pool cfg).Represents (i :: l) := by
  have hnew : i ∉ l := fun hm => hlive ((h.free i).mp hm).2
  have hread : ∀ j, (p.writeNextLink i p.gFreeListHead).readNextLink j =
      if j = i then p.gFreeListHead else p.readNextLink j :=
    p.readNextLink_writeNextLink h.head_link
  refine ⟨?_, fun j => ?_, ?_⟩
  · have hne : i ≠ poolEndOfList := by
      have hpos : 0 ≤ i := hb.1
      rw [poolEndOfList]
      omega
    exact h.chain.push hne hnew ((hread i).trans (if_pos rfl)) fun c hc =>
      (hread c).trans (if_neg hc)
  · simp only [List.mem_cons, h.free j, Function.update_apply]
    by_cases hj : j = i
    · simp [hj, hb]
    · simp [hj]
  · simp [h.available]

/-- Clients write to live blocks, and links are in free ones. -/
theorem Represents.clientWrite (h : p.Represents l) {i : ℤ} (hlive : p.gPoolAllocated i ≠ 0#8)
    (offset : ℕ) (byte : BitVec 8) : (p.clientWrite i offset byte).Represents l where
  chain := by
    refine h.chain.congr fun b hb => ?_
    have hbi : b ≠ i := fun he => hlive (he ▸ ((h.free b).mp hb).2)
    exact congrArg bytesInt (Function.update_of_ne hbi _ _)
  free := h.free
  available := h.available

/-- The pool is a stack of its free blocks, and its three operations are the stack's. -/
structure FreeStack (p : Pool cfg) (l : List ℤ) : Prop where
  chain : Chain p.readNextLink poolEndOfList p.gFreeListHead l
  nodup : l.Nodup
  free : ∀ i, i ∈ l ↔ IsBlock cfg i ∧ p.gPoolAllocated i = 0#8
  available : p.gAvailableBlocks = l.length
  alloc : p.memoryAlloc.1 = topAddress cfg l ∧
    p.memoryAlloc.2.Represents l.tail
  allocNull : p.memoryAlloc.1 = 0#64 ↔ ∀ i, IsBlock cfg i → p.gPoolAllocated i ≠ 0#8
  freeLive : ∀ i, IsBlock cfg i → p.gPoolAllocated i ≠ 0#8 →
    (p.memoryFree (blockAddress cfg i)).Represents (i :: l)
  freeNull : p.memoryFree 0#64 = p
  freeMisaligned : ∀ ptr, InPool cfg ptr → (∀ i, IsBlock cfg i → ptr ≠ blockAddress cfg i) →
    p.memoryFree ptr = p
  freeTwice : ∀ i, IsBlock cfg i → p.gPoolAllocated i = 0#8 →
    p.memoryFree (blockAddress cfg i) = p

/-- The effect of `memory_free` on a block's own address. -/
theorem memoryFree_blockAddress {i : ℤ} (hb : IsBlock cfg i) :
    p.memoryFree (blockAddress cfg i) =
      if p.gPoolAllocated i = 0#8 then p
      else
        { p.writeNextLink i p.gFreeListHead with
          gFreeListHead := i
          gPoolAllocated := Function.update p.gPoolAllocated i 0#8
          gAvailableBlocks := p.gAvailableBlocks + 1 } := by
  obtain ⟨n, rfl⟩ : ∃ n : ℕ, i = n := ⟨i.toNat, by have := hb.1; omega⟩
  have hn : n < cfg.rtosPoolBlockCount := by exact_mod_cast hb.2
  exact memoryFree_of_index (blockAddress_ne_zero hn) (blockIndex_blockAddress hn) hb.1

theorem memoryFree_rejected {ptr : BitVec 64} (h : ptr = 0#64 ∨ blockIndex cfg ptr < 0) :
    p.memoryFree ptr = p := by
  rcases h with rfl | h
  · rfl
  · simp only [memoryFree, if_pos h, ite_self]

theorem Represents.freeStack (h : p.Represents l) : p.FreeStack l where
  chain := h.chain
  nodup := h.chain.nodup
  free := h.free
  available := h.available
  alloc := h.memoryAlloc
  allocNull := h.memoryAlloc_eq_zero
  freeLive i hb hlive := by
    rw [memoryFree_blockAddress hb, if_neg hlive]
    exact h.push hb hlive
  freeNull := memoryFree_rejected (.inl rfl)
  freeMisaligned ptr hin hne := by
    refine memoryFree_rejected (.inr (not_le.mp fun hidx => ?_))
    obtain ⟨hb, ha⟩ := blockIndex_isBlock hin hidx
    exact hne _ hb ha.symm
  freeTwice i hb hz := by rw [memoryFree_blockAddress hb, if_pos hz]

/-- `memory_free` of any address inside the pool, on the stack. -/
theorem Represents.memoryFree (h : p.Represents l) {ptr : BitVec 64} (hne : ptr ≠ 0#64)
    (hin : InPool cfg ptr) (hidx : 0 ≤ blockIndex cfg ptr) :
    (p.memoryFree ptr).Represents (apply l (.free (blockIndex cfg ptr))).2 := by
  have hb := (blockIndex_isBlock hin hidx).1
  rw [memoryFree_of_index hne rfl hidx]
  by_cases hz : p.gPoolAllocated (blockIndex cfg ptr) = 0#8
  · simpa [apply, hz, (h.free _).mpr ⟨hb, hz⟩] using h
  · have hnew : blockIndex cfg ptr ∉ l := fun hm => hz ((h.free _).mp hm).2
    rw [if_neg hz]
    simp only [apply, if_neg hnew]
    exact h.push hb hz

end Pool

theorem Machine.exec_pool {m m' : Machine cfg} {c : Call cfg} {v : Value}
    (h : m.exec c = some (v, m')) (hc : ∀ c', c ≠ .memory c') : m'.pool = m.pool := by
  cases exec_cases h with
  | @memory c => exact absurd rfl (hc c)
  | _ => rfl

/-- Application code frees `NULL` and addresses inside the pool. -/
def freesInPool (e : Edge cfg) : Bool :=
  match e.act with
  | .call (.memory (.free ptr)) => ptr = 0#64 ∨ Pool.InPool cfg ptr
  | _ => true

/-- The stack operation a step performs, with what it gives back. -/
def poolOp (e : Edge cfg) : Option (Op ℤ × Option ℤ) :=
  match e.act, e.obs with
  | .init, _ => some (.reset (Pool.allBlocks cfg), none)
  | .call (.memory .alloc), .returned (.address a) =>
      some (.alloc, if a = 0#64 then none else some (Pool.blockIndex cfg a))
  | .call (.memory (.free ptr)), _ =>
      if ptr = 0#64 ∨ Pool.blockIndex cfg ptr < 0 then none
      else some (.free (Pool.blockIndex cfg ptr), none)
  | _, _ => none

theorem Machine.exec_memory {m m' : Machine cfg} {c : MemoryCall} {v : Value}
    (h : m.exec (.memory c) = some (v, m')) : c.exec m.pool = some (v, m'.pool) := by
  cases exec_cases h with
  | memory hc => exact hc

section Steps
variable {u w : System cfg} {a : Action cfg} {o : Observation cfg} {l : List ℤ}

/-- What a step does to the pool, in terms of the stack. -/
theorem pool_step (h : u.machine.pool.Represents l)
    (hok : freesInPool (⟨u, a, o, w⟩ : Edge cfg)) (hs : step u a = some (o, w)) :
    match poolOp (⟨u, a, o, w⟩ : Edge cfg) with
    | none => w.machine.pool.Represents l
    | some (b, y) => y = (apply l b).1 ∧ w.machine.pool.Represents (apply l b).2 := by
  cases step_cases hs with
  | init => exact ⟨rfl, Pool.memoryInit_represents _⟩
  | @call c v m _ hexec =>
      by_cases hc : ∀ c', c ≠ .memory c'
      · have hpool := Machine.exec_pool hexec hc
        cases c with
        | memory c => exact absurd rfl (hc c)
        | _ => simpa [poolOp, hpool] using h
      push Not at hc
      obtain ⟨c, rfl⟩ := hc
      have hm := Machine.exec_memory hexec
      generalize hq : m.pool = q at hm
      cases c with
      | alloc =>
          simp only [MemoryCall.exec, Option.some.injEq, Prod.mk.injEq] at hm
          obtain ⟨rfl, rfl⟩ := hm
          obtain ⟨hres, hrep⟩ := h.memoryAlloc
          refine ⟨?_, hq ▸ hrep⟩
          rw [hres]
          cases l with
          | nil => rfl
          | cons i l =>
              obtain ⟨⟨h₁, h₂⟩, -⟩ := (h.free i).mp (by simp)
              obtain ⟨n, rfl⟩ : ∃ n : ℕ, i = n := ⟨i.toNat, by omega⟩
              have hn : n < cfg.rtosPoolBlockCount := by exact_mod_cast h₂
              simp [Pool.topAddress, Pool.blockAddress_ne_zero hn,
                Pool.blockIndex_blockAddress hn, apply]
      | free ptr =>
          simp only [MemoryCall.exec, Option.some.injEq, Prod.mk.injEq] at hm
          obtain ⟨rfl, rfl⟩ := hm
          simp only [poolOp]
          by_cases hr : ptr = 0#64 ∨ Pool.blockIndex cfg ptr < 0
          · rw [if_pos hr]
            simp only [Pool.memoryFree_rejected hr]
            exact h
          · rw [if_neg hr]
            push Not at hr
            have hin : Pool.InPool cfg ptr := by simpa [freesInPool, hr.1] using hok
            exact ⟨rfl, hq ▸ h.memoryFree hr.1 hin hr.2⟩
      | availableBlocks =>
          simp only [MemoryCall.exec, Option.some.injEq, Prod.mk.injEq] at hm
          simpa [poolOp, hq, ← hm.2] using h
      | write idx offset byte =>
          simp only [MemoryCall.exec] at hm
          split_ifs at hm with hlive
          simp only [Option.some.injEq, Prod.mk.injEq] at hm
          simp only [poolOp, ← hm.2]
          exact h.clientWrite hlive.2.2.2 offset byte
  | _ => exact h

end Steps

/-- Every run performs a run of the stack of free blocks, with the same results, and
leaves the pool as the picture of that stack. -/
theorem memory_pool_refines {s v : System cfg} {tr : History cfg} (hs : Initial s)
    (h : Run step s tr v) (hok : ∀ e ∈ tr, freesInPool e) :
    ∃ l, Performs apply (Pool.allBlocks cfg) (labels poolOp tr) l ∧
      v.machine.pool.FreeStack l := by
  have h₀ : s.machine.pool.Represents (Pool.allBlocks cfg) := by
    obtain ⟨-, m, hm⟩ := hs
    rw [hm]
    exact m.pool.memoryInit_represents
  have href : ∃ l, Performs apply (Pool.allBlocks cfg) (labels poolOp tr) l ∧
      v.machine.pool.Represents l := by
    refine h.refines (R := fun l s => s.machine.pool.Represents l) h₀ hok ?_ ?_
    · intro u a o w l hu hok hs hl
      have hstep := pool_step hu hok hs
      rw [hl] at hstep
      exact hstep
    · intro u a o w l b y hu hok hs hl
      have hstep := pool_step hu hok hs
      rw [hl] at hstep
      exact hstep
  obtain ⟨l, hp, hr⟩ := href
  exact ⟨l, hp, hr.freeStack⟩

/-- Two blocks are taken, the first is overwritten where its link was and given back. -/
def poolRun : List (Action Config.default) :=
  [.call (.memory .alloc), .call (.memory .alloc), .call (.memory (.write 0 0 0xFF#8)),
    .call (.memory (.free 0x404080#64)), .call (.memory (.free 0x404080#64))]

theorem memory_pool_refines_poolRun :
    (System.after _ poolRun).2.machine.pool.gFreeListHead = 0 ∧
      (System.after _ poolRun).2.machine.pool.gAvailableBlocks = 15 ∧
        ∃ l, Performs apply (Pool.allBlocks .default) (labels poolOp (System.after _ poolRun).1) l ∧
          (System.after _ poolRun).2.machine.pool.FreeStack l :=
  ⟨by decide +kernel, by decide +kernel,
    memory_pool_refines (System.boot_initial _) (run_played _ poolRun) (by decide +kernel)⟩

end MiniRtos
