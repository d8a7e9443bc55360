import MiniRtos.PoolRefinement
import Mathlib.Tactic.Ring

/-!
# Which addresses `memory_free` takes for a block

`block_index` narrows the quotient of the byte offset to `int` and tests its range only
then, so an offset is accepted whenever its block number is right modulo 2 ^ 32. Besides
the starts of the blocks these are addresses that lie a multiple of 2 ^ 32 blocks away
from one of them; beyond half the address space the offset is a negative number.
-/
namespace MiniRtos
variable {cfg : Config}

namespace Pool

/-- `ptr` is not below the pool, and its offset from there is that of block `n` and `wraps`
times 2 ^ 32 blocks more. -/
def OffsetOf (cfg : Config) (ptr : BitVec 64) (n : ℕ) (wraps : ℤ) : Prop :=
  cfg.poolStorage ≤ ptr ∧
    (ptr - cfg.poolStorage).toInt = (n + 2 ^ 32 * wraps) * cfg.rtosPoolBlockSize

/-- `ptr` is some multiple of 2 ^ 32 blocks away from a block that is allocated. -/
def Aliases (p : Pool cfg) (ptr : BitVec 64) : Prop :=
  ∃ n < cfg.rtosPoolBlockCount, p.gPoolAllocated n ≠ 0#8 ∧
    ∃ wraps ≠ 0, OffsetOf cfg ptr n wraps

/-- If `memory_free` changes anything, it was given the start of an allocated block. -/
def FreesOwnBlock (p : Pool cfg) (ptr : BitVec 64) : Prop :=
  p.memoryFree ptr ≠ p →
    ∃ n < cfg.rtosPoolBlockCount, ptr = blockAddress cfg n ∧ p.gPoolAllocated n ≠ 0#8

theorem blockSize_pos (cfg : Config) : (0 : ℤ) < cfg.rtosPoolBlockSize := by
  have := cfg.poolBlockSize_int
  omega

/-- Narrowing a quotient to `int` gives a block number exactly when it is right modulo
2 ^ 32. -/
theorem narrowed_eq_iff {q : ℤ} {n : ℕ} (hn : n < cfg.rtosPoolBlockCount) :
    (BitVec.ofInt 32 q).toInt = n ↔ ∃ wraps : ℤ, q = n + 2 ^ 32 * wraps := by
  have hcount := cfg.poolBlockCount_int
  rw [BitVec.toInt_ofInt, Int.bmod_eq_iff (by decide)]
  constructor
  · rintro ⟨-, -, k, hk⟩
    exact ⟨-k, by push_cast at hk; omega⟩
  · rintro ⟨wraps, rfl⟩
    refine ⟨?_, ?_, -wraps, ?_⟩
    · push_cast
      omega
    · push_cast
      omega
    · push_cast
      ring

/-- The block numbers `block_index` returns, and for which addresses. -/
theorem blockIndex_eq_iff {ptr : BitVec 64} {n : ℕ} (hn : n < cfg.rtosPoolBlockCount) :
    blockIndex cfg ptr = n ↔ ∃ wraps, OffsetOf cfg ptr n wraps := by
  have hsize := blockSize_pos cfg
  unfold blockIndex OffsetOf
  by_cases hlt : ptr < cfg.poolStorage
  · have hnle : ¬ cfg.poolStorage ≤ ptr := by simpa using hlt
    rw [if_pos hlt]
    simp only [hnle, false_and, exists_false, iff_false]
    omega
  · have hle : cfg.poolStorage ≤ ptr := by simpa using hlt
    rw [if_neg hlt]
    simp only [hle, true_and]
    generalize (ptr - cfg.poolStorage).toInt = offset
    by_cases hmod : offset.tmod cfg.rtosPoolBlockSize = 0
    · obtain ⟨q, rfl⟩ := Int.dvd_of_tmod_eq_zero hmod
      have hrange : ∀ x : ℤ,
          (if x < 0 ∨ (cfg.rtosPoolBlockCount : ℤ) ≤ x then -1 else x) = n ↔ x = n := by
        intro x
        by_cases hx : x < 0 ∨ (cfg.rtosPoolBlockCount : ℤ) ≤ x
        · rw [if_pos hx]
          omega
        · rw [if_neg hx]
      rw [if_neg (not_not.mpr hmod), Int.mul_tdiv_cancel_left _ hsize.ne', hrange,
        narrowed_eq_iff hn]
      simp only [mul_comm (cfg.rtosPoolBlockSize : ℤ), mul_left_inj' hsize.ne']
    · rw [if_pos hmod]
      constructor
      · intro h
        omega
      · rintro ⟨wraps, rfl⟩
        exact absurd (Int.mul_tmod_left _ _) hmod

theorem blockIndex_cases (cfg : Config) (ptr : BitVec 64) :
    blockIndex cfg ptr < 0 ∨ ∃ n < cfg.rtosPoolBlockCount, blockIndex cfg ptr = n := by
  unfold blockIndex
  dsimp only
  split_ifs with hlt hmod hrange
  · exact .inl (by decide)
  · exact .inl (by decide)
  · exact .inl (by decide)
  · obtain ⟨hpos, hcount⟩ := not_or.mp hrange
    generalize (BitVec.ofInt 32 _).toInt = idx at hpos hcount
    exact .inr ⟨idx.toNat, by omega, by omega⟩

theorem isBlock_blockIndex {ptr : BitVec 64} (h : ¬ blockIndex cfg ptr < 0) :
    IsBlock cfg (blockIndex cfg ptr) := by
  rcases blockIndex_cases cfg ptr with hneg | ⟨n, hn, heq⟩
  · exact absurd hneg h
  · rw [heq]
    constructor <;> omega

/-- Without the multiple of 2 ^ 32 blocks the address is the start of the block. -/
theorem offsetOf_zero {ptr : BitVec 64} {n : ℕ} (hn : n < cfg.rtosPoolBlockCount) :
    OffsetOf cfg ptr n 0 ↔ ptr = blockAddress cfg n := by
  have hlt := block_offset_lt hn
  have hsize := cfg.poolSize_ptrdiff
  have hblock : cfg.poolStorage ≤ blockAddress cfg n ∧
      (blockAddress cfg n - cfg.poolStorage).toNat = n * cfg.rtosPoolBlockSize := by
    have hle : cfg.poolStorage ≤ blockAddress cfg n := by
      rw [BitVec.le_def, blockAddress_toNat hn]
      omega
    refine ⟨hle, ?_⟩
    rw [BitVec.toNat_sub_of_le hle, blockAddress_toNat hn]
    omega
  have hoffset : (n + 2 ^ 32 * 0 : ℤ) * cfg.rtosPoolBlockSize =
      ((n * cfg.rtosPoolBlockSize : ℕ) : ℤ) := by
    push_cast
    ring
  unfold OffsetOf
  rw [hoffset]
  constructor
  · rintro ⟨-, heq⟩
    have hdiff : ptr - cfg.poolStorage = blockAddress cfg n - cfg.poolStorage := by
      apply BitVec.eq_of_toInt_eq
      rw [heq, BitVec.toInt_eq_toNat_of_lt (by omega), hblock.2]
    simpa using congrArg (· + cfg.poolStorage) hdiff
  · rintro rfl
    refine ⟨hblock.1, ?_⟩
    rw [BitVec.toInt_eq_toNat_of_lt (by omega), hblock.2]

/-- An address is accepted for one block only. -/
theorem OffsetOf.unique {ptr : BitVec 64} {n k : ℕ} {v w : ℤ}
    (hn : n < cfg.rtosPoolBlockCount) (hk : k < cfg.rtosPoolBlockCount)
    (h : OffsetOf cfg ptr n v) (h' : OffsetOf cfg ptr k w) : n = k ∧ v = w := by
  have hcount := cfg.poolBlockCount_int
  have heq := h.2.symm.trans h'.2
  rw [mul_left_inj' (blockSize_pos cfg).ne'] at heq
  omega

theorem memoryFree_ne_iff (p : Pool cfg) (ptr : BitVec 64) :
    p.memoryFree ptr ≠ p ↔ ∃ n < cfg.rtosPoolBlockCount, p.gPoolAllocated n ≠ 0#8 ∧
      ∃ wraps, OffsetOf cfg ptr n wraps := by
  constructor
  · intro hne
    rcases blockIndex_cases cfg ptr with hneg | ⟨n, hn, hidx⟩
    · exact absurd (memoryFree_rejected (.inr hneg)) hne
    · refine ⟨n, hn, fun hfree => hne ?_, (blockIndex_eq_iff hn).mp hidx⟩
      have hptr : ptr ≠ 0#64 := fun hz => hne (memoryFree_rejected (.inl hz))
      rw [memoryFree_of_index hptr hidx (by omega), if_pos hfree]
  · rintro ⟨n, hn, hlive, hoffset⟩ heq
    have hptr : ptr ≠ 0#64 := by
      obtain ⟨-, hle, -⟩ := hoffset
      have hpos := cfg.poolStorage_ne
      rintro rfl
      simp [BitVec.le_def] at hle
      omega
    rw [memoryFree_of_index hptr ((blockIndex_eq_iff hn).mpr hoffset) (by omega),
      if_neg hlive] at heq
    have havailable := congrArg gAvailableBlocks heq
    simp at havailable

/-- `memory_free` accepts the starts of allocated blocks and their aliases, and nothing
else. -/
theorem freesOwnBlock_iff (p : Pool cfg) (ptr : BitVec 64) :
    p.FreesOwnBlock ptr ↔ ¬ p.Aliases ptr := by
  constructor
  · rintro hown ⟨n, hn, hlive, wraps, hne, hoffset⟩
    have hchange := (p.memoryFree_ne_iff ptr).mpr ⟨n, hn, hlive, wraps, hoffset⟩
    obtain ⟨k, hk, haddress, -⟩ := hown hchange
    exact hne (hoffset.unique hn hk ((offsetOf_zero hk).mpr haddress)).2
  · intro halias hchange
    obtain ⟨n, hn, hlive, wraps, hoffset⟩ := (p.memoryFree_ne_iff ptr).mp hchange
    by_cases hw : wraps = 0
    · subst hw
      exact ⟨n, hn, (offsetOf_zero hn).mp hoffset, hlive⟩
    · exact absurd ⟨n, hn, hlive, wraps, hw, hoffset⟩ halias

end Pool

/-- The pool of the default configuration with block 0 in use. -/
def oneBlockInUse : Pool Config.default :=
  (System.after Config.default [.call (.memory .alloc)]).2.machine.pool

/-- An address 2 ^ 32 blocks past the start of the pool gives block 0 back. -/
theorem foreign_pointer_frees : ¬ oneBlockInUse.FreesOwnBlock 0x2000404080#64 := by
  intro h
  have hchange : oneBlockInUse.memoryFree 0x2000404080#64 ≠ oneBlockInUse := by
    intro heq
    have havailable := congrArg Pool.gAvailableBlocks heq
    revert havailable
    decide +kernel
  obtain ⟨n, hn, haddress, -⟩ := h hchange
  have htoNat := congrArg BitVec.toNat haddress
  rw [Pool.blockAddress_toNat hn] at htoNat
  simp only [Config.default] at hn htoNat
  simp at htoNat
  omega

end MiniRtos
