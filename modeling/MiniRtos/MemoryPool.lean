import MiniRtos.Config
import Mathlib.Logic.Function.Basic

/-!
# The fixed-size memory pool

`memory.c` on an LP64 host: addresses and `ptrdiff_t` have 64 bits, `int` has 32,
and a conversion to `int` wraps. A free block keeps the index of the next free block
in its first four bytes, least significant byte first, and the same bytes belong to
the client while the block is allocated.
-/
namespace MiniRtos

structure Pool (cfg : Config) where
  gPoolStorage : ℤ → ℕ → BitVec 8
  gPoolAllocated : ℤ → BitVec 8
  gFreeListHead : ℤ
  gAvailableBlocks : ℤ

namespace Pool
variable {cfg : Config}

def poolEndOfList : ℤ := -1

/-- `(void *)g_pool_storage[idx]`. -/
def blockAddress (cfg : Config) (idx : ℤ) : BitVec 64 :=
  cfg.poolStorage + BitVec.ofInt 64 (idx * cfg.rtosPoolBlockSize)

/-- The pointer comparison is unsigned, the difference is a signed 64-bit number, and
the quotient is narrowed to `int` before its range is tested. -/
def blockIndex (cfg : Config) (ptr : BitVec 64) : ℤ :=
  if ptr < cfg.poolStorage then -1
  else
    let offset : ℤ := (ptr - cfg.poolStorage).toInt
    if offset.tmod cfg.rtosPoolBlockSize ≠ 0 then -1
    else
      let idx : ℤ := (BitVec.ofInt 32 (offset.tdiv cfg.rtosPoolBlockSize)).toInt
      if idx < 0 ∨ cfg.rtosPoolBlockCount ≤ idx then -1 else idx

/-- Byte `k` of an `int` in memory. -/
def intByte (v : ℤ) (k : ℕ) : BitVec 8 := (BitVec.ofInt 32 v).extractLsb' (8 * k) 8

def bytesInt (b : ℕ → BitVec 8) : ℤ := (b 3 ++ b 2 ++ b 1 ++ b 0 : BitVec 32).toInt

def readNextLink (p : Pool cfg) (idx : ℤ) : ℤ := bytesInt (p.gPoolStorage idx)

def writeNextLink (p : Pool cfg) (idx next : ℤ) : Pool cfg :=
  { p with
    gPoolStorage := Function.update p.gPoolStorage idx fun k =>
      if k < 4 then intByte next k else p.gPoolStorage idx k }

/-- One pass of the loop of `memory_init`. -/
def initBlock (p : Pool cfg) (i : ℕ) : Pool cfg :=
  let next : ℤ := if i + 1 < cfg.rtosPoolBlockCount then i + 1 else poolEndOfList
  let p := p.writeNextLink i next
  { p with gPoolAllocated := Function.update p.gPoolAllocated i 0#8 }

def memoryInit (p : Pool cfg) : Pool cfg :=
  { (List.range cfg.rtosPoolBlockCount).foldl initBlock p with
    gFreeListHead := 0
    gAvailableBlocks := cfg.rtosPoolBlockCount }

def memoryAlloc (p : Pool cfg) : BitVec 64 × Pool cfg :=
  if p.gFreeListHead = poolEndOfList then (0#64, p)
  else
    let idx := p.gFreeListHead
    let next := p.readNextLink idx
    (blockAddress cfg idx,
      { p with
        gFreeListHead := next
        gPoolAllocated := Function.update p.gPoolAllocated idx 1#8
        gAvailableBlocks := p.gAvailableBlocks - 1 })

def memoryFree (p : Pool cfg) (ptr : BitVec 64) : Pool cfg :=
  if ptr = 0#64 then p
  else
    let idx := blockIndex cfg ptr
    if idx < 0 then p
    else if p.gPoolAllocated idx = 0#8 then p
    else
      let p := p.writeNextLink idx p.gFreeListHead
      { p with
        gFreeListHead := idx
        gPoolAllocated := Function.update p.gPoolAllocated idx 0#8
        gAvailableBlocks := p.gAvailableBlocks + 1 }

def memoryAvailableBlocks (p : Pool cfg) : ℤ := p.gAvailableBlocks

/-- A client stores one byte in a block it holds. -/
def clientWrite (p : Pool cfg) (idx : ℤ) (offset : ℕ) (byte : BitVec 8) : Pool cfg :=
  { p with
    gPoolStorage := Function.update p.gPoolStorage idx
      (Function.update (p.gPoolStorage idx) offset byte) }

end Pool

end MiniRtos
