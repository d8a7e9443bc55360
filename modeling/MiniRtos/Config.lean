import Mathlib.Data.BitVec
import Mathlib.Tactic.Common

/-!
# Build configuration

The macros of `rtos.h`, `event.h` and `memory.h`, at any values, and the address at
which the linker places the pool. A build may override those of `event.h` and
`memory.h`; `rtos.h` defines its own unconditionally, so they are changed there. The
fields below the values are what a C compiler or the headers demand of them: array bounds
are positive and fit an `int`, a pool block has room for the `int` link stored in it,
a table of event waiters is no longer than the task table, and the pool is an object
whose size fits a `ptrdiff_t`, inside the address space and not at `NULL`.
-/
namespace MiniRtos

/-- `INT_MIN ≤ v` and `v ≤ INT_MAX`. -/
def IsInt (v : ℤ) : Prop := -2 ^ 31 ≤ v ∧ v < 2 ^ 31

instance (v : ℤ) : Decidable (IsInt v) := inferInstanceAs (Decidable (_ ∧ _))

structure Config where
  rtosMaxTasks : ℕ
  rtosQueueSize : ℕ
  rtosStackSize : ℕ
  rtosTimeSliceTicks : ℕ
  rtosSoftTimerCount : ℕ
  rtosEventMaxWaiters : ℕ
  rtosPoolBlockSize : ℕ
  rtosPoolBlockCount : ℕ
  /-- `&g_pool_storage[0][0]` on an LP64 host. -/
  poolStorage : BitVec 64
  maxTasks_pos : 1 ≤ rtosMaxTasks
  maxTasks_int : rtosMaxTasks < 2 ^ 31
  queueSize_pos : 1 ≤ rtosQueueSize
  queueSize_int : rtosQueueSize < 2 ^ 31
  timeSlice_pos : 1 ≤ rtosTimeSliceTicks
  timeSlice_uint : rtosTimeSliceTicks < 2 ^ 32
  softTimerCount_pos : 1 ≤ rtosSoftTimerCount
  softTimerCount_int : rtosSoftTimerCount < 2 ^ 31
  eventMaxWaiters_pos : 1 ≤ rtosEventMaxWaiters
  eventMaxWaiters_le : rtosEventMaxWaiters ≤ rtosMaxTasks
  poolBlockSize_int : 4 ≤ rtosPoolBlockSize
  poolBlockCount_pos : 1 ≤ rtosPoolBlockCount
  poolBlockCount_int : rtosPoolBlockCount < 2 ^ 31
  poolSize_ptrdiff : rtosPoolBlockCount * rtosPoolBlockSize < 2 ^ 63
  poolStorage_ne : 0 < poolStorage.toNat
  poolStorage_fits :
    poolStorage.toNat + rtosPoolBlockCount * rtosPoolBlockSize ≤ 2 ^ 64

/-- The values the headers define, with the pool at a typical data address. -/
def Config.default : Config where
  rtosMaxTasks := 8
  rtosQueueSize := 10
  rtosStackSize := 256
  rtosTimeSliceTicks := 1
  rtosSoftTimerCount := 8
  rtosEventMaxWaiters := 8
  rtosPoolBlockSize := 32
  rtosPoolBlockCount := 16
  poolStorage := 0x404080#64
  maxTasks_pos := by decide
  maxTasks_int := by decide
  queueSize_pos := by decide
  queueSize_int := by decide
  timeSlice_pos := by decide
  timeSlice_uint := by decide
  softTimerCount_pos := by decide
  softTimerCount_int := by decide
  eventMaxWaiters_pos := by decide
  eventMaxWaiters_le := by decide
  poolBlockSize_int := by decide
  poolBlockCount_pos := by decide
  poolBlockCount_int := by decide
  poolSize_ptrdiff := by decide
  poolStorage_ne := by decide
  poolStorage_fits := by decide

end MiniRtos
