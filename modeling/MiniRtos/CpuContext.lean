import MiniRtos.Config

/-!
# The software CPU context

`context.c` keeps one register file, `active_context`, and copies it to and from
the contexts that the task control blocks own. The functions here act on register
files as values; which memory they are stored to is decided by their callers.
-/
namespace MiniRtos

structure CPUContext where
  r0 : BitVec 32
  r1 : BitVec 32
  r2 : BitVec 32
  r3 : BitVec 32
  r4 : BitVec 32
  r5 : BitVec 32
  r6 : BitVec 32
  r7 : BitVec 32
  r8 : BitVec 32
  r9 : BitVec 32
  r10 : BitVec 32
  r11 : BitVec 32
  r12 : BitVec 32
  lr : BitVec 32
  pc : BitVec 32
  xpsr : BitVec 32
deriving DecidableEq, Repr

def contextInitialXpsr : BitVec 32 := 0x01000000#32
def contextInitialLr : BitVec 32 := 0xFFFFFFFD#32

def contextClear : CPUContext :=
  ⟨0#32, 0#32, 0#32, 0#32, 0#32, 0#32, 0#32, 0#32, 0#32, 0#32, 0#32, 0#32, 0#32, 0#32,
    0#32, 0#32⟩

/-- The entry point is a 64-bit code address; the simulated `pc` keeps its low word. -/
def contextInit (entryPoint : BitVec 64) : CPUContext :=
  { contextClear with
    lr := contextInitialLr
    pc := entryPoint.setWidth 32
    xpsr := contextInitialXpsr }

end MiniRtos
