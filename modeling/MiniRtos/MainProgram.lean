import MiniRtos.Application

/-!
# The application of `main.c`

A sensor task sends samples to a queue and signals a semaphore for each, a logger task
waits for the semaphore, takes a sample from the queue and prints it, and a display task
prints now and then; the last two share a mutex. The functions are scripts over the calls
they make; where the linker has put them is not known.
-/
namespace MiniRtos.MainProgram
open TransitionSystem
variable {cfg : Config}

/-- `static Semaphore data_ready;` -/
def dataReady : ℕ := 0
/-- `static Mutex uart_mutex;` -/
def uartMutex : ℕ := 0
/-- `static MessageQueue sensor_queue;` -/
def sensorQueue : ℕ := 0

/-- What the application prints. -/
inductive Line where
  /-- `"Mini RTOS PC Simulator"` -/
  | title
  /-- `"----------------------"` -/
  | rule
  /-- `"Sensor Task produced sample=%d"` -/
  | produced (sample : ℤ)
  /-- `"Logger Task stored sample=%d"` -/
  | stored (sample : ℤ)
  /-- `"Display Task refreshed"` -/
  | refreshed
deriving DecidableEq

/-- The result of a call of type `bool`. -/
def truth : Value → Bool
  | .bool b => b
  | _ => false

/-- The result of `rtos_queue_receive` with the value it stored. -/
def receivedValue : Value → Option ℤ
  | .received v => v
  | _ => none

abbrev Code (cfg : Config) (ρ : Type) := Script (Request cfg Line) Value ρ

def rtosTaskSleep (ticks : ℤ) : Code cfg Unit :=
  .query (.call (.task (.sleep ticks))) fun _ => ()

def rtosSemWait (sem : ℕ) : Code cfg Bool := .query (.call (.sync (.semWait sem))) truth

def rtosSemSignal (sem : ℕ) : Code cfg Unit :=
  .query (.call (.sync (.semSignal sem))) fun _ => ()

def rtosMutexLock (mutex : ℕ) : Code cfg Bool :=
  .query (.call (.sync (.mutexLock mutex))) truth

def rtosMutexUnlock (mutex : ℕ) : Code cfg Unit :=
  .query (.call (.sync (.mutexUnlock mutex))) fun _ => ()

def rtosQueueSend (queue : ℕ) (value : ℤ) : Code cfg Bool :=
  .query (.call (.sync (.queueSend queue value))) truth

def rtosQueueReceive (queue : ℕ) : Code cfg (Option ℤ) :=
  .query (.call (.sync (.queueReceive queue))) receivedValue

/-- An `int` expression, which is undefined when it overflows. -/
def intValue (v : ℤ) : Code cfg ℤ := .query (.int v) fun _ => v

def uartLog (line : Line) : Code cfg Unit := .query (.log line) fun _ => ()

/-- The argument is `static int sample`, and so is the result. -/
def sensorTask (sample : ℤ) : Code cfg ℤ := do
  let mut sample := sample
  if ← rtosQueueSend sensorQueue sample then
    uartLog (.produced sample)
    sample ← intValue (sample + 5)
    rtosSemSignal dataReady
  rtosTaskSleep 3
  return sample

def loggerTask : Code cfg Unit := do
  if !(← rtosSemWait dataReady) then
    return
  match ← rtosQueueReceive sensorQueue with
  | none => return
  | some sample =>
      if !(← rtosMutexLock uartMutex) then
        return
      uartLog (.stored sample)
      rtosMutexUnlock uartMutex
      rtosTaskSleep 2

def displayTask : Code cfg Unit := do
  if !(← rtosMutexLock uartMutex) then
    return
  uartLog .refreshed
  rtosMutexUnlock uartMutex
  rtosTaskSleep 4

/-- The addresses of the three functions. -/
structure Image where
  sensorTask : BitVec 64
  loggerTask : BitVec 64
  displayTask : BitVec 64
  nodup : [sensorTask, loggerTask, displayTask].Nodup

/-- `main`, with the priorities it gives the tasks and the ticks it runs them for. -/
def mainWith (cfg : Config) (img : Image) (sensor logger display ticks : ℤ) :
    List (Statement cfg Line) :=
  [.kernel .init,
    .kernel (.call (.sync (.semaphoreInit dataReady 0))),
    .kernel (.call (.sync (.mutexInit uartMutex))),
    .kernel (.call (.sync (.queueInit sensorQueue))),
    .kernel (.call (.task (.create sensor img.sensorTask))),
    .kernel (.call (.task (.create logger img.loggerTask))),
    .kernel (.call (.task (.create display img.displayTask))),
    .log .title,
    .log .rule,
    .kernel (.run ticks)]

/-- Only the sensor task has a static variable. -/
def applicationWith (cfg : Config) (img : Image) (sensor logger display ticks : ℤ) :
    Application cfg ℤ Line where
  main := mainWith cfg img sensor logger display ticks
  taskFunction a :=
    if a = img.sensorTask then some sensorTask
    else if a = img.loggerTask then some fun sample => do loggerTask; return sample
    else if a = img.displayTask then some fun sample => do displayTask; return sample
    else none
  callback _ _ := none

/-- `main.c` -/
def application (cfg : Config) (img : Image) : Application cfg ℤ Line :=
  applicationWith cfg img 3 2 1 25

/-- The initial value of `sample`. -/
def firstSample : ℤ := 100

end MiniRtos.MainProgram
