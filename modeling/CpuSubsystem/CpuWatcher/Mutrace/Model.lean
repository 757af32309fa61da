import CpuSubsystem.CpuWatcher.Comm
import CpuSubsystem.Lib.BpfMap
import CpuSubsystem.Lib.Machine
import Mathlib.Data.UInt

/-!
# Kernel mutexes, kernel side (`cpu_watcher/bpf/mutrace.bpf.c`)

The probes fire at the entry of `mutex_lock`, `mutex_trylock`, `__mutex_lock_slowpath` and
`mutex_unlock`; nothing fires when a waiter gets the mutex.
-/

namespace CpuSubsystem.Mutrace

/-- `struct mutex_info`. -/
structure MutexInfo where
  lockedTotal : UInt64
  lockedMax : UInt64
  contendedTotal : UInt64
  lastOwner : Int
  acquireTime : UInt64
  ptr : UInt64
deriving DecidableEq, Repr

/-- `struct mutex_contention_event`. -/
structure MutexContentionEvent where
  ptr : UInt64
  ownerPid : Int
  contenderPid : Int
  contenderName : Comm
  ownerName : Comm
  ownerPrio : Int
  contenderPrio : Int
deriving DecidableEq

/-- What the probes read of a task. -/
structure Task where
  pid : Int
  comm : Comm
  prio : Int
deriving DecidableEq

abbrev State := BpfMap UInt64 MutexInfo

def newInfo (ptr acquireTime : UInt64) : MutexInfo where
  lockedTotal := 0
  lockedMax := 0
  contendedTotal := 0
  lastOwner := 0
  acquireTime := acquireTime
  ptr := ptr

def traceMutexLock (s : State) (lock ts : UInt64) (room : Bool) : State :=
  match s.lookup lock with
  | some info => s.store lock { info with acquireTime := ts }
  | none => s.update room lock (newInfo lock ts)

/-- `ret` is what the return register holds at the entry of the function. -/
def traceMutexTrylock (s : State) (lock : UInt64) (ret : Int) (ts : UInt64) (room : Bool) : State :=
  if ret = 0 then traceMutexLock s lock ts room else s

/-- `owner` is the task that the mutex names; without one its priority is not written. -/
def traceMutexLockSlowpath (s : State) (lock : UInt64) (cur : Task) (owner : Option Task)
    (ts : UInt64) (room : Bool) (slot : Option MutexContentionEvent) :
    State × List MutexContentionEvent :=
  match slot with
  | none => (s, [])
  | some e =>
    let e := { e with
      ptr := lock, contenderPid := cur.pid, contenderName := cur.comm, contenderPrio := cur.prio }
    let e := match owner with
      | some t => { e with ownerPid := t.pid, ownerName := t.comm, ownerPrio := t.prio }
      | none => { e with ownerPid := 0, ownerName := Comm.none }
    let s := match s.lookup lock with
      | some info =>
        s.store lock { info with contendedTotal := info.contendedTotal + (ts - info.acquireTime) }
      | none => s.update room lock { newInfo lock 0 with contendedTotal := ts }
    (s, [e])

def MutexInfo.release (info : MutexInfo) (pid : Int) (ts : UInt64) : MutexInfo :=
  let heldTime := ts - info.acquireTime
  { info with
    lockedTotal := info.lockedTotal + heldTime
    lockedMax := if heldTime > info.lockedMax then heldTime else info.lockedMax
    lastOwner := pid }

def traceMutexUnlock (s : State) (lock : UInt64) (pid : Int) (ts : UInt64) : State :=
  match s.lookup lock with
  | some info => s.store lock (info.release pid ts)
  | none => s

inductive Event where
  | mutexLock (lock ts : UInt64) (room : Bool)
  | mutexTrylock (lock : UInt64) (ret : Int) (ts : UInt64) (room : Bool)
  | mutexLockSlowpath (lock : UInt64) (cur : Task) (owner : Option Task) (ts : UInt64) (room : Bool)
      (slot : Option MutexContentionEvent)
  | mutexUnlock (lock : UInt64) (pid : Int) (ts : UInt64)
deriving DecidableEq

def step (s : State) : Event → State × List MutexContentionEvent
  | .mutexLock lock ts room => (traceMutexLock s lock ts room, [])
  | .mutexTrylock lock ret ts room => (traceMutexTrylock s lock ret ts room, [])
  | .mutexLockSlowpath lock cur owner ts room slot =>
    traceMutexLockSlowpath s lock cur owner ts room slot
  | .mutexUnlock lock pid ts => (traceMutexUnlock s lock pid ts, [])

def machine : Machine State Event MutexContentionEvent := ⟨BpfMap.empty, step⟩

end CpuSubsystem.Mutrace
