import CpuSubsystem.CpuWatcher.Comm
import CpuSubsystem.Lib.BpfMap
import CpuSubsystem.Lib.Machine
import Mathlib.Data.Rat.Defs
import Mathlib.Data.UInt

/-!
# The tool `lock_image` (`tools/lock_image.bpf.c`, `tools/lock_image.c`)

Of the thread `target_pid`, the lock it is about to take and the lock it is about to give back are
in one element each, whatever kind of lock it is.  The memory of a record is not zeroed when it is
reserved, so a reservation comes with what was there before.
-/

namespace CpuSubsystem.LockTool

/-- The constants of the program, which user space sets before it is loaded. -/
structure Rodata where
  targetPid : Int
  enableUMutex : Bool
  enableKMutex : Bool
  enableURwlockRd : Bool
  enableURwlockWr : Bool
deriving DecidableEq, Repr

/-- `struct proc_lockptr`. -/
structure ProcLockptr where
  pid : Int
  lockPtr : UInt64
deriving DecidableEq, Repr

/-- `struct lock_event`. -/
structure LockEvent where
  type : Int
  pid : Int
  comm : Comm
  lockPtr : UInt64
  lockAcqTime : UInt64
  lockTime : UInt64
  unlockTime : UInt64
deriving DecidableEq

/-- The task that runs into a probe. -/
structure Task where
  pid : Int
  comm : Comm
deriving DecidableEq

/-- Whether each hash map has room for a new key. -/
structure Rooms where
  procLock : Bool
  procUnlock : Bool
  lock : Bool
deriving DecidableEq, Repr

structure State where
  procLock : BpfMap Int UInt64
  procUnlock : BpfMap Int UInt64
  lock : BpfMap ProcLockptr LockEvent

def initial : State := ⟨BpfMap.empty, BpfMap.empty, BpfMap.empty⟩

/-! ## What the probes share -/

section Probes

variable (ro : Rodata) (s : State) (current : Task)

def recordLockEnter (lock : UInt64) (type : Int) (now : UInt64) (rooms : Rooms)
    (slot : Option LockEvent) : State × List LockEvent :=
  let pid := ro.targetPid
  if current.pid = pid then
    if s.procLock.accepts rooms.procLock pid then
      let s := { s with procLock := s.procLock.store pid lock }
      if s.lock.accepts rooms.lock ⟨pid, lock⟩ then
        let s := { s with
          lock := s.lock.store ⟨pid, lock⟩ ⟨type, pid, current.comm, lock, now, 0, 0⟩ }
        match slot with
        | none => (s, [])
        | some e =>
          -- `lock_time` and `unlock_time` are not written
          (s, [{ e with
            type := type, pid := pid, comm := current.comm, lockPtr := lock, lockAcqTime := now }])
      else (s, [])
    else (s, [])
  else (s, [])

def recordLockExit (now : UInt64) (slot : Option LockEvent) : State × List LockEvent :=
  let pid := ro.targetPid
  if current.pid = pid then
    match s.procLock.lookup pid with
    | none => (s, [])
    | some lockPtr =>
      match s.lock.lookup ⟨pid, lockPtr⟩ with
      | none => (s, [])
      | some lockEvent =>
        let s := { s with lock := s.lock.store ⟨pid, lockPtr⟩ { lockEvent with lockTime := now } }
        match slot with
        | none => (s, [])
        | some e =>
          -- `unlock_time` is not written
          ({ s with procLock := s.procLock.delete pid }, [{ e with
            type := lockEvent.type, pid := pid, comm := current.comm, lockPtr := lockPtr
            lockAcqTime := lockEvent.lockAcqTime, lockTime := now }])
  else (s, [])

def recordUnlockEnter (lock : UInt64) (rooms : Rooms) : State :=
  let pid := ro.targetPid
  if current.pid = pid then
    { s with procUnlock := s.procUnlock.update rooms.procUnlock pid lock }
  else s

def recordUnlockExit (now : UInt64) (slot : Option LockEvent) : State × List LockEvent :=
  let pid := ro.targetPid
  if current.pid = pid then
    match s.procUnlock.lookup pid with
    | none => (s, [])
    | some lockPtr =>
      match s.lock.lookup ⟨pid, lockPtr⟩ with
      | none => (s, [])
      | some lockEvent =>
        match slot with
        | none =>
          ({ s with
            lock := s.lock.store ⟨pid, lockPtr⟩ { lockEvent with unlockTime := now } }, [])
        | some e =>
          ({ s with
            procUnlock := s.procUnlock.delete pid, lock := s.lock.delete ⟨pid, lockPtr⟩ }, [{ e with
              type := lockEvent.type, pid := pid, comm := current.comm, lockPtr := lockPtr
              lockAcqTime := lockEvent.lockAcqTime, lockTime := lockEvent.lockTime
              unlockTime := now }])
  else (s, [])

end Probes

/-! ## The functions with probes -/

/-- What a traced function does to its lock: it takes it, as a lock of this type, or gives it
back. -/
inductive Use where
  | locks (type : Int)
  | unlocks
deriving DecidableEq, Repr

/-- The probes of a function: which flags enable them, and what they record. -/
structure Traced where
  enabled : Rodata → Bool
  use : Use

def pthreadMutexLock : Traced := ⟨Rodata.enableUMutex, .locks 1⟩

def pthreadMutexTrylock : Traced := ⟨Rodata.enableUMutex, .locks 1⟩

def pthreadMutexUnlock : Traced := ⟨Rodata.enableUMutex, .unlocks⟩

def mutexLock : Traced := ⟨Rodata.enableKMutex, .locks 2⟩

def mutexTrylock : Traced := ⟨Rodata.enableKMutex, .locks 2⟩

def mutexUnlock : Traced := ⟨Rodata.enableKMutex, .unlocks⟩

def pthreadRwlockRdlock : Traced := ⟨Rodata.enableURwlockRd, .locks 3⟩

def pthreadRwlockTryrdlock : Traced := ⟨Rodata.enableURwlockRd, .locks 3⟩

def pthreadRwlockWrlock : Traced := ⟨Rodata.enableURwlockWr, .locks 4⟩

def pthreadRwlockTrywrlock : Traced := ⟨Rodata.enableURwlockWr, .locks 4⟩

def pthreadRwlockUnlock : Traced := ⟨fun ro => ro.enableURwlockRd || ro.enableURwlockWr, .unlocks⟩

inductive Function where
  | pthreadMutexLock | pthreadMutexTrylock | pthreadMutexUnlock
  | mutexLock | mutexTrylock | mutexUnlock
  | pthreadRwlockRdlock | pthreadRwlockTryrdlock | pthreadRwlockWrlock | pthreadRwlockTrywrlock
  | pthreadRwlockUnlock
deriving DecidableEq, Repr

def Function.traced : Function → Traced
  | .pthreadMutexLock => LockTool.pthreadMutexLock
  | .pthreadMutexTrylock => LockTool.pthreadMutexTrylock
  | .pthreadMutexUnlock => LockTool.pthreadMutexUnlock
  | .mutexLock => LockTool.mutexLock
  | .mutexTrylock => LockTool.mutexTrylock
  | .mutexUnlock => LockTool.mutexUnlock
  | .pthreadRwlockRdlock => LockTool.pthreadRwlockRdlock
  | .pthreadRwlockTryrdlock => LockTool.pthreadRwlockTryrdlock
  | .pthreadRwlockWrlock => LockTool.pthreadRwlockWrlock
  | .pthreadRwlockTrywrlock => LockTool.pthreadRwlockTrywrlock
  | .pthreadRwlockUnlock => LockTool.pthreadRwlockUnlock

/-- A probe at the entry of a function or at its return. -/
inductive Event where
  | enter (f : Function) (current : Task) (lock now : UInt64) (rooms : Rooms)
      (slot : Option LockEvent)
  | exit (f : Function) (current : Task) (now : UInt64) (slot : Option LockEvent)
deriving DecidableEq

def step (ro : Rodata) (s : State) : Event → State × List LockEvent
  | .enter f current lock now rooms slot =>
    if f.traced.enabled ro then
      match f.traced.use with
      | .locks type => recordLockEnter ro s current lock type now rooms slot
      | .unlocks => (recordUnlockEnter ro s current lock rooms, [])
    else (s, [])
  | .exit f current now slot =>
    if f.traced.enabled ro then
      match f.traced.use with
      | .locks _ => recordLockExit ro s current now slot
      | .unlocks => recordUnlockExit ro s current now slot
    else (s, [])

def machine (ro : Rodata) : Machine State Event LockEvent := ⟨initial, step ro⟩

/-! ## User side -/

/-- What stands for the type of a lock. -/
inductive Kind where
  | uMutex | kMutex | uRwlockRd | uRwlockWr
deriving DecidableEq, Repr

/-- The two lines of a record; times are in nanoseconds, and the intervals in microseconds. -/
structure Line where
  pid : Int
  comm : Comm
  kind : Kind
  lockPtr : UInt64
  lockAcqTime : UInt64
  lockTime : UInt64
  unlockTime : UInt64
  acqTime : ℚ
  holdTime : ℚ
deriving DecidableEq

def kindOf (type : Int) : Option Kind :=
  if type = 1 then some .uMutex
  else if type = 2 then some .kMutex
  else if type = 3 then some .uRwlockRd
  else if type = 4 then some .uRwlockWr
  else none

/-- `(to - from) * 1.0 / 1000.0`, with a rational number in place of a `double`. -/
def micros (start stop : UInt64) : ℚ := (stop - start).toNat * 1 / 1000

def handleEvent (e : LockEvent) : Option Line :=
  (kindOf e.type).map fun c =>
    let acqTime := if e.unlockTime ≠ 0 ∨ e.lockTime ≠ 0 then micros e.lockAcqTime e.lockTime else 0
    let holdTime := if e.unlockTime ≠ 0 then micros e.lockTime e.unlockTime else 0
    ⟨e.pid, e.comm, c, e.lockPtr, e.lockAcqTime, e.lockTime, e.unlockTime, acqTime, holdTime⟩

end CpuSubsystem.LockTool
