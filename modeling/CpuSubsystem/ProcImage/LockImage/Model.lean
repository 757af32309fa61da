import CpuSubsystem.Lib.BpfMap
import CpuSubsystem.Lib.Machine

/-!
# Lock image, kernel side (`include/lock_image.h`, `bpf/lock_image.bpf.c`)

Entry and return probes of the pthread lock and unlock functions.  An entry probe leaves the lock's
address under `(pid, flag)`, and the return probe takes it back.  `locktype` is keyed by the address
alone: it tells a read hold of a reader-writer lock from a write hold, which the unlock function
does not.
-/

namespace CpuSubsystem.LockImage

/-- `struct lock_ctrl`. -/
structure LockCtrl where
  lockFunc : Bool
  enableMyproc : Bool
  targetPid : Int
  targetTgid : Int
deriving DecidableEq, Repr

/-- Every thread is selected. -/
def LockCtrl.all : LockCtrl where
  lockFunc := true
  enableMyproc := true
  targetPid := -1
  targetTgid := -1

/-- `struct proc_flag`: 1 is a mutex, 2 a reader-writer lock, 3 a spin lock. -/
structure ProcFlag where
  pid : Int
  flag : Int
deriving DecidableEq, Repr

/-- `struct lock_event`.  A status is a request, an acquisition or a release: 1, 2, 3 of a mutex,
4, 5, 6 of a read hold, 7, 8, 9 of a write hold, 10, 11, 12 of a spin lock. -/
structure LockEvent where
  lockStatus : Int
  pid : Int
  tgid : Int
  ret : Int
  lockPtr : UInt64
  time : UInt64
deriving DecidableEq, Repr

def LockEvent.zero : LockEvent where
  lockStatus := 0
  pid := 0
  tgid := 0
  ret := 0
  lockPtr := 0
  time := 0

/-- The two halves of `bpf_get_current_pid_tgid`. -/
structure Task where
  pid : Int
  tgid : Int
deriving DecidableEq, Repr

structure Rodata where
  ignoreTgid : Int

structure State where
  lockCtrlMap : LockCtrl
  procLock : BpfMap ProcFlag UInt64
  procUnlock : BpfMap ProcFlag UInt64
  locktype : BpfMap UInt64 Int

/-- The two conditions at the head of the four helpers. -/
def traced (ro : Rodata) (c : LockCtrl) (cur : Task) : Bool :=
  c.lockFunc &&
    ((c.enableMyproc || cur.tgid != ro.ignoreTgid) &&
      ((c.targetPid == -1 && c.targetTgid == -1) ||
        (c.targetPid != 0 && cur.pid == c.targetPid) ||
        (c.targetTgid != 0 && cur.tgid == c.targetTgid)))

/-- The fields that every record gets; only `recordLockExit` also sets `ret`. -/
def LockEvent.fill (mem : LockEvent) (c : LockCtrl) (cur : Task) (lockStatus : Int)
    (lockPtr now : UInt64) : LockEvent :=
  { mem with
    lockStatus := lockStatus
    pid := cur.pid
    tgid := if c.targetTgid != -1 then cur.tgid else -1
    lockPtr := lockPtr
    time := now }

section Helpers

variable (ro : Rodata) (s : State) (cur : Task) (now : UInt64) (room : Bool)
  (slot : Option LockEvent)

def recordLockEnter (lockStatus flag : Int) (lock : UInt64) : State × List LockEvent :=
  if traced ro s.lockCtrlMap cur then
    if s.procLock.accepts room ⟨cur.pid, flag⟩ then
      ({ s with procLock := s.procLock.store ⟨cur.pid, flag⟩ lock },
        (slot.map fun mem => mem.fill s.lockCtrlMap cur lockStatus lock now).toList)
    else (s, [])
  else (s, [])

def recordLockExit (lockStatus flag ret : Int) : State × List LockEvent :=
  if traced ro s.lockCtrlMap cur then
    match s.procLock.lookup ⟨cur.pid, flag⟩ with
    | none => (s, [])
    | some lockPtr =>
      let s := { s with procLock := s.procLock.delete ⟨cur.pid, flag⟩ }
      let record := slot.map fun mem =>
        { mem.fill s.lockCtrlMap cur lockStatus lockPtr now with ret := ret }
      if (lockStatus = 5 ∨ lockStatus = 8) ∧ ret = 0 then
        let type := if lockStatus = 5 then 1 else 2
        if s.locktype.accepts room lockPtr then
          ({ s with locktype := s.locktype.store lockPtr type }, record.toList)
        else (s, [])
      else (s, record.toList)
  else (s, [])

def recordUnlockEnter (flag : Int) (lock : UInt64) : State :=
  if traced ro s.lockCtrlMap cur then
    { s with procUnlock := s.procUnlock.update room ⟨cur.pid, flag⟩ lock }
  else s

/-- Status 0 stands for a reader-writer lock, whose kind of hold is in `locktype`. -/
def recordUnlockExit (lockStatus flag : Int) : State × List LockEvent :=
  if traced ro s.lockCtrlMap cur then
    match s.procUnlock.lookup ⟨cur.pid, flag⟩ with
    | none => (s, [])
    | some lockPtr =>
      let s := { s with procUnlock := s.procUnlock.delete ⟨cur.pid, flag⟩ }
      let record := fun status =>
        (slot.map fun mem => mem.fill s.lockCtrlMap cur status lockPtr now).toList
      if lockStatus = 0 then
        match s.locktype.lookup lockPtr with
        | none => (s, [])
        | some type =>
          ({ s with locktype := s.locktype.delete lockPtr },
            record (if type = 1 then 6 else if type = 2 then 9 else lockStatus))
      else (s, record lockStatus)
  else (s, [])

def pthreadMutexLockEnter (mutex : UInt64) := recordLockEnter ro s cur now room slot 1 1 mutex

def pthreadMutexLockExit (ret : Int) := recordLockExit ro s cur now room slot 2 1 ret

def pthreadMutexTrylockEnter (mutex : UInt64) := recordLockEnter ro s cur now room slot 1 1 mutex

def pthreadMutexTrylockExit (ret : Int) := recordLockExit ro s cur now room slot 2 1 ret

def pthreadMutexUnlockEnter (rwlock : UInt64) := recordUnlockEnter ro s cur room 1 rwlock

def pthreadMutexUnlockExit := recordUnlockExit ro s cur now slot 3 1

def pthreadRwlockRdlockEnter (rwlock : UInt64) := recordLockEnter ro s cur now room slot 4 2 rwlock

def pthreadRwlockRdlockExit (ret : Int) := recordLockExit ro s cur now room slot 5 2 ret

def pthreadRwlockTryrdlockEnter (rwlock : UInt64) :=
  recordLockEnter ro s cur now room slot 4 2 rwlock

def pthreadRwlockTryrdlockExit (ret : Int) := recordLockExit ro s cur now room slot 5 2 ret

def pthreadRwlockWrlockEnter (rwlock : UInt64) := recordLockEnter ro s cur now room slot 7 2 rwlock

def pthreadRwlockWrlockExit (ret : Int) := recordLockExit ro s cur now room slot 8 2 ret

def pthreadRwlockTrywrlockEnter (rwlock : UInt64) :=
  recordLockEnter ro s cur now room slot 7 2 rwlock

def pthreadRwlockTrywrlockExit (ret : Int) := recordLockExit ro s cur now room slot 8 2 ret

def pthreadRwlockUnlockEnter (rwlock : UInt64) := recordUnlockEnter ro s cur room 2 rwlock

def pthreadRwlockUnlockExit := recordUnlockExit ro s cur now slot 0 2

def pthreadSpinLockEnter (spinlock : UInt64) := recordLockEnter ro s cur now room slot 10 3 spinlock

def pthreadSpinLockExit (ret : Int) := recordLockExit ro s cur now room slot 11 3 ret

def pthreadSpinTrylockEnter (spinlock : UInt64) :=
  recordLockEnter ro s cur now room slot 10 3 spinlock

def pthreadSpinTrylockExit (ret : Int) := recordLockExit ro s cur now room slot 11 3 ret

def pthreadSpinUnlockEnter (spinlock : UInt64) := recordUnlockEnter ro s cur room 3 spinlock

def pthreadSpinUnlockExit := recordUnlockExit ro s cur now slot 12 3

end Helpers

/-- The functions that take a lock. -/
inductive LockFn where
  | pthreadMutexLock | pthreadMutexTrylock
  | pthreadRwlockRdlock | pthreadRwlockTryrdlock
  | pthreadRwlockWrlock | pthreadRwlockTrywrlock
  | pthreadSpinLock | pthreadSpinTrylock
deriving DecidableEq, Repr

/-- The functions that give it back. -/
inductive UnlockFn where
  | pthreadMutexUnlock | pthreadRwlockUnlock | pthreadSpinUnlock
deriving DecidableEq, Repr

/-- The controller writes `lock_ctrl_map`, or a probe fires. -/
inductive Event where
  | lockCtrl (c : LockCtrl)
  | lockEnter (f : LockFn) (cur : Task) (lock now : UInt64) (room : Bool) (slot : Option LockEvent)
  | lockExit (f : LockFn) (cur : Task) (ret : Int) (now : UInt64) (room : Bool)
      (slot : Option LockEvent)
  | unlockEnter (f : UnlockFn) (cur : Task) (lock : UInt64) (room : Bool)
  | unlockExit (f : UnlockFn) (cur : Task) (now : UInt64) (slot : Option LockEvent)
deriving DecidableEq

def step (ro : Rodata) (s : State) : Event → State × List LockEvent
  | .lockCtrl c => ({ s with lockCtrlMap := c }, [])
  | .lockEnter f cur lock now room slot =>
    match f with
    | .pthreadMutexLock => pthreadMutexLockEnter ro s cur now room slot lock
    | .pthreadMutexTrylock => pthreadMutexTrylockEnter ro s cur now room slot lock
    | .pthreadRwlockRdlock => pthreadRwlockRdlockEnter ro s cur now room slot lock
    | .pthreadRwlockTryrdlock => pthreadRwlockTryrdlockEnter ro s cur now room slot lock
    | .pthreadRwlockWrlock => pthreadRwlockWrlockEnter ro s cur now room slot lock
    | .pthreadRwlockTrywrlock => pthreadRwlockTrywrlockEnter ro s cur now room slot lock
    | .pthreadSpinLock => pthreadSpinLockEnter ro s cur now room slot lock
    | .pthreadSpinTrylock => pthreadSpinTrylockEnter ro s cur now room slot lock
  | .lockExit f cur ret now room slot =>
    match f with
    | .pthreadMutexLock => pthreadMutexLockExit ro s cur now room slot ret
    | .pthreadMutexTrylock => pthreadMutexTrylockExit ro s cur now room slot ret
    | .pthreadRwlockRdlock => pthreadRwlockRdlockExit ro s cur now room slot ret
    | .pthreadRwlockTryrdlock => pthreadRwlockTryrdlockExit ro s cur now room slot ret
    | .pthreadRwlockWrlock => pthreadRwlockWrlockExit ro s cur now room slot ret
    | .pthreadRwlockTrywrlock => pthreadRwlockTrywrlockExit ro s cur now room slot ret
    | .pthreadSpinLock => pthreadSpinLockExit ro s cur now room slot ret
    | .pthreadSpinTrylock => pthreadSpinTrylockExit ro s cur now room slot ret
  | .unlockEnter f cur lock room =>
    match f with
    | .pthreadMutexUnlock => (pthreadMutexUnlockEnter ro s cur room lock, [])
    | .pthreadRwlockUnlock => (pthreadRwlockUnlockEnter ro s cur room lock, [])
    | .pthreadSpinUnlock => (pthreadSpinUnlockEnter ro s cur room lock, [])
  | .unlockExit f cur now slot =>
    match f with
    | .pthreadMutexUnlock => pthreadMutexUnlockExit ro s cur now slot
    | .pthreadRwlockUnlock => pthreadRwlockUnlockExit ro s cur now slot
    | .pthreadSpinUnlock => pthreadSpinUnlockExit ro s cur now slot

/-- The program just loaded, with the control value `c`. -/
def initial (c : LockCtrl) : State where
  lockCtrlMap := c
  procLock := BpfMap.empty
  procUnlock := BpfMap.empty
  locktype := BpfMap.empty

def machine (ro : Rodata) (c : LockCtrl) : Machine State Event LockEvent where
  init := initial c
  step := step ro

/-! ## One helper for each kind of probe -/

namespace LockFn

def flag : LockFn → Int
  | pthreadMutexLock | pthreadMutexTrylock => 1
  | pthreadSpinLock | pthreadSpinTrylock => 3
  | _ => 2

def reqStatus : LockFn → Int
  | pthreadMutexLock | pthreadMutexTrylock => 1
  | pthreadRwlockRdlock | pthreadRwlockTryrdlock => 4
  | pthreadRwlockWrlock | pthreadRwlockTrywrlock => 7
  | pthreadSpinLock | pthreadSpinTrylock => 10

/-- The status of the result. -/
def lockStatus (f : LockFn) : Int := f.reqStatus + 1

end LockFn

namespace UnlockFn

def flag : UnlockFn → Int
  | pthreadMutexUnlock => 1
  | pthreadRwlockUnlock => 2
  | pthreadSpinUnlock => 3

def lockStatus : UnlockFn → Int
  | pthreadMutexUnlock => 3
  | pthreadRwlockUnlock => 0
  | pthreadSpinUnlock => 12

end UnlockFn

section Steps

variable (ro : Rodata) (s : State) (cur : Task) (lock now : UInt64) (ret : Int) (room : Bool)
  (slot : Option LockEvent)

theorem step_lockEnter (f : LockFn) : step ro s (.lockEnter f cur lock now room slot) =
    recordLockEnter ro s cur now room slot f.reqStatus f.flag lock := by
  cases f <;> rfl

theorem step_lockExit (f : LockFn) : step ro s (.lockExit f cur ret now room slot) =
    recordLockExit ro s cur now room slot f.lockStatus f.flag ret := by
  cases f <;> rfl

theorem step_unlockEnter (f : UnlockFn) : step ro s (.unlockEnter f cur lock room) =
    (recordUnlockEnter ro s cur room f.flag lock, []) := by
  cases f <;> rfl

theorem step_unlockExit (f : UnlockFn) : step ro s (.unlockExit f cur now slot) =
    recordUnlockExit ro s cur now slot f.lockStatus f.flag := by
  cases f <;> rfl

end Steps

end CpuSubsystem.LockImage
