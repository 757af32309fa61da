import CpuSubsystem.CpuWatcher.Comm
import CpuSubsystem.Lib.BpfArray
import CpuSubsystem.Lib.BpfMap
import CpuSubsystem.Lib.CInt
import CpuSubsystem.Lib.Machine
import Mathlib.Data.UInt

/-!
# Scheduling delays, kernel side (`cpu_watcher/bpf/schedule_delay.bpf.c`)

Of the four probes only `sched_wakeup_new` honours the control; the others look it up and then do
not use the answer.  `sys_schedule` is an array of one element, which a lookup always finds, so that
the branch of `sched_switch` without an element is never taken.  Of `threshold_schedule` only the
element 0 is used.
-/

namespace CpuSubsystem.ScheduleDelay

/-- `struct schedule_ctrl`. -/
structure ScheduleCtrl where
  scheduleFunc : Bool
  minUsSet : Bool
  minUs : Int
  prevWatcher : Int
deriving DecidableEq, Repr

/-- `struct proc_id`. -/
structure ProcId where
  pid : Int
  cpuId : Int
deriving DecidableEq, Repr

/-- `struct schedule_event`. -/
structure ScheduleEvent where
  pid : Int
  count : Int
  enterTime : UInt64
deriving DecidableEq, Repr

/-- `struct sum_schedule`. -/
structure SumSchedule where
  sumCount : UInt64
  sumDelay : UInt64
  maxDelay : UInt64
  minDelay : UInt64
  procNameMax : Comm
  procNameMin : Comm
deriving DecidableEq

/-- `struct proc_schedule`. -/
structure ProcSchedule where
  id : ProcId
  delay : UInt64
  procName : Comm
deriving DecidableEq

/-- `struct proc_info`. -/
structure ProcInfo where
  pid : Int
  comm : Comm
deriving DecidableEq

/-- `struct proc_history`: the array `last` of two elements. -/
structure ProcHistory where
  last0 : ProcInfo
  last1 : ProcInfo
deriving DecidableEq

/-- What the probes read of a `task_struct`. -/
structure Task where
  pid : Int
  state : Nat
  comm : Comm
deriving DecidableEq

/-- `TASK_RUNNING`. -/
abbrev taskRunning : Nat := 0

/-- The capacity of each of the three hash maps. -/
abbrev maxEntries : Nat := 10240

/-- Whether each hash map has room for a new key. -/
structure Rooms where
  hasScheduled : Bool
  enterSchedule : Bool
  procHistories : Bool
deriving DecidableEq, Repr

structure State where
  scheduleCtrlMap : ScheduleCtrl
  hasScheduled : BpfMap ProcId Bool
  enterSchedule : BpfMap ProcId ScheduleEvent
  sysSchedule : SumSchedule
  thresholdSchedule : BpfArray 10240 ProcSchedule
  procHistories : BpfMap ProcId ProcHistory

/-- The idle tasks all have pid 0 and are told apart by their CPU. -/
def procId (pid cpu : Int) : ProcId where
  pid := pid
  cpuId := if pid = 0 then cpu else 0

/-- The two updates for a task that has no element yet. -/
def enlist (s : State) (pid cpu : Int) (now : UInt64) (rooms : Rooms) : State :=
  { s with
    hasScheduled := s.hasScheduled.update rooms.hasScheduled (procId pid cpu) false
    enterSchedule := s.enterSchedule.update rooms.enterSchedule (procId pid cpu) ⟨pid, 1, now⟩ }

/-- The block that `sched_wakeup` and the switch share: the task becomes ready. -/
def ready (s : State) (pid cpu : Int) (now : UInt64) (rooms : Rooms) : State :=
  match s.enterSchedule.lookup (procId pid cpu) with
  | none => enlist s pid cpu now rooms
  | some e =>
    { s with enterSchedule := s.enterSchedule.store (procId pid cpu) { e with enterTime := now } }

def schedWakeup (s : State) (p : Task) (cpu : Int) (now : UInt64) (rooms : Rooms) : State :=
  ready s p.pid cpu now rooms

def schedWakeupNew (s : State) (p : Task) (cpu : Int) (now : UInt64) (rooms : Rooms) : State :=
  if s.scheduleCtrlMap.scheduleFunc then enlist s p.pid cpu now rooms else s

/-- A delay of a task that gets the CPU goes into the statistics. -/
def SumSchedule.charge (t : SumSchedule) (next : Task) (delay : UInt64) : SumSchedule :=
  let t := { t with sumCount := t.sumCount + 1, sumDelay := t.sumDelay + delay }
  if delay > t.maxDelay then { t with maxDelay := delay, procNameMax := next.comm }
  else if t.minDelay == 0 || delay < t.minDelay then
    { t with
      minDelay := delay
      procNameMin := if next.pid ≠ 0 then next.comm else t.procNameMin }
  else t

/-- The history of `next`, after it has replaced `prev`. -/
def ProcHistory.push (history : Option ProcHistory) (prev : Task) : ProcHistory where
  last0 := (history.map ProcHistory.last1).getD ⟨0, Comm.none⟩
  last1 := ⟨prev.pid, prev.comm⟩

/-- The second part of `sched_switch`: `next` gets the CPU. -/
def charge (s : State) (prev next : Task) (cpu : Int) (now : UInt64) (rooms : Rooms) : State :=
  let nextId := procId next.pid cpu
  match s.enterSchedule.lookup nextId with
  | none => s
  | some e =>
    match s.hasScheduled.lookup nextId with
    | none => s
    | some issched =>
      let delay := now - e.enterTime
      { s with
        enterSchedule :=
          if issched then s.enterSchedule.store nextId { e with count := toInt (e.count + 1) }
          else s.enterSchedule
        hasScheduled := if issched then s.hasScheduled else s.hasScheduled.store nextId true
        thresholdSchedule := s.thresholdSchedule.update 0 ⟨nextId, delay, next.comm⟩
        sysSchedule := s.sysSchedule.charge next delay
        procHistories := s.procHistories.update rooms.procHistories nextId
          (ProcHistory.push (s.procHistories.lookup nextId) prev) }

/-- The first part of `sched_switch`: a `prev` that could run on is ready again. -/
def requeue (s : State) (prev : Task) (cpu : Int) (now : UInt64) (rooms : Rooms) : State :=
  if prev.state = taskRunning then ready s prev.pid cpu now rooms else s

def schedSwitch (s : State) (prev next : Task) (cpu : Int) (now : UInt64) (rooms : Rooms) : State :=
  charge (requeue s prev cpu now rooms) prev next cpu now rooms

def schedProcessExit (s : State) (p : Task) (cpu : Int) : State :=
  { s with
    enterSchedule := s.enterSchedule.delete (procId p.pid cpu)
    hasScheduled := s.hasScheduled.delete (procId p.pid cpu) }

inductive Event where
  | scheduleCtrl (c : ScheduleCtrl)
  | schedWakeup (p : Task) (cpu : Int) (now : UInt64) (rooms : Rooms)
  | schedWakeupNew (p : Task) (cpu : Int) (now : UInt64) (rooms : Rooms)
  | schedSwitch (prev next : Task) (cpu : Int) (now : UInt64) (rooms : Rooms)
  | schedProcessExit (p : Task) (cpu : Int)
deriving DecidableEq

def step (s : State) : Event → State
  | .scheduleCtrl c => { s with scheduleCtrlMap := c }
  | .schedWakeup p cpu now rooms => schedWakeup s p cpu now rooms
  | .schedWakeupNew p cpu now rooms => schedWakeupNew s p cpu now rooms
  | .schedSwitch prev next cpu now rooms => schedSwitch s prev next cpu now rooms
  | .schedProcessExit p cpu => schedProcessExit s p cpu

def initial (c : ScheduleCtrl) : State where
  scheduleCtrlMap := c
  hasScheduled := BpfMap.empty
  enterSchedule := BpfMap.empty
  sysSchedule := ⟨0, 0, 0, 0, Comm.none, Comm.none⟩
  thresholdSchedule := BpfArray.replicate ⟨⟨0, 0⟩, 0, Comm.none⟩
  procHistories := BpfMap.empty

/-- The program emits no records: user space reads the maps. -/
def machine (c : ScheduleCtrl) : Machine State Event Empty where
  init := initial c
  step s e := (step s e, [])

end CpuSubsystem.ScheduleDelay
