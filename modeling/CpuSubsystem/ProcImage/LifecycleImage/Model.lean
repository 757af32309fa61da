import CpuSubsystem.CpuWatcher.Comm
import CpuSubsystem.Lib.BpfMap
import CpuSubsystem.Lib.Machine
import Mathlib.Data.UInt

/-!
# The tool `lifecycle_image`, kernel side (`tools/lifecycle_image.bpf.c`)

One task is watched.  A switch that brings it on a CPU ends its time off the CPU, reports it and
begins a time on the CPU; a switch that takes it off does the converse.
-/

namespace CpuSubsystem.LifecycleImage

/-- Constants that user space sets before loading. -/
structure Rodata where
  targetPid : Int
  targetCpuId : Int

/-- `struct proc_id`. -/
structure ProcId where
  pid : Int
  cpuId : Int
deriving DecidableEq, Repr

/-- `struct proc_oncpu`. -/
structure ProcOncpu where
  oncpuId : Int
  oncpuTime : UInt64
deriving DecidableEq, Repr

/-- `struct proc_offcpu`. -/
structure ProcOffcpu where
  offcpuId : Int
  offcpuTime : UInt64
deriving DecidableEq, Repr

/-- `struct cpu_event`.  A `flag` of 0 is a time off the CPU, 1 a time on it. -/
structure CpuEvent where
  flag : Int
  pid : Int
  nPid : Int
  comm : Comm
  nComm : Comm
  prio : Int
  nPrio : Int
  oncpuId : Int
  oncpuTime : UInt64
  offcpuId : Int
  offcpuTime : UInt64
  kstackSz : Int
  kstack : Vector UInt64 128
deriving DecidableEq

/-- What the probe reads of a `task_struct`. -/
structure Task where
  pid : Int
  comm : Comm
  prio : Int
deriving DecidableEq

/-- `bpf_get_stack`: the value returned and what is in the buffer then. -/
structure Kstack where
  sz : Int
  stack : Vector UInt64 128
deriving DecidableEq

structure State where
  oncpu : BpfMap ProcId ProcOncpu
  offcpu : BpfMap ProcId ProcOffcpu

/-- The only key that is used. -/
def procId (ro : Rodata) : ProcId := ⟨ro.targetPid, ro.targetCpuId⟩

/-- The first case: the target gets a CPU.  A target pid of 0 is the idle task of one CPU. -/
def getsCpu (ro : Rodata) (prev next : Task) (cpu : Int) : Bool :=
  (ro.targetPid != 0 && prev.pid != ro.targetPid && next.pid == ro.targetPid) ||
    (ro.targetPid == 0 && prev.pid != ro.targetPid && next.pid == ro.targetPid &&
      cpu == ro.targetCpuId)

/-- The second case: the target leaves its CPU. -/
def leavesCpu (ro : Rodata) (prev next : Task) (cpu : Int) : Bool :=
  (ro.targetPid != 0 && prev.pid == ro.targetPid && next.pid != ro.targetPid) ||
    (ro.targetPid == 0 && prev.pid == ro.targetPid && next.pid != ro.targetPid &&
      cpu == ro.targetCpuId)

/-- The record of a time off the CPU; the fields about the stack are not assigned. -/
def CpuEvent.fillOffcpu (mem : CpuEvent) (ro : Rodata) (prev next : Task) (cpu : Int)
    (now : UInt64) (off : ProcOffcpu) : CpuEvent :=
  { mem with
    flag := 0
    pid := ro.targetPid
    nPid := prev.pid
    comm := next.comm
    nComm := prev.comm
    prio := next.prio
    nPrio := prev.prio
    oncpuId := cpu
    oncpuTime := now
    offcpuId := off.offcpuId
    offcpuTime := off.offcpuTime }

/-- The record of a time on a CPU. -/
def CpuEvent.fillOncpu (ro : Rodata) (prev next : Task) (cpu : Int) (now : UInt64)
    (on : ProcOncpu) (kstack : Kstack) : CpuEvent where
  flag := 1
  pid := ro.targetPid
  nPid := next.pid
  comm := prev.comm
  nComm := next.comm
  prio := prev.prio
  nPrio := next.prio
  oncpuId := on.oncpuId
  oncpuTime := on.oncpuTime
  offcpuId := cpu
  offcpuTime := now
  kstackSz := kstack.sz
  kstack := kstack.stack

/-- A call of the probe: the two tasks, the CPU, the clock, the stack, whether the map has room for
a new element, and the reserved memory with what it held before. -/
structure SchedSwitch where
  prev : Task
  next : Task
  cpu : Int
  now : UInt64
  kstack : Kstack
  room : Bool
  slot : Option CpuEvent
deriving DecidableEq

def recordOncpu (ro : Rodata) (s : State) (e : SchedSwitch) : State :=
  { s with oncpu := s.oncpu.update e.room (procId ro) ⟨e.cpu, e.now⟩ }

def recordOffcpu (ro : Rodata) (s : State) (e : SchedSwitch) : State :=
  { s with offcpu := s.offcpu.update e.room (procId ro) ⟨e.cpu, e.now⟩ }

/-- A failed reservation ends the probe before any map is touched. -/
def schedSwitch (ro : Rodata) (s : State) (e : SchedSwitch) : State × List CpuEvent :=
  if getsCpu ro e.prev e.next e.cpu then
    match s.offcpu.lookup (procId ro) with
    | some off =>
      match e.slot with
      -- the old element stays, and this switch is not recorded
      | none => (s, [])
      | some mem =>
        (recordOncpu ro { s with offcpu := s.offcpu.delete (procId ro) } e,
          [mem.fillOffcpu ro e.prev e.next e.cpu e.now off])
    -- the switch before was not recorded, or there was none
    | none => (recordOncpu ro s e, [])
  else if leavesCpu ro e.prev e.next e.cpu then
    match s.oncpu.lookup (procId ro) with
    | some on =>
      match e.slot with
      | none => (s, [])
      | some _ =>
        (recordOffcpu ro { s with oncpu := s.oncpu.delete (procId ro) } e,
          [CpuEvent.fillOncpu ro e.prev e.next e.cpu e.now on e.kstack])
    | none => (recordOffcpu ro s e, [])
  else (s, [])

def initial : State := ⟨BpfMap.empty, BpfMap.empty⟩

def machine (ro : Rodata) : Machine State SchedSwitch CpuEvent := ⟨initial, schedSwitch ro⟩

end CpuSubsystem.LifecycleImage
