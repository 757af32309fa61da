import CpuSubsystem.CpuWatcher.Comm
import CpuSubsystem.Lib.BpfMap
import CpuSubsystem.Lib.Machine
import Mathlib.Data.UInt

/-!
# Preemption times, kernel side (`cpu_watcher/bpf/preempt.bpf.c`)

Both probes look the control up and then do not use the answer.
-/

namespace CpuSubsystem.Preempt

/-- `struct preempt_ctrl`. -/
structure PreemptCtrl where
  preemptFunc : Bool
  prevWatcher : Int
deriving DecidableEq, Repr

/-- `struct preempt_event`. -/
structure PreemptEvent where
  prevPid : Int
  nextPid : Int
  duration : UInt64
  comm : Comm
deriving DecidableEq

/-- What the probes read of a `task_struct`, or of the current task. -/
structure Task where
  pid : Int
  tgid : Int
  comm : Comm
deriving DecidableEq

structure State where
  preemptCtrlMap : PreemptCtrl
  preemptTime : BpfMap Int UInt64
deriving DecidableEq

def schedSwitch (s : State) (preempt : Bool) (prev : Task) (startTime : UInt64) (room : Bool) :
    State :=
  if preempt then { s with preemptTime := s.preemptTime.update room prev.pid startTime } else s

/-- The field `next_pid` takes the upper half of `bpf_get_current_pid_tgid`, which is the thread
group.  Without space for the record the element stays. -/
def finishTaskSwitch (s : State) (prev cur : Task) (endTime : UInt64) (slot : Bool) :
    State × List PreemptEvent :=
  match s.preemptTime.lookup prev.pid with
  | none => (s, [])
  | some val =>
    if slot then
      ({ s with preemptTime := s.preemptTime.delete prev.pid },
        [⟨prev.pid, cur.tgid, endTime - val, cur.comm⟩])
    else (s, [])

inductive Event where
  | preemptCtrl (c : PreemptCtrl)
  | schedSwitch (cpu : Nat) (preempt : Bool) (prev next : Task) (startTime : UInt64) (room : Bool)
  | finishTaskSwitch (cpu : Nat) (prev cur : Task) (endTime : UInt64) (slot : Bool)
deriving DecidableEq

def step (s : State) : Event → State × List PreemptEvent
  | .preemptCtrl c => ({ s with preemptCtrlMap := c }, [])
  | .schedSwitch _ preempt prev _ startTime room => (schedSwitch s preempt prev startTime room, [])
  | .finishTaskSwitch _ prev cur endTime slot => finishTaskSwitch s prev cur endTime slot

def initial (c : PreemptCtrl) : State := ⟨c, BpfMap.empty⟩

def machine (c : PreemptCtrl) : Machine State Event PreemptEvent := ⟨initial c, step⟩

end CpuSubsystem.Preempt
