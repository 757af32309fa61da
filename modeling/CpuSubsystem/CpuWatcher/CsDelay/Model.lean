import CpuSubsystem.Lib.Machine
import Mathlib.Data.UInt

/-!
# Time spent in `schedule`, kernel side (`cpu_watcher/bpf/cs_delay.bpf.c`)

`start` is an array of one element: a lookup always finds it, and a deletion fails without effect.
Both probes look the control up and then do not use the answer.
-/

namespace CpuSubsystem.CsDelay

/-- `struct cs_ctrl`. -/
structure CsCtrl where
  csFunc : Bool
  prevWatcher : Int
deriving DecidableEq, Repr

/-- `struct event`. -/
structure Delay where
  t1 : UInt64
  t2 : UInt64
  delay : UInt64
deriving DecidableEq, Repr

structure State where
  csCtrlMap : CsCtrl
  start : UInt64
deriving DecidableEq, Repr

/-- `now` is what `bpf_ktime_get_ns` returns. -/
def schedule (s : State) (now : UInt64) : State := { s with start := now / 1000 }

/-- `slot` tells whether the ring buffer has space for the record. -/
def scheduleExit (s : State) (now : UInt64) (slot : Bool) : State × List Delay :=
  let t2 := now / 1000
  (s, if slot then [⟨s.start, t2, t2 - s.start⟩] else [])

inductive Event where
  | csCtrl (c : CsCtrl)
  | schedule (cpu : Nat) (now : UInt64)
  | scheduleExit (cpu : Nat) (now : UInt64) (slot : Bool)
deriving DecidableEq

def step (s : State) : Event → State × List Delay
  | .csCtrl c => ({ s with csCtrlMap := c }, [])
  | .schedule _ now => (schedule s now, [])
  | .scheduleExit _ now slot => scheduleExit s now slot

def initial (c : CsCtrl) : State := ⟨c, 0⟩

def machine (c : CsCtrl) : Machine State Event Delay := ⟨initial c, step⟩

end CpuSubsystem.CsDelay
