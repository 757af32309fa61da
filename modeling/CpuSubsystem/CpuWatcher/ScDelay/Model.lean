import CpuSubsystem.CpuWatcher.Comm
import CpuSubsystem.Lib.Machine
import CpuSubsystem.Lib.PercpuMap
import Mathlib.Data.UInt

/-!
# Delays of system calls, kernel side (`cpu_watcher/bpf/sc_delay.bpf.c`)

The enter time of a call and its id are in two hash maps with values for each CPU.  Both probes look
the control up and then do not use the answer.
-/

namespace CpuSubsystem.ScDelay

/-- `struct sc_ctrl`. -/
structure ScCtrl where
  scFunc : Bool
  prevWatcher : Int
deriving DecidableEq, Repr

/-- `struct syscall_events`; no probe writes `count`. -/
structure SyscallEvents where
  pid : Int
  count : Int
  comm : Comm
  delay : UInt64
  syscallId : UInt64
deriving DecidableEq

/-- The number of a thread, which the probes call its pid, and its name. -/
structure Task where
  pid : Int
  comm : Comm
deriving DecidableEq

/-- Whether the maps have room for a new key. -/
structure Rooms where
  events : Bool
  syscallEnterTime : Bool
deriving DecidableEq, Repr

abbrev maxEvents : Nat := 10

abbrev maxSyscallEnterTime : Nat := 512

structure State where
  scCtrlMap : ScCtrl
  syscallEnterTime : PercpuMap Int Nat UInt64
  events : PercpuMap Int Nat UInt64

def sysEnter (s : State) (cpu : Nat) (cur : Task) (id now : UInt64) (rooms : Rooms) : State :=
  { s with
    events := s.events.update rooms.events cpu cur.pid id
    syscallEnterTime :=
      s.syscallEnterTime.update rooms.syscallEnterTime cpu cur.pid (now / 1000) }

/-- `slot` is the reserved memory with what it held before. -/
def sysExit (s : State) (cpu : Nat) (cur : Task) (now : UInt64) (slot : Option SyscallEvents) :
    State × List SyscallEvents :=
  match s.syscallEnterTime.lookup cpu cur.pid with
  | none => (s, [])
  | some startTime =>
    let s := { s with syscallEnterTime := s.syscallEnterTime.delete cur.pid }
    match s.events.lookup cpu cur.pid with
    | none => (s, [])
    | some id =>
      -- the same element is deleted again, not that of `Events`
      let s := { s with syscallEnterTime := s.syscallEnterTime.delete cur.pid }
      match slot with
      | none => (s, [])
      | some e =>
        (s, [{ e with
          pid := cur.pid, delay := now / 1000 - startTime, comm := cur.comm, syscallId := id }])

inductive Event where
  | scCtrl (c : ScCtrl)
  | sysEnter (cpu : Nat) (cur : Task) (id now : UInt64) (rooms : Rooms)
  | sysExit (cpu : Nat) (cur : Task) (now : UInt64) (slot : Option SyscallEvents)
deriving DecidableEq

def step (s : State) : Event → State × List SyscallEvents
  | .scCtrl c => ({ s with scCtrlMap := c }, [])
  | .sysEnter cpu cur id now rooms => (sysEnter s cpu cur id now rooms, [])
  | .sysExit cpu cur now slot => sysExit s cpu cur now slot

def initial (c : ScCtrl) : State := ⟨c, PercpuMap.empty, PercpuMap.empty⟩

def machine (c : ScCtrl) : Machine State Event SyscallEvents := ⟨initial c, step⟩

section Cases

variable {s : State} {cpu : Nat} {cur : Task} {now : UInt64} {slot : Option SyscallEvents}

/-- Without an enter time nothing is done. -/
theorem sysExit_unseen (h : s.syscallEnterTime.contains cur.pid = false) :
    sysExit s cpu cur now slot = (s, []) := by
  rw [sysExit, PercpuMap.lookup_of_not_contains h]

theorem sysExit_state {start : Nat → UInt64}
    (h : s.syscallEnterTime.table.lookup cur.pid = some start) :
    (sysExit s cpu cur now slot).1 =
      { s with syscallEnterTime := s.syscallEnterTime.delete cur.pid } := by
  have htwice : (s.syscallEnterTime.table.delete cur.pid).delete cur.pid =
      s.syscallEnterTime.table.delete cur.pid :=
    BpfMap.delete_of_absent (BpfMap.lookup_delete_self _ _)
  simp only [sysExit, PercpuMap.lookup, h, Option.map_some]
  cases s.events.table.lookup cur.pid with
  | none => rfl
  | some id =>
    cases slot <;> simp only [Option.map_some, PercpuMap.delete, htwice]

theorem sysExit_out {start : Nat → UInt64}
    (h : s.syscallEnterTime.table.lookup cur.pid = some start) (e : SyscallEvents) :
    (sysExit s cpu cur now (some e)).2 =
      ((s.events.lookup cpu cur.pid).map fun id => { e with
        pid := cur.pid, delay := now / 1000 - start cpu, comm := cur.comm,
        syscallId := id }).toList := by
  simp only [sysExit, PercpuMap.lookup, h, Option.map_some]
  cases s.events.table.lookup cur.pid <;> rfl

end Cases

end CpuSubsystem.ScDelay
