import CpuSubsystem.Lib.BpfMap
import CpuSubsystem.Lib.Machine
import Mathlib.Data.Rat.Defs
import Mathlib.Data.UInt

/-!
# The tool `newlife_image` (`tools/newlife_image.bpf.c`, `tools/newlife_image.c`)

A record is sent when a child process or a thread begins, and a second one when it ends.  Both are
of one type, and the memory of a record is not zeroed when it is reserved.
-/

namespace CpuSubsystem.NewlifeImage

/-- The constants of the program, which user space sets before it is loaded. -/
structure Rodata where
  targetPid : Int
  enableFork : Bool
  enableVfork : Bool
  enableNewthread : Bool
deriving DecidableEq, Repr

/-- `struct bind_pid`. -/
structure BindPid where
  pid : Int
  newlifePid : Int
deriving DecidableEq, Repr

/-- `struct newlife_start`. -/
structure NewlifeStart where
  flag : Int
  start : UInt64
deriving DecidableEq, Repr

/-- `struct newlife_event`. -/
structure NewlifeEvent where
  flag : Int
  newlifePid : Int
  start : UInt64
  exit : UInt64
deriving DecidableEq, Repr

structure State where
  newstart : BpfMap BindPid NewlifeStart

def initial : State := ⟨BpfMap.empty⟩

section Probes

variable (ro : Rodata) (s : State)

/-- `room` is whether `newstart` has room for a new key. -/
def newlifeCreate (flag newlifePid : Int) (now : UInt64) (room : Bool)
    (slot : Option NewlifeEvent) : State × List NewlifeEvent :=
  let bindPid : BindPid := ⟨ro.targetPid, newlifePid⟩
  if s.newstart.accepts room bindPid then
    let s := { s with newstart := s.newstart.store bindPid ⟨flag, now⟩ }
    match slot with
    | none => (s, [])
    -- `exit` is not written
    | some e => (s, [{ e with flag := flag, newlifePid := newlifePid, start := now }])
  else (s, [])

def newlifeExit (current : Int) (now : UInt64) (slot : Option NewlifeEvent) :
    State × List NewlifeEvent :=
  let bindPid : BindPid := ⟨ro.targetPid, current⟩
  match s.newstart.lookup bindPid with
  | none => (s, [])
  | some newlifeStart =>
    match slot with
    | none => (s, [])
    | some _ =>
      ({ s with newstart := s.newstart.delete bindPid },
        [⟨newlifeStart.flag, bindPid.newlifePid, newlifeStart.start, now⟩])

/-- In the child the call returns 0. -/
def forkExit (current ret : Int) (now : UInt64) (room : Bool) (slot : Option NewlifeEvent) :
    State × List NewlifeEvent :=
  if ro.enableFork then
    if ret ≠ 0 then (s, []) else newlifeCreate ro s 1 current now room slot
  else (s, [])

def vforkExit (current ret : Int) (now : UInt64) (room : Bool) (slot : Option NewlifeEvent) :
    State × List NewlifeEvent :=
  if ro.enableVfork then
    if ret ≠ 0 then (s, []) else newlifeCreate ro s 2 current now room slot
  else (s, [])

def sysEnterExitGroup (current : Int) (now : UInt64) (slot : Option NewlifeEvent) :
    State × List NewlifeEvent :=
  if ro.enableFork || ro.enableVfork then newlifeExit ro s current now slot else (s, [])

/-- In the thread that calls `clone3`. -/
def sysExitClone3 (current newThread : Int) (now : UInt64) (room : Bool)
    (slot : Option NewlifeEvent) : State × List NewlifeEvent :=
  if ro.enableNewthread then
    if current = ro.targetPid then
      if newThread ≤ 0 then (s, []) else newlifeCreate ro s 3 newThread now room slot
    else (s, [])
  else (s, [])

def sysEnterExit (current : Int) (now : UInt64) (slot : Option NewlifeEvent) :
    State × List NewlifeEvent :=
  if ro.enableNewthread then newlifeExit ro s current now slot else (s, [])

end Probes

inductive Event where
  | forkExit (current ret : Int) (now : UInt64) (room : Bool) (slot : Option NewlifeEvent)
  | vforkExit (current ret : Int) (now : UInt64) (room : Bool) (slot : Option NewlifeEvent)
  | sysEnterExitGroup (current : Int) (now : UInt64) (slot : Option NewlifeEvent)
  | sysExitClone3 (current newThread : Int) (now : UInt64) (room : Bool)
      (slot : Option NewlifeEvent)
  | sysEnterExit (current : Int) (now : UInt64) (slot : Option NewlifeEvent)
deriving DecidableEq

def step (ro : Rodata) (s : State) : Event → State × List NewlifeEvent
  | .forkExit current ret now room slot => forkExit ro s current ret now room slot
  | .vforkExit current ret now room slot => vforkExit ro s current ret now room slot
  | .sysEnterExitGroup current now slot => sysEnterExitGroup ro s current now slot
  | .sysExitClone3 current newThread now room slot =>
    sysExitClone3 ro s current newThread now room slot
  | .sysEnterExit current now slot => sysEnterExit ro s current now slot

def machine (ro : Rodata) : Machine State Event NewlifeEvent := ⟨initial, step ro⟩

/-! ## User side -/

/-- What stands before `_pid` in a line. -/
inductive Kind where
  | fork | vfork | newthread
deriving DecidableEq, Repr

/-- A line; times are in nanoseconds, and `existTime` in microseconds. -/
inductive Line where
  | starts (kind : Kind) (newlifePid : Int) (start : UInt64)
  | exits (kind : Kind) (newlifePid : Int) (start exit : UInt64) (existTime : ℚ)
deriving DecidableEq

def kindOf (flag : Int) : Option Kind :=
  if flag = 1 then some .fork
  else if flag = 2 then some .vfork
  else if flag = 3 then some .newthread
  else none

/-- A rational number stands for the `double` of the source. -/
def handleEvent (e : NewlifeEvent) : Option Line :=
  (kindOf e.flag).map fun c =>
    if e.exit = 0 then .starts c e.newlifePid e.start
    else .exits c e.newlifePid e.start e.exit ((e.exit - e.start).toNat * 1 / 1000)

end CpuSubsystem.NewlifeImage
