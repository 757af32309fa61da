import CpuSubsystem.Lib.BpfArray
import CpuSubsystem.Lib.BpfMap
import CpuSubsystem.Lib.Machine

/-!
# System activity, kernel side (`cpu_watcher/bpf/sar.bpf.c`)

Every probe looks the control up and then does not use the answer.  Arrays of one element, which a
lookup always finds, are plain fields.  The events say on which CPU they are; no probe reads it.
-/

namespace CpuSubsystem.Sar

/-- `struct sar_ctrl`. -/
structure SarCtrl where
  sarFunc : Bool
  percent : Bool
  prevWatcher : Int
deriving DecidableEq, Repr

/-- What `finish_task_switch` reads of a `task_struct`. -/
structure Task where
  pid : Nat
  flags : UInt32
deriving DecidableEq, Repr

abbrev pfIdle : UInt32 := 0x00000002

abbrev pfKthread : UInt32 := 0x00200000

structure State where
  sarCtrlMap : SarCtrl
  countMap : BpfArray 3 UInt64
  procStartTime : BpfArray 1024 UInt64
  runqlen : UInt32
  softirqCpuEnterTime : BpfMap Nat UInt64
  softirqLastTime : BpfMap Nat UInt64
  irqCpuEnterStart : BpfMap Nat UInt64
  irqLastTime : UInt64
  idleStart : BpfArray 128 UInt64
  idleLastTime : UInt64
  ktLastTime : UInt64
  utLastTime : UInt64
  tickUser : UInt64
  symAddr : UInt64

/-- `kprobe__finish_task_switch`; `forksAddr` is the address of `total_forks`. -/
def kprobeFinishTaskSwitch (forksAddr : UInt64) (s : State) (totalForks : UInt64) : State :=
  { s with countMap := if forksAddr ≠ 0 then s.countMap.update 1 totalForks else s.countMap }

def traceSchedSwitch2 (s : State) (prev next : Nat) (time : UInt64) : State :=
  if prev ≠ next then
    { s with
      procStartTime := s.procStartTime.update next time
      countMap :=
        match s.countMap.lookup 0 with
        | none => s.countMap.update 0 1
        | some val => s.countMap.update 0 (val + 1) }
  else s

def Task.kthread (t : Task) : Bool := t.flags &&& pfKthread ≠ 0

def Task.idle (t : Task) : Bool := t.flags &&& pfIdle ≠ 0

def finishTaskSwitch (s : State) (prev : Task) (time : UInt64) : State :=
  if prev.kthread && prev.pid ≠ 0 then
    match s.procStartTime.lookup prev.pid with
    | some val => { s with ktLastTime := s.ktLastTime + (time - val) }
    | none => s
  else if !prev.kthread && !prev.idle then
    match s.procStartTime.lookup prev.pid with
    | some val => { s with utLastTime := s.utLastTime + (time - val) }
    | none => s
  else s

/-- The element is an `int`, and so takes the low half of the 64-bit value: the counter itself. -/
def updateRqClock (s : State) (nrRunning : UInt32) : State := { s with runqlen := nrRunning }

def traceSoftirqEntry (s : State) (vec : Nat) (val : UInt64) (room : Bool) : State :=
  { s with softirqCpuEnterTime := s.softirqCpuEnterTime.update room vec val }

def traceSoftirqExit (s : State) (vec : Nat) (now : UInt64) (room : Bool) : State :=
  { s with
    softirqLastTime :=
      match s.softirqCpuEnterTime.lookup vec with
      | some val =>
        match s.softirqLastTime.lookup 0 with
        | none => s.softirqLastTime.update room 0 (now - val)
        | some last => s.softirqLastTime.store 0 (last + (now - val))
      | none => s.softirqLastTime }

def traceIrqHandlerEntry (s : State) (irq : Nat) (ts : UInt64) (room : Bool) : State :=
  { s with irqCpuEnterStart := s.irqCpuEnterStart.update room irq ts }

def traceIrqHandlerExit (s : State) (irq : Nat) (now : UInt64) : State :=
  { s with
    irqLastTime :=
      match s.irqCpuEnterStart.lookup irq with
      | some ts => s.irqLastTime + (now - ts)
      | none => s.irqLastTime }

/-- The state `-1`, as an `unsigned int`, means that the CPU leaves the idle state. -/
def traceCpuIdle (s : State) (cpuId state : Nat) (time : UInt64) : State :=
  if state = 2 ^ 32 - 1 then
    match s.idleStart.lookup cpuId with
    | some val =>
      if val ≠ 0 then { s with idleLastTime := s.idleLastTime + (time - val) } else s
    | none => s
  else { s with idleStart := s.idleStart.update cpuId time }

/-- `user_mode(ctx)` looks at the two low bits of `cs`. -/
def tickUpdate (s : State) (cs totalForks : UInt64) : State :=
  { s with
    tickUser := if cs &&& 3 ≠ 0 then s.tickUser + 1 else s.tickUser
    countMap := if s.symAddr > 0 then s.countMap.update 1 totalForks else s.countMap }

/-- Of the times of the handlers, a switch of tasks changes none. -/
theorem traceSchedSwitch2_frame (s : State) (prev next : Nat) (time : UInt64) :
    ∃ start count, traceSchedSwitch2 s prev next time =
      { s with procStartTime := start, countMap := count } := by
  unfold traceSchedSwitch2
  split <;> exact ⟨_, _, rfl⟩

theorem finishTaskSwitch_frame (s : State) (prev : Task) (time : UInt64) :
    ∃ kt ut, finishTaskSwitch s prev time = { s with ktLastTime := kt, utLastTime := ut } := by
  unfold finishTaskSwitch
  repeat' split
  all_goals exact ⟨_, _, rfl⟩

/-- The idle probe has no part in the other times. -/
theorem traceCpuIdle_frame (s : State) (cpuId state : Nat) (time : UInt64) :
    ∃ start last, traceCpuIdle s cpuId state time =
      { s with idleStart := start, idleLastTime := last } := by
  unfold traceCpuIdle
  repeat' split
  all_goals exact ⟨_, _, rfl⟩

inductive Event where
  | sarCtrl (c : SarCtrl)
  | kprobeFinishTaskSwitch (totalForks : UInt64)
  | schedSwitch (cpu prev next : Nat) (time : UInt64)
  | finishTaskSwitch (cpu : Nat) (prev : Task) (time : UInt64)
  | updateRqClock (nrRunning : UInt32)
  | softirqEntry (cpu vec : Nat) (val : UInt64) (room : Bool)
  | softirqExit (cpu vec : Nat) (now : UInt64) (room : Bool)
  | irqHandlerEntry (cpu irq : Nat) (ts : UInt64) (room : Bool)
  | irqHandlerExit (cpu irq : Nat) (now : UInt64)
  | cpuIdle (cpuId state : Nat) (time : UInt64)
  | tickUpdate (cs totalForks : UInt64)
deriving DecidableEq

def step (forksAddr : UInt64) (s : State) : Event → State
  | .sarCtrl c => { s with sarCtrlMap := c }
  | .kprobeFinishTaskSwitch totalForks => kprobeFinishTaskSwitch forksAddr s totalForks
  | .schedSwitch _ prev next time => traceSchedSwitch2 s prev next time
  | .finishTaskSwitch _ prev time => finishTaskSwitch s prev time
  | .updateRqClock nrRunning => updateRqClock s nrRunning
  | .softirqEntry _ vec val room => traceSoftirqEntry s vec val room
  | .softirqExit _ vec now room => traceSoftirqExit s vec now room
  | .irqHandlerEntry _ irq ts room => traceIrqHandlerEntry s irq ts room
  | .irqHandlerExit _ irq now => traceIrqHandlerExit s irq now
  | .cpuIdle cpuId state time => traceCpuIdle s cpuId state time
  | .tickUpdate cs totalForks => tickUpdate s cs totalForks

def initial (c : SarCtrl) : State where
  sarCtrlMap := c
  countMap := BpfArray.replicate 0
  procStartTime := BpfArray.replicate 0
  runqlen := 0
  softirqCpuEnterTime := BpfMap.empty
  softirqLastTime := BpfMap.empty
  irqCpuEnterStart := BpfMap.empty
  irqLastTime := 0
  idleStart := BpfArray.replicate 0
  idleLastTime := 0
  ktLastTime := 0
  utLastTime := 0
  tickUser := 0
  symAddr := 0

/-- The program emits no records: user space reads the maps. -/
def machine (forksAddr : UInt64) (c : SarCtrl) : Machine State Event Empty where
  init := initial c
  step s e := (step forksAddr s e, [])

theorem exec_snoc (forksAddr : UInt64) (c : SarCtrl) (pre : List Event) (e : Event) :
    (machine forksAddr c).exec (pre ++ [e]) = step forksAddr ((machine forksAddr c).exec pre) e :=
  (machine forksAddr c).exec_snoc pre e

end CpuSubsystem.Sar
