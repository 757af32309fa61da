import CpuSubsystem.Lib.BpfMap
import CpuSubsystem.Lib.CInt
import CpuSubsystem.Lib.Machine
import CpuSubsystem.Lib.Tally
import Mathlib.Logic.Function.Basic

/-!
# Schedule image, kernel side (`bpf/schedule_image.bpf.c`)

The wakeup, switch and exit probes.  `target_schedule` and `sys_schedule` are arrays of one
element, which a lookup always finds; the three hash maps can refuse a new key.
-/

namespace CpuSubsystem.ScheduleImage

/-- `struct sched_ctrl`. -/
structure SchedCtrl where
  schedFunc : Bool
  targetPid : Int
  targetCpuId : Int
  targetTgid : Int
deriving DecidableEq, Repr

/-- `struct proc_id`. -/
structure ProcId where
  pid : Int
  cpuId : Int
deriving DecidableEq, Repr

/-- `struct schedule_event`. -/
structure ScheduleEvent where
  pid : Int
  tgid : Int
  prio : Int
  count : Int
  enterTime : UInt64
  sumDelay : UInt64
  maxDelay : UInt64
  minDelay : UInt64
deriving DecidableEq, Repr

/-- `struct schedule_event schedule_event = {}`. -/
def ScheduleEvent.zero : ScheduleEvent where
  pid := 0
  tgid := 0
  prio := 0
  count := 0
  enterTime := 0
  sumDelay := 0
  maxDelay := 0
  minDelay := 0

/-- `struct sum_schedule`. -/
structure SumSchedule where
  sumCount : UInt64
  sumDelay : UInt64
  maxDelay : UInt64
  minDelay : UInt64
deriving DecidableEq, Repr

/-- What the probes read of a `task_struct`. -/
structure Task where
  pid : Int
  tgid : Int
  prio : Int
  state : Nat
deriving DecidableEq, Repr

/-- `TASK_RUNNING`. -/
abbrev taskRunning : Nat := 0

/-- Whether each hash map has room for a new key. -/
structure Rooms where
  enableAdd : Bool
  procSchedule : Bool
  tgSchedule : Bool
deriving DecidableEq, Repr

structure State where
  schedCtrlMap : SchedCtrl
  procSchedule : BpfMap ProcId ScheduleEvent
  targetSchedule : ScheduleEvent
  enableAdd : BpfMap ProcId Bool
  tgSchedule : BpfMap Int ScheduleEvent
  sysSchedule : SumSchedule

/-- The idle tasks all have pid 0 and are told apart by their CPU. -/
def procId (pid cpu : Int) : ProcId where
  pid := pid
  cpuId := if pid = 0 then cpu else 0

/-- The record of a task that just became ready for the first time.  Its `count` is 1 already, so
that no average divides by zero. -/
def ScheduleEvent.create (p : Task) (now : UInt64) : ScheduleEvent :=
  { ScheduleEvent.zero with pid := p.pid, tgid := p.tgid, count := 1, enterTime := now }

/-- The block that the wakeups and the switch share: the task becomes ready. -/
def ready (s : State) (p : Task) (cpu : Int) (now : UInt64) (rooms : Rooms) : State :=
  let pd := procId p.pid cpu
  match s.procSchedule.lookup pd with
  | none =>
    { s with
      enableAdd := s.enableAdd.update rooms.enableAdd pd false
      procSchedule :=
        s.procSchedule.update rooms.procSchedule pd (ScheduleEvent.create p now) }
  | some e => { s with procSchedule := s.procSchedule.store pd { e with enterTime := now } }

def schedWakeup (s : State) (p : Task) (cpu : Int) (now : UInt64) (rooms : Rooms) : State :=
  if s.schedCtrlMap.schedFunc then ready s p cpu now rooms else s

def schedWakeupNew (s : State) (p : Task) (cpu : Int) (now : UInt64) (rooms : Rooms) : State :=
  if s.schedCtrlMap.schedFunc then ready s p cpu now rooms else s

/-- The task is the target process; a target pid of 0 is the idle task of one CPU. -/
def targets (c : SchedCtrl) (pid cpu : Int) : Bool :=
  c.targetPid != -1 && ((c.targetPid != 0 && pid == c.targetPid) ||
    (c.targetPid == 0 && pid == c.targetPid && cpu == c.targetCpuId))

/-- The record of `next` takes in a delay; `added` tells that there was one before. -/
def ScheduleEvent.charge (e : ScheduleEvent) (added : Bool) (prio : Int) (delay : UInt64) :
    ScheduleEvent :=
  { e with
    count := if added then toInt (e.count + 1) else e.count
    prio := prio
    sumDelay := e.sumDelay + delay
    maxDelay := keepMax e.maxDelay delay
    minDelay := keepMin e.minDelay delay }

def SumSchedule.charge (t : SumSchedule) (delay : UInt64) : SumSchedule where
  sumCount := t.sumCount + 1
  sumDelay := t.sumDelay + delay
  maxDelay := keepMax t.maxDelay delay
  minDelay := keepMin t.minDelay delay

/-- The second part of `sched_switch`: `next` gets the CPU. -/
def charge (s : State) (next : Task) (cpu : Int) (now : UInt64) (rooms : Rooms) : State :=
  let pd := procId next.pid cpu
  match s.procSchedule.lookup pd with
  | none => s
  | some e =>
    match s.enableAdd.lookup pd with
    | none => s
    | some added =>
      let delay := now - e.enterTime
      let e' := e.charge added next.prio delay
      { s with
        procSchedule := s.procSchedule.store pd e'
        enableAdd := s.enableAdd.store pd true
        targetSchedule := if targets s.schedCtrlMap next.pid cpu then e' else s.targetSchedule
        tgSchedule :=
          if next.tgid = s.schedCtrlMap.targetTgid then
            s.tgSchedule.update rooms.tgSchedule next.pid e'
          else s.tgSchedule
        sysSchedule := s.sysSchedule.charge delay }

def schedSwitch (s : State) (prev next : Task) (cpu : Int) (now : UInt64) (rooms : Rooms) :
    State :=
  if s.schedCtrlMap.schedFunc then
    charge (if prev.state = taskRunning then ready s prev cpu now rooms else s) next cpu now rooms
  else s

def schedProcessExit (s : State) (p : Task) (cpu : Int) : State :=
  if s.schedCtrlMap.schedFunc then
    let pd := procId p.pid cpu
    { s with
      procSchedule := s.procSchedule.delete pd
      enableAdd := s.enableAdd.delete pd
      -- count 0 tells the reader that the target has exited
      targetSchedule :=
        if targets s.schedCtrlMap p.pid cpu then { s.targetSchedule with count := 0 }
        else s.targetSchedule
      tgSchedule :=
        if p.tgid = s.schedCtrlMap.targetTgid then s.tgSchedule.delete p.pid else s.tgSchedule }
  else s

section Cases

variable (s : State) (p : Task) (cpu : Int) (now : UInt64) (rooms : Rooms)

theorem ready_of_none (h : s.procSchedule.lookup (procId p.pid cpu) = none) :
    ready s p cpu now rooms =
      { s with
        enableAdd := s.enableAdd.update rooms.enableAdd (procId p.pid cpu) false
        procSchedule := s.procSchedule.update rooms.procSchedule (procId p.pid cpu)
          (ScheduleEvent.create p now) } := by
  simp only [ready, h]

theorem ready_of_some {e : ScheduleEvent}
    (h : s.procSchedule.lookup (procId p.pid cpu) = some e) :
    ready s p cpu now rooms =
      { s with
        procSchedule := s.procSchedule.store (procId p.pid cpu) { e with enterTime := now } } := by
  simp only [ready, h]

theorem charge_of_none (h : s.procSchedule.lookup (procId p.pid cpu) = none) :
    charge s p cpu now rooms = s := by
  simp only [charge, h]

theorem charge_of_not_added (ha : s.enableAdd.lookup (procId p.pid cpu) = none) :
    charge s p cpu now rooms = s := by
  simp only [charge, ha]
  split <;> rfl

theorem charge_of_some {e : ScheduleEvent} {added : Bool}
    (h : s.procSchedule.lookup (procId p.pid cpu) = some e)
    (ha : s.enableAdd.lookup (procId p.pid cpu) = some added) :
    charge s p cpu now rooms =
      { s with
        procSchedule := s.procSchedule.store (procId p.pid cpu)
          (e.charge added p.prio (now - e.enterTime))
        enableAdd := s.enableAdd.store (procId p.pid cpu) true
        targetSchedule :=
          if targets s.schedCtrlMap p.pid cpu then e.charge added p.prio (now - e.enterTime)
          else s.targetSchedule
        tgSchedule :=
          if p.tgid = s.schedCtrlMap.targetTgid then
            s.tgSchedule.update rooms.tgSchedule p.pid (e.charge added p.prio (now - e.enterTime))
          else s.tgSchedule
        sysSchedule := s.sysSchedule.charge (now - e.enterTime) } := by
  simp only [charge, h, ha]

/-- A task is charged only when both maps have an element for it. -/
theorem charge_cases :
    (charge s p cpu now rooms = s ∧
      (s.procSchedule.lookup (procId p.pid cpu) = none ∨
        s.enableAdd.lookup (procId p.pid cpu) = none)) ∨
    ∃ e added, s.procSchedule.lookup (procId p.pid cpu) = some e ∧
      s.enableAdd.lookup (procId p.pid cpu) = some added := by
  cases hl : s.procSchedule.lookup (procId p.pid cpu) with
  | none => exact Or.inl ⟨charge_of_none s p cpu now rooms hl, Or.inl rfl⟩
  | some e =>
    cases ha : s.enableAdd.lookup (procId p.pid cpu) with
    | none => exact Or.inl ⟨charge_of_not_added s p cpu now rooms ha, Or.inr rfl⟩
    | some added => exact Or.inr ⟨e, added, rfl, rfl⟩

theorem ready_ctrl : (ready s p cpu now rooms).schedCtrlMap = s.schedCtrlMap := by
  unfold ready
  simp only
  split <;> rfl

theorem charge_ctrl : (charge s p cpu now rooms).schedCtrlMap = s.schedCtrlMap := by
  unfold charge
  simp only
  split
  · rfl
  · split <;> rfl

/-- What holds of the two elements under every key, and of something kept for the key, still holds
when only the elements under `pd` change. -/
theorem elements_update {α : Type} {R : α → Option ScheduleEvent → Option Bool → Prop}
    {table : ProcId → α} {s s' : State} {pd : ProcId} {x : α}
    (h : ∀ k, R (table k) (s.procSchedule.lookup k) (s.enableAdd.lookup k))
    (hproc : ∀ k, k ≠ pd → s'.procSchedule.lookup k = s.procSchedule.lookup k)
    (hadd : ∀ k, k ≠ pd → s'.enableAdd.lookup k = s.enableAdd.lookup k)
    (hself : R x (s'.procSchedule.lookup pd) (s'.enableAdd.lookup pd)) (k : ProcId) :
    R (Function.update table pd x k) (s'.procSchedule.lookup k) (s'.enableAdd.lookup k) := by
  by_cases hk : k = pd
  · rw [hk, Function.update_self]
    exact hself
  · rw [Function.update_of_ne hk, hproc k hk, hadd k hk]
    exact h k

end Cases

/-- What can happen.  The switch reads the fields of both tasks at that moment. -/
inductive Event where
  | schedCtrl (c : SchedCtrl)
  | schedWakeup (p : Task) (cpu : Int) (now : UInt64) (rooms : Rooms)
  | schedWakeupNew (p : Task) (cpu : Int) (now : UInt64) (rooms : Rooms)
  | schedSwitch (prev next : Task) (cpu : Int) (now : UInt64) (rooms : Rooms)
  | schedProcessExit (p : Task) (cpu : Int)
deriving DecidableEq

def step (s : State) : Event → State
  | .schedCtrl c => { s with schedCtrlMap := c }
  | .schedWakeup p cpu now rooms => schedWakeup s p cpu now rooms
  | .schedWakeupNew p cpu now rooms => schedWakeupNew s p cpu now rooms
  | .schedSwitch prev next cpu now rooms => schedSwitch s prev next cpu now rooms
  | .schedProcessExit p cpu => schedProcessExit s p cpu

def initial (c : SchedCtrl) : State where
  schedCtrlMap := c
  procSchedule := BpfMap.empty
  targetSchedule := ScheduleEvent.zero
  enableAdd := BpfMap.empty
  tgSchedule := BpfMap.empty
  sysSchedule := ⟨0, 0, 0, 0⟩

/-- The kernel side emits no records: user space reads the maps. -/
def machine (c : SchedCtrl) : Machine State Event Empty where
  init := initial c
  step s e := (step s e, [])

end CpuSubsystem.ScheduleImage
