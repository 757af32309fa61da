import CpuSubsystem.CpuWatcher.CsDelay.Model
import CpuSubsystem.CpuWatcher.MqDelay.Model
import CpuSubsystem.CpuWatcher.Preempt.Model
import CpuSubsystem.CpuWatcher.Sar.Model
import CpuSubsystem.CpuWatcher.ScDelay.Model
import CpuSubsystem.CpuWatcher.ScheduleDelay.Charges

/-!
# Tools that are switched off

Each program looks its control up in every probe, but only `sched_wakeup_new` of `schedule_delay`
stops when the tool is off.  For the other probes `Inert` says when they happen to change nothing
and to emit nothing: an update is refused or writes the value that is there, a lookup finds nothing.
-/

namespace CpuSubsystem

/-! ## `sar` -/

namespace Sar

/-- Whether the time of the task is counted, for kernel threads or for user tasks. -/
def Task.counted (t : Task) : Bool :=
  t.kthread && t.pid ≠ 0 || !t.kthread && !t.idle

def Inert (forksAddr : UInt64) (s : State) : Event → Prop
  | .sarCtrl c => s.sarCtrlMap = c
  | .kprobeFinishTaskSwitch totalForks =>
    forksAddr ≠ 0 → ∀ old, s.countMap.lookup 1 = some old → old = totalForks
  | .schedSwitch _ prev next _ => prev = next
  | .finishTaskSwitch _ prev time =>
    prev.counted = true → ∀ val, s.procStartTime.lookup prev.pid = some val → val = time
  | .updateRqClock nrRunning => s.runqlen = nrRunning
  | .softirqEntry _ vec val room =>
    s.softirqCpuEnterTime.accepts room vec = false ∨ s.softirqCpuEnterTime.lookup vec = some val
  | .softirqExit _ vec now room =>
    ∀ val, s.softirqCpuEnterTime.lookup vec = some val →
      if (s.softirqLastTime.lookup 0).isSome then val = now else room = false
  | .irqHandlerEntry _ irq ts room =>
    s.irqCpuEnterStart.accepts room irq = false ∨ s.irqCpuEnterStart.lookup irq = some ts
  | .irqHandlerExit _ irq now => ∀ ts, s.irqCpuEnterStart.lookup irq = some ts → ts = now
  | .cpuIdle cpuId state time =>
    ∀ val, s.idleStart.lookup cpuId = some val → (state = 2 ^ 32 - 1 → val ≠ 0) → val = time
  | .tickUpdate cs totalForks =>
    cs &&& 3 = 0 ∧ (s.symAddr > 0 → ∀ old, s.countMap.lookup 1 = some old → old = totalForks)

theorem difference_eq_zero {time val : UInt64} : time - val = 0 ↔ val = time := by
  rw [sub_eq_zero, eq_comm]

theorem countMap_eq_self {s : State} {p : Prop} [Decidable p] {totalForks : UInt64} :
    (if p then s.countMap.update 1 totalForks else s.countMap) = s.countMap ↔
      (p → ∀ old, s.countMap.lookup 1 = some old → old = totalForks) := by
  by_cases hp : p
  · rw [if_pos hp, BpfArray.update_eq_self]
    simp [hp]
  · simp [hp]

/-- A switch between two tasks is counted. -/
theorem traceSchedSwitch2_eq_self {s : State} {prev next : Nat} {time : UInt64} :
    traceSchedSwitch2 s prev next time = s ↔ prev = next := by
  unfold traceSchedSwitch2
  by_cases h : prev = next
  · simp [h]
  · obtain ⟨val, hval⟩ := s.countMap.exists_lookup (show 0 < 3 by decide)
    have hcount : s.countMap.update 0 (val + 1) ≠ s.countMap := by
      rw [ne_eq, BpfArray.update_eq_self]
      intro hall
      have hsame := hall val hval
      rw [left_eq_add] at hsame
      exact absurd hsame (by decide)
    rw [if_pos h, hval]
    constructor
    · intro heq
      exact absurd (congrArg State.countMap heq) hcount
    · intro heq
      exact absurd heq h

theorem finishTaskSwitch_eq_self {s : State} {prev : Task} {time : UInt64} :
    finishTaskSwitch s prev time = s ↔
      (prev.counted = true → ∀ val, s.procStartTime.lookup prev.pid = some val → val = time) := by
  cases s
  unfold finishTaskSwitch Task.counted
  cases BpfArray.lookup _ prev.pid with
  | none => simp
  | some val => cases prev.kthread <;> simp [difference_eq_zero]

theorem traceCpuIdle_eq_self {s : State} {cpuId state : Nat} {time : UInt64} :
    traceCpuIdle s cpuId state time = s ↔
      ∀ val, s.idleStart.lookup cpuId = some val → (state = 2 ^ 32 - 1 → val ≠ 0) → val = time := by
  cases s
  unfold traceCpuIdle
  by_cases hstate : state = 2 ^ 32 - 1
  · cases BpfArray.lookup _ cpuId with
    | none => simp [hstate]
    | some val =>
      by_cases hval : val = 0
      · simp [hstate, hval]
      · simp [hstate, hval, difference_eq_zero]
  · simp only [hstate, if_false, State.mk.injEq, true_and, and_true, BpfArray.update_eq_self]
    simp

theorem traceSoftirqExit_eq_self {s : State} {vec : Nat} {now : UInt64} {room : Bool} :
    traceSoftirqExit s vec now room = s ↔
      ∀ val, s.softirqCpuEnterTime.lookup vec = some val →
        if (s.softirqLastTime.lookup 0).isSome then val = now else room = false := by
  cases s
  simp only [traceSoftirqExit, State.mk.injEq, true_and, and_true]
  cases BpfMap.lookup _ vec with
  | none => simp
  | some val =>
    cases hlast : BpfMap.lookup _ 0 with
    | none => simp [BpfMap.update_eq_self, BpfMap.accepts, hlast]
    | some last => simp [BpfMap.store_eq_self, hlast, difference_eq_zero]

theorem step_eq_self (forksAddr : UInt64) (s : State) (e : Event) :
    step forksAddr s e = s ↔ Inert forksAddr s e := by
  cases e with
  | sarCtrl c =>
    cases s
    simp [step, Inert, eq_comm]
  | kprobeFinishTaskSwitch totalForks =>
    rw [Inert, ← countMap_eq_self]
    cases s
    simp only [step, kprobeFinishTaskSwitch, State.mk.injEq, true_and, and_true]
  | schedSwitch cpu prev next time => exact traceSchedSwitch2_eq_self
  | finishTaskSwitch cpu prev time => exact finishTaskSwitch_eq_self
  | updateRqClock nrRunning =>
    cases s
    simp [step, updateRqClock, Inert, eq_comm]
  | softirqEntry cpu vec val room =>
    rw [Inert, ← BpfMap.update_eq_self]
    cases s
    simp only [step, traceSoftirqEntry, State.mk.injEq, true_and, and_true]
  | softirqExit cpu vec now room => exact traceSoftirqExit_eq_self
  | irqHandlerEntry cpu irq ts room =>
    rw [Inert, ← BpfMap.update_eq_self]
    cases s
    simp only [step, traceIrqHandlerEntry, State.mk.injEq, true_and, and_true]
  | irqHandlerExit cpu irq now =>
    cases s
    simp only [step, traceIrqHandlerExit, Inert, State.mk.injEq, true_and, and_true]
    cases BpfMap.lookup _ irq with
    | none => simp
    | some ts => simp [difference_eq_zero]
  | cpuIdle cpuId state time => exact traceCpuIdle_eq_self
  | tickUpdate cs totalForks =>
    rw [Inert, ← countMap_eq_self, and_comm]
    cases s
    simp [step, tickUpdate]

end Sar

/-! ## `cs_delay` -/

namespace CsDelay

def Inert (s : State) : Event → Prop
  | .csCtrl c => s.csCtrlMap = c
  | .schedule _ now => s.start = now / 1000
  | .scheduleExit _ _ slot => slot = false

theorem step_eq_self (s : State) (e : Event) : step s e = (s, []) ↔ Inert s e := by
  cases s
  cases e with
  | csCtrl c => simp [step, Inert, eq_comm]
  | schedule cpu now => simp [step, schedule, Inert, eq_comm]
  | scheduleExit cpu now slot => simp [step, scheduleExit, Inert]

end CsDelay

/-! ## `sc_delay` -/

namespace ScDelay

def Inert (s : State) : Event → Prop
  | .scCtrl c => s.scCtrlMap = c
  | .sysEnter cpu cur id now rooms =>
    (s.syscallEnterTime.table.accepts rooms.syscallEnterTime cur.pid = false ∨
      s.syscallEnterTime.lookup cpu cur.pid = some (now / 1000)) ∧
    (s.events.table.accepts rooms.events cur.pid = false ∨ s.events.lookup cpu cur.pid = some id)
  | .sysExit _ cur _ _ => s.syscallEnterTime.contains cur.pid = false

theorem step_eq_self (s : State) (e : Event) : step s e = (s, []) ↔ Inert s e := by
  cases e with
  | scCtrl c =>
    cases s
    simp [step, Inert, eq_comm]
  | sysEnter cpu cur id now rooms =>
    rw [Inert, ← PercpuMap.update_eq_self, ← PercpuMap.update_eq_self]
    cases s
    simp [step, sysEnter]
  | sysExit cpu cur now slot =>
    constructor
    · intro h
      cases hstart : s.syscallEnterTime.table.lookup cur.pid with
      | none =>
        rw [Inert, PercpuMap.contains, hstart]
        rfl
      | some start =>
        have hstate := (sysExit_state hstart).symm.trans (congrArg Prod.fst h)
        exact PercpuMap.delete_eq_self.mp (congrArg State.syscallEnterTime hstate)
    · exact sysExit_unseen

end ScDelay

/-! ## `preempt` -/

namespace Preempt

def Inert (s : State) : Event → Prop
  | .preemptCtrl c => s.preemptCtrlMap = c
  | .schedSwitch _ preempt prev _ startTime room =>
    preempt = true → s.preemptTime.accepts room prev.pid = false ∨
      s.preemptTime.lookup prev.pid = some startTime
  | .finishTaskSwitch _ prev _ _ slot => slot = true → s.preemptTime.lookup prev.pid = none

theorem step_eq_self (s : State) (e : Event) : step s e = (s, []) ↔ Inert s e := by
  cases e with
  | preemptCtrl c =>
    cases s
    simp [step, Inert, eq_comm]
  | schedSwitch cpu preempt prev next startTime room =>
    rw [Inert, ← BpfMap.update_eq_self]
    cases s
    cases preempt <;> simp [step, schedSwitch]
  | finishTaskSwitch cpu prev cur endTime slot =>
    cases s
    simp only [step, finishTaskSwitch, Inert]
    cases BpfMap.lookup _ prev.pid with
    | none => simp
    | some val => cases slot <;> simp

end Preempt

/-! ## `schedule_delay` -/

namespace ScheduleDelay

/-- To become ready changes nothing. -/
def ReadyInert (s : State) (pid cpu : Int) (now : UInt64) (rooms : Rooms) : Prop :=
  match s.enterSchedule.lookup (procId pid cpu) with
  | none => rooms.enterSchedule = false ∧
      (s.hasScheduled.accepts rooms.hasScheduled (procId pid cpu) = false ∨
        s.hasScheduled.lookup (procId pid cpu) = some false)
  | some e => e.enterTime = now

def Inert (s : State) : Event → Prop
  | .scheduleCtrl c => s.scheduleCtrlMap = c
  | .schedWakeup p cpu now rooms => ReadyInert s p.pid cpu now rooms
  | .schedWakeupNew _ _ _ _ => True
  | .schedSwitch prev next cpu now rooms =>
    (prev.state = taskRunning → ReadyInert s prev.pid cpu now rooms) ∧
      (s.enterSchedule.lookup (procId next.pid cpu) = none ∨
        s.hasScheduled.lookup (procId next.pid cpu) = none)
  | .schedProcessExit p cpu =>
    s.hasScheduled.lookup (procId p.pid cpu) = none ∧
      s.enterSchedule.lookup (procId p.pid cpu) = none

theorem ready_eq_self {s : State} {pid cpu : Int} {now : UInt64} {rooms : Rooms} :
    ready s pid cpu now rooms = s ↔ ReadyInert s pid cpu now rooms := by
  unfold ready ReadyInert
  cases henter : s.enterSchedule.lookup (procId pid cpu) with
  | none =>
    rw [← BpfMap.update_eq_self]
    have hroom : rooms.enterSchedule = false ↔
        s.enterSchedule.update rooms.enterSchedule (procId pid cpu) ⟨pid, 1, now⟩ =
          s.enterSchedule := by
      simp [BpfMap.update_eq_self, BpfMap.accepts, henter]
    rw [hroom]
    cases s
    simp [enlist, and_comm]
  | some e =>
    have hstore : e.enterTime = now ↔
        s.enterSchedule.store (procId pid cpu) { e with enterTime := now } = s.enterSchedule := by
      rw [BpfMap.store_eq_self, henter]
      cases e
      simp
    simp only [hstore]
    cases s
    simp

theorem charge_sumCount (t : SumSchedule) (next : Task) (delay : UInt64) :
    (t.charge next delay).sumCount = t.sumCount + 1 := by
  unfold SumSchedule.charge
  dsimp only
  repeat' split
  all_goals rfl

/-- A switch that charges a delay counts it. -/
theorem charges_of_step_eq_self {s : State} {e : Event} (h : step s e = s) :
    s.charges e = none := by
  have hstep := step_charges s e
  cases hch : s.charges e with
  | none => rfl
  | some ch =>
    rw [hch, h] at hstep
    have hcount := congrArg SumSchedule.sumCount hstep.1
    rw [charge_sumCount, left_eq_add] at hcount
    exact absurd hcount (by decide)

theorem charges_eq_none {s : State} {prev next : Task} {cpu : Int} {now : UInt64} {rooms : Rooms} :
    s.charges (.schedSwitch prev next cpu now rooms) = none ↔
      (requeue s prev cpu now rooms).enterSchedule.lookup (procId next.pid cpu) = none ∨
        (requeue s prev cpu now rooms).hasScheduled.lookup (procId next.pid cpu) = none := by
  simp only [State.charges]
  cases (requeue s prev cpu now rooms).hasScheduled.lookup (procId next.pid cpu) <;> simp

theorem requeue_eq_self {s : State} {prev : Task} {cpu : Int} {now : UInt64} {rooms : Rooms} :
    requeue s prev cpu now rooms = s ↔
      (prev.state = taskRunning → ReadyInert s prev.pid cpu now rooms) := by
  unfold requeue
  by_cases h : prev.state = taskRunning
  · rw [if_pos h, ready_eq_self]
    simp [h]
  · simp [h]

theorem schedSwitch_eq_self {s : State} {prev next : Task} {cpu : Int} {now : UInt64}
    {rooms : Rooms} :
    schedSwitch s prev next cpu now rooms = s ↔
      (prev.state = taskRunning → ReadyInert s prev.pid cpu now rooms) ∧
        (s.enterSchedule.lookup (procId next.pid cpu) = none ∨
          s.hasScheduled.lookup (procId next.pid cpu) = none) := by
  rw [← requeue_eq_self]
  constructor
  · intro h
    have hnone := charges_eq_none.mp
      (charges_of_step_eq_self (e := .schedSwitch prev next cpu now rooms) h)
    have hrequeue : requeue s prev cpu now rooms = s := by
      rw [schedSwitch, charge_skips _ _ _ _ _ hnone] at h
      exact h
    rw [hrequeue] at hnone
    exact ⟨hrequeue, hnone⟩
  · rintro ⟨hrequeue, hnone⟩
    rw [schedSwitch, hrequeue, charge_skips _ _ _ _ _ hnone]

theorem step_eq_self (s : State) (h : s.scheduleCtrlMap.scheduleFunc = false) (e : Event) :
    step s e = s ↔ Inert s e := by
  cases e with
  | scheduleCtrl c =>
    cases s
    simp [step, Inert, eq_comm]
  | schedWakeup p cpu now rooms => exact ready_eq_self
  | schedWakeupNew p cpu now rooms => simp [step, schedWakeupNew, h, Inert]
  | schedSwitch prev next cpu now rooms => exact schedSwitch_eq_self
  | schedProcessExit p cpu =>
    rw [Inert, ← BpfMap.delete_eq_self, ← BpfMap.delete_eq_self]
    cases s
    simp [step, schedProcessExit]

end ScheduleDelay

/-! ## `mq_delay` -/

namespace MqDelay

def Inert (s : State) : Event → Prop
  | .mqCtrl c => s.mqCtrlMap = c
  | .mqTimedsend pid mqdes uMsgPtr msgLen msgPrio sendEnterTime room =>
    s.sendMsg1.accepts room pid = false ∨
      s.sendMsg1.lookup pid = some ⟨pid, 0, mqdes, msgLen, msgPrio, uMsgPtr, 0, sendEnterTime, 0⟩
  | .loadMsgEnter pid src => ∀ info, s.sendMsg1.lookup pid = some info → info.src = src
  | .loadMsgExit pid ret room =>
    ∀ info, s.sendMsg1.lookup pid = some info → info.uMsgPtr = info.src → pid = info.sendPid →
      info.keyMsgPtr = ret ∧
        (s.sendMsg2.accepts room ret = false ∨ s.sendMsg2.lookup ret = some info)
  | .doMqTimedsendExit pid _ =>
    ∀ info, s.sendMsg1.lookup pid = some info → s.sendMsg2.lookup info.keyMsgPtr = none
  | .mqTimedreceiveEntry pid mqdes uMsgPtr rcvEnterTime room =>
    s.rcvMsg1.accepts room pid = false ∨
      s.rcvMsg1.lookup pid = some ⟨pid, 0, mqdes, 0, 0, uMsgPtr, 0, rcvEnterTime, 0⟩
  | .storeMsg pid dest msg mType mTs =>
    s.sendMsg2.lookup msg ≠ none → ∀ info, s.rcvMsg1.lookup pid = some info →
      dest = info.uMsgPtr → pid = info.rcvPid →
        info = { info with keyMsgPtr := msg, dest, msgPrio := mType, msgLen := mTs }
  | .doMqTimedreceiveExit pid _ slot =>
    slot = true → ∀ info, s.rcvMsg1.lookup pid = some info →
      s.sendMsg2.lookup info.keyMsgPtr = none

theorem mk_eq_self {s : State} {sendMsg1 : BpfMap Int SendEvents}
    {sendMsg2 : BpfMap UInt64 SendEvents} {rcvMsg1 : BpfMap Int RcvEvents} :
    ({ s with sendMsg1, sendMsg2, rcvMsg1 } : State) = s ↔
      sendMsg1 = s.sendMsg1 ∧ sendMsg2 = s.sendMsg2 ∧ rcvMsg1 = s.rcvMsg1 := by
  cases s
  simp

theorem loadMsgExit_eq_self {s : State} {pid : Int} {ret : UInt64} {room : Bool} :
    loadMsgExit s pid ret room = s ↔
      ∀ info, s.sendMsg1.lookup pid = some info → info.uMsgPtr = info.src → pid = info.sendPid →
        info.keyMsgPtr = ret ∧
          (s.sendMsg2.accepts room ret = false ∨ s.sendMsg2.lookup ret = some info) := by
  unfold loadMsgExit
  cases hsend : s.sendMsg1.lookup pid with
  | none => simp
  | some info =>
    simp only [Option.some.injEq, forall_eq']
    by_cases hblock : info.uMsgPtr = info.src ∧ pid = info.sendPid
    · rw [if_pos hblock, mk_eq_self, BpfMap.store_eq_self, BpfMap.update_eq_self, hsend]
      have hkey : some info = some { info with keyMsgPtr := ret } ↔ info.keyMsgPtr = ret := by
        cases info
        simp
      rw [hkey, and_iff_left rfl]
      constructor
      · rintro ⟨rfl, hsecond⟩ _ _
        exact ⟨rfl, hsecond⟩
      · intro h
        obtain ⟨rfl, hsecond⟩ := h hblock.1 hblock.2
        exact ⟨rfl, hsecond⟩
    · rw [if_neg hblock, eq_self, true_iff]
      intro hptr hpid
      exact absurd ⟨hptr, hpid⟩ hblock

theorem doMqTimedsendExit_eq_self {s : State} {pid : Int} {sendExitTime : UInt64} :
    doMqTimedsendExit s pid sendExitTime = s ↔
      ∀ info, s.sendMsg1.lookup pid = some info → s.sendMsg2.lookup info.keyMsgPtr = none := by
  unfold doMqTimedsendExit
  cases hsend : s.sendMsg1.lookup pid with
  | none => simp
  | some info =>
    cases hblock : s.sendMsg2.lookup info.keyMsgPtr with
    | none => simp [hblock]
    | some info2 => simp [hblock, mk_eq_self, BpfMap.delete_eq_self, hsend]

theorem storeMsg_eq_self {s : State} {pid : Int} {dest msg : UInt64} {mType : UInt32}
    {mTs : UInt64} :
    storeMsg s pid dest msg mType mTs = s ↔
      (s.sendMsg2.lookup msg ≠ none → ∀ info, s.rcvMsg1.lookup pid = some info →
        dest = info.uMsgPtr → pid = info.rcvPid →
          info = { info with keyMsgPtr := msg, dest, msgPrio := mType, msgLen := mTs }) := by
  unfold storeMsg
  cases hblock : s.sendMsg2.lookup msg with
  | none => simp
  | some info2 =>
    cases hrcv : s.rcvMsg1.lookup pid with
    | none => simp
    | some info =>
      simp only [ne_eq, reduceCtorEq, not_false_eq_true, Option.some.injEq, forall_eq',
        true_implies]
      by_cases hdest : dest = info.uMsgPtr ∧ pid = info.rcvPid
      · rw [if_pos hdest, mk_eq_self, BpfMap.store_eq_self, hrcv, Option.some.injEq]
        simp [hdest]
      · rw [if_neg hdest, eq_self, true_iff]
        intro hptr hpid
        exact absurd ⟨hptr, hpid⟩ hdest

theorem doMqTimedreceiveExit_eq_self {s : State} {pid : Int} {rcvExitTime : UInt64}
    {slot : Bool} :
    doMqTimedreceiveExit s pid rcvExitTime slot = (s, []) ↔
      (slot = true → ∀ info, s.rcvMsg1.lookup pid = some info →
        s.sendMsg2.lookup info.keyMsgPtr = none) := by
  unfold doMqTimedreceiveExit
  cases hrcv : s.rcvMsg1.lookup pid with
  | none => simp
  | some info =>
    cases hblock : s.sendMsg2.lookup info.keyMsgPtr with
    | none => simp [hblock]
    | some info2 => cases slot <;> simp [hblock]

theorem step_eq_self (s : State) (e : Event) : step s e = (s, []) ↔ Inert s e := by
  cases e with
  | mqCtrl c =>
    cases s
    simp [step, Inert, eq_comm]
  | mqTimedsend pid mqdes uMsgPtr msgLen msgPrio sendEnterTime room =>
    rw [Inert, ← BpfMap.update_eq_self]
    simp [step, mqTimedsend, mk_eq_self]
  | loadMsgEnter pid src =>
    simp only [step, loadMsgEnter, Inert]
    cases hsend : s.sendMsg1.lookup pid with
    | none => simp
    | some info =>
      cases info
      simp [mk_eq_self, BpfMap.store_eq_self, hsend]
  | loadMsgExit pid ret room =>
    rw [Inert, ← loadMsgExit_eq_self]
    simp [step]
  | doMqTimedsendExit pid sendExitTime =>
    rw [Inert, ← @doMqTimedsendExit_eq_self s pid sendExitTime]
    simp [step]
  | mqTimedreceiveEntry pid mqdes uMsgPtr rcvEnterTime room =>
    rw [Inert, ← BpfMap.update_eq_self]
    simp [step, mqTimedreceiveEntry, mk_eq_self]
  | storeMsg pid dest msg mType mTs =>
    rw [Inert, ← storeMsg_eq_self]
    simp [step]
  | doMqTimedreceiveExit pid rcvExitTime slot => exact doMqTimedreceiveExit_eq_self

end MqDelay

/-! ## The six tools -/

/-- A program: the control among its maps says whether the tool is off. -/
structure Program where
  State : Type
  Event : Type
  Record : Type
  off : State → Prop
  step : State → Event → State × List Record

inductive Tool where
  | sar (forksAddr : UInt64)
  | csDelay
  | scDelay
  | preempt
  | scheduleDelay
  | mqDelay

def Tool.program : Tool → Program
  | .sar forksAddr => ⟨Sar.State, Sar.Event, Empty, fun s => s.sarCtrlMap.sarFunc = false,
      fun s e => (Sar.step forksAddr s e, [])⟩
  | .csDelay => ⟨CsDelay.State, CsDelay.Event, CsDelay.Delay,
      fun s => s.csCtrlMap.csFunc = false, CsDelay.step⟩
  | .scDelay => ⟨ScDelay.State, ScDelay.Event, ScDelay.SyscallEvents,
      fun s => s.scCtrlMap.scFunc = false, ScDelay.step⟩
  | .preempt => ⟨Preempt.State, Preempt.Event, Preempt.PreemptEvent,
      fun s => s.preemptCtrlMap.preemptFunc = false, Preempt.step⟩
  | .scheduleDelay => ⟨ScheduleDelay.State, ScheduleDelay.Event, Empty,
      fun s => s.scheduleCtrlMap.scheduleFunc = false, fun s e => (ScheduleDelay.step s e, [])⟩
  | .mqDelay => ⟨MqDelay.State, MqDelay.Event, MqDelay.MqEvents,
      fun s => s.mqCtrlMap.mqFunc = false, MqDelay.step⟩

def Tool.Inert : (tool : Tool) → tool.program.State → tool.program.Event → Prop
  | .sar forksAddr => Sar.Inert forksAddr
  | .csDelay => CsDelay.Inert
  | .scDelay => ScDelay.Inert
  | .preempt => Preempt.Inert
  | .scheduleDelay => ScheduleDelay.Inert
  | .mqDelay => MqDelay.Inert

/-- A tool that is off does nothing exactly in the inert events. -/
theorem deactivated_inert (tool : Tool) (s : tool.program.State) (e : tool.program.Event)
    (h : tool.program.off s) : tool.program.step s e = (s, []) ↔ tool.Inert s e := by
  cases tool with
  | sar forksAddr =>
    rw [show (Tool.sar forksAddr).Inert s e = Sar.Inert forksAddr s e from rfl,
      ← Sar.step_eq_self forksAddr s e]
    exact Prod.mk_left_inj
  | csDelay => exact CsDelay.step_eq_self s e
  | scDelay => exact ScDelay.step_eq_self s e
  | preempt => exact Preempt.step_eq_self s e
  | scheduleDelay =>
    rw [show Tool.scheduleDelay.Inert s e = ScheduleDelay.Inert s e from rfl,
      ← ScheduleDelay.step_eq_self s h e]
    exact Prod.mk_left_inj
  | mqDelay => exact MqDelay.step_eq_self s e

/-- `schedule_delay`, off from the beginning. -/
def scheduleOff : ScheduleDelay.State := ScheduleDelay.initial ⟨false, false, 10000, 50⟩

theorem deactivated_inert_wakeupNew :
    Tool.scheduleDelay.program.step scheduleOff
      (ScheduleDelay.Event.schedWakeupNew ScheduleDelay.shell 0 1000 ScheduleDelay.allRooms) =
        (scheduleOff, []) :=
  (deactivated_inert .scheduleDelay scheduleOff
    (ScheduleDelay.Event.schedWakeupNew ScheduleDelay.shell 0 1000 ScheduleDelay.allRooms)
    rfl).mpr trivial

/-- Every tool does something at one of its events, although it is off. -/
theorem acts_off (tool : Tool) : ∃ (s : tool.program.State) (e : tool.program.Event),
    tool.program.off s ∧ tool.program.step s e ≠ (s, []) := by
  cases tool with
  | sar forksAddr =>
    refine ⟨Sar.initial ⟨false, false, 0⟩, Sar.Event.updateRqClock 1, rfl, ?_⟩
    intro h
    have hact : (1 : UInt32) = 0 := congrArg (fun r : Sar.State × List Empty => r.1.runqlen) h
    exact absurd hact (by decide)
  | csDelay =>
    refine ⟨CsDelay.initial ⟨false, 0⟩, CsDelay.Event.scheduleExit 0 5000 true, rfl, ?_⟩
    intro h
    cases congrArg (fun r : CsDelay.State × List CsDelay.Delay => r.2) h
  | scDelay =>
    refine ⟨ScDelay.initial ⟨false, 0⟩,
      ScDelay.Event.sysEnter 0 ⟨5, Comm.none⟩ 1 5000 ⟨true, true⟩, rfl, ?_⟩
    intro h
    have hact : true = false := congrArg
      (fun r : ScDelay.State × List ScDelay.SyscallEvents => r.1.events.contains 5) h
    cases hact
  | preempt =>
    refine ⟨Preempt.initial ⟨false, 0⟩,
      Preempt.Event.schedSwitch 0 true ⟨5, 5, Comm.none⟩ ⟨6, 6, Comm.none⟩ 5000 true, rfl, ?_⟩
    intro h
    have hact : some (5000 : UInt64) = none := congrArg
      (fun r : Preempt.State × List Preempt.PreemptEvent => r.1.preemptTime.lookup 5) h
    cases hact
  | scheduleDelay =>
    refine ⟨scheduleOff,
      ScheduleDelay.Event.schedWakeup ScheduleDelay.shell 0 1000 ScheduleDelay.allRooms, rfl, ?_⟩
    intro h
    have hact : some false = none := congrArg
      (fun r : ScheduleDelay.State × List Empty => r.1.hasScheduled.lookup ⟨5, 0⟩) h
    cases hact
  | mqDelay =>
    refine ⟨MqDelay.initial ⟨false, 0⟩, MqDelay.Event.mqTimedsend 5 3 7 8 1 5000 true, rfl, ?_⟩
    intro h
    have hact : true = false := congrArg
      (fun r : MqDelay.State × List MqDelay.MqEvents => (r.1.sendMsg1.lookup 5).isSome) h
    cases hact

/-- No tool stays as it is while it is off. -/
theorem deactivated_tools_act : ¬∃ tool : Tool, ∀ (s : tool.program.State)
    (e : tool.program.Event), tool.program.off s → tool.program.step s e = (s, []) := by
  rintro ⟨tool, h⟩
  obtain ⟨s, e, hoff, hact⟩ := acts_off tool
  exact hact (h s e hoff)

end CpuSubsystem
