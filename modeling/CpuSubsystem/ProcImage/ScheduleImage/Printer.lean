import CpuSubsystem.ProcImage.ScheduleImage.Model

/-!
# Schedule image, user side (`print_schedule` in `proc_image.c`)

A call comes between two probes.  It may come at any time, so the flag `output_schedule` that asks
for it is not kept; the time of day in front of a row is left out, and delays stay in nanoseconds.
-/

namespace CpuSubsystem.ScheduleImage

/-- The columns of a row; `TGID` is there when a thread group is selected. -/
structure Row where
  tgid : Option Int
  pid : Int
  prio : Int
  procAvgDelay : UInt64
  sysAvgDelay : UInt64
  procMaxDelay : UInt64
  sysMaxDelay : UInt64
  procMinDelay : UInt64
  sysMinDelay : UInt64
deriving DecidableEq, Repr

/-- What is printed: the head of the table, with or without the column `TGID`, or a row. -/
inductive Line where
  | header (tgid : Bool)
  | row (r : Row)
deriving DecidableEq, Repr

/-- How a call ends: it returns, or a division by zero kills the process. -/
inductive Outcome where
  | returned (err : Int)
  | divideError
deriving DecidableEq, Repr

/-- `SCHEDULE_IMAGE`. -/
abbrev scheduleImage : Int := 5

/-- The variables that decide whether the head is printed again. -/
structure Shown where
  prevImage : Int
  schedPrevTgid : Int
deriving DecidableEq, Repr

def average (sum count : UInt64) : Option UInt64 := if count = 0 then none else some (sum / count)

/-- Both averages are computed before the row is printed.  The `int` in `count` is converted to the
type of the sum. -/
def row (withTgid : Bool) (procEvent : ScheduleEvent) (sysEvent : SumSchedule) : Option Row :=
  match average procEvent.sumDelay (UInt64.ofInt procEvent.count),
    average sysEvent.sumDelay sysEvent.sumCount with
  | some procAvgDelay, some sysAvgDelay =>
    some
      { tgid := if withTgid then some procEvent.tgid else none
        pid := procEvent.pid
        prio := procEvent.prio
        procAvgDelay := procAvgDelay
        sysAvgDelay := sysAvgDelay
        procMaxDelay := procEvent.maxDelay
        sysMaxDelay := sysEvent.maxDelay
        procMinDelay := procEvent.minDelay
        sysMinDelay := sysEvent.minDelay }
  | _, _ => none

/-- The `while` loop over a hash map; `keys` are those that `bpf_map_get_next_key` yields. -/
def rows {κ : Type*} [DecidableEq κ] (m : BpfMap κ ScheduleEvent) (sysEvent : SumSchedule)
    (withTgid : Bool) : List κ → List Line × Outcome
  | [] => ([], .returned 0)
  | nextKey :: keys =>
    match m.lookup nextKey with
    | none => ([], .returned (-1))
    | some procEvent =>
      match row withTgid procEvent sysEvent with
      | none => ([], .divideError)
      | some r => (.row r :: (rows m sysEvent withTgid keys).1, (rows m sysEvent withTgid keys).2)

/-- `target_schedule` has one element, whose `count` is 0 when there is no target. -/
def targetRow (procEvent : ScheduleEvent) (sysEvent : SumSchedule) : List Line × Outcome :=
  if procEvent.count ≠ 0 then
    match row false procEvent sysEvent with
    | none => ([], .divideError)
    | some r => ([.row r], .returned 0)
  else ([], .returned 0)

/-- The rows for the selection in `sched_ctrl`; there are none when both targets are set. -/
def body (s : State) (procKeys : List ProcId) (tgKeys : List Int) : List Line × Outcome :=
  let c := s.schedCtrlMap
  if c.targetPid = -1 ∧ c.targetTgid = -1 then rows s.procSchedule s.sysSchedule false procKeys
  else if c.targetPid ≠ -1 ∧ c.targetTgid = -1 then targetRow s.targetSchedule s.sysSchedule
  else if c.targetPid = -1 ∧ c.targetTgid ≠ -1 then rows s.tgSchedule s.sysSchedule true tgKeys
  else ([], .returned 0)

def schedCurTgid (c : SchedCtrl) : Int := if c.targetTgid ≠ -1 then 2 else 1

def header (c : SchedCtrl) (shown : Shown) : List Line :=
  if shown.prevImage ≠ scheduleImage ∨ shown.schedPrevTgid ≠ schedCurTgid c then
    [.header (c.targetTgid ≠ -1)]
  else []

def printSchedule (s : State) (shown : Shown) (procKeys : List ProcId) (tgKeys : List Int) :
    Shown × List Line × Outcome :=
  if s.schedCtrlMap.schedFunc then
    ({ prevImage := scheduleImage, schedPrevTgid := schedCurTgid s.schedCtrlMap },
      header s.schedCtrlMap shown ++ (body s procKeys tgKeys).1, (body s procKeys tgKeys).2)
  else (shown, [], .returned 0)

/-- The probes and the process that prints.  `main` leaves its loop when a call fails. -/
structure Tool where
  kernel : State
  shown : Shown
  running : Bool

/-- A probe runs or the control is written, or `print_schedule` is called. -/
inductive Tick where
  | kernel (e : Event)
  | print (procKeys : List ProcId) (tgKeys : List Int)
deriving DecidableEq

def Tick.event : Tick → Option Event
  | .kernel e => some e
  | .print _ _ => none

/-- The records are the lines that are printed. -/
def tool (c : SchedCtrl) : Machine Tool Tick Line where
  init := ⟨initial c, ⟨0, 0⟩, true⟩
  step t
    | .kernel e => ({ t with kernel := step t.kernel e }, [])
    | .print procKeys tgKeys =>
      if t.running then
        let (shown, lines, outcome) := printSchedule t.kernel t.shown procKeys tgKeys
        ({ t with shown := shown, running := outcome = .returned 0 }, lines)
      else (t, [])

/-- Printing does not touch the maps. -/
theorem tool_kernel (c : SchedCtrl) (tr : List Tick) :
    ((tool c).exec tr).kernel = (machine c).exec (tr.filterMap Tick.event) := by
  induction tr using List.reverseRecOn with
  | nil => rfl
  | append_singleton pre t ih =>
    rw [(tool c).exec_snoc, List.filterMap_append]
    cases t with
    | kernel e =>
      show step ((tool c).exec pre).kernel e = (machine c).exec (_ ++ [e])
      rw [ih, (machine c).exec_snoc]
      rfl
    | print procKeys tgKeys =>
      rw [List.filterMap_cons, Tick.event, List.filterMap_nil, List.append_nil, ← ih]
      simp only [tool]
      split <;> rfl

theorem tool_emits (c : SchedCtrl) (pre : List Tick) (procKeys : List ProcId)
    (tgKeys : List Int) :
    (tool c).emits pre (.print procKeys tgKeys) =
      if ((tool c).exec pre).running then
        (printSchedule ((tool c).exec pre).kernel ((tool c).exec pre).shown procKeys tgKeys).2.1
      else [] := by
  show ((tool c).step ((tool c).exec pre) (.print procKeys tgKeys)).2 = _
  generalize (tool c).exec pre = t
  simp only [tool]
  split <;> rfl

section Rows

variable {κ : Type*} [DecidableEq κ] {m : BpfMap κ ScheduleEvent} {sysEvent : SumSchedule}
  {withTgid : Bool} {procEvent : ScheduleEvent} {r : Row}

theorem row_pid (h : row withTgid procEvent sysEvent = some r) : r.pid = procEvent.pid := by
  unfold row at h
  split at h
  · cases h
    rfl
  · cases h

/-- Neither average of the row divides by zero. -/
def averaged (sysEvent : SumSchedule) (procEvent : ScheduleEvent) : Bool :=
  UInt64.ofInt procEvent.count ≠ 0 && sysEvent.sumCount ≠ 0

theorem row_isSome (withTgid : Bool) :
    (row withTgid procEvent sysEvent).isSome = averaged sysEvent procEvent := by
  unfold row average averaged
  by_cases hproc : UInt64.ofInt procEvent.count = 0
  · simp [hproc]
  · by_cases hsys : sysEvent.sumCount = 0
    · simp [hproc, hsys]
    · simp [hproc, hsys]

/-- The rows are those of the elements in front of the first one that is missing or cannot be
averaged. -/
theorem mem_rows {keys : List κ} :
    Line.row r ∈ (rows m sysEvent withTgid keys).1 ↔
      ∃ k ∈ keys.takeWhile fun k => (m.lookup k).any (averaged sysEvent),
        ∃ e, m.lookup k = some e ∧ row withTgid e sysEvent = some r := by
  induction keys with
  | nil => simp [rows]
  | cons nextKey keys ih =>
    cases he : m.lookup nextKey with
    | none => simp [rows, he]
    | some e =>
      cases hrow : row withTgid e sysEvent with
      | none =>
        have havg : averaged sysEvent e = false := by
          rw [← row_isSome withTgid, hrow]
          rfl
        simp [rows, he, hrow, havg]
      | some r' =>
        have havg : averaged sysEvent e = true := by
          rw [← row_isSome withTgid, hrow]
          rfl
        simp [rows, he, hrow, havg, ih, eq_comm]

theorem mem_targetRow :
    Line.row r ∈ (targetRow procEvent sysEvent).1 ↔
      procEvent.count ≠ 0 ∧ row false procEvent sysEvent = some r := by
  unfold targetRow
  by_cases hcount : procEvent.count ≠ 0
  · cases hrow : row false procEvent sysEvent with
    | none => simp [hcount]
    | some r' => simp [hcount, eq_comm]
  · simp [hcount]

/-- A row that can be averaged is printed. -/
theorem exists_row (h : averaged sysEvent procEvent = true) (withTgid : Bool) :
    ∃ r, row withTgid procEvent sysEvent = some r := by
  rw [← row_isSome withTgid] at h
  exact Option.isSome_iff_exists.mp h

theorem body_target {s : State} (procKeys : List ProcId) (tgKeys : List Int)
    (hpid : s.schedCtrlMap.targetPid ≠ -1) (htgid : s.schedCtrlMap.targetTgid = -1) :
    body s procKeys tgKeys = targetRow s.targetSchedule s.sysSchedule := by
  simp only [body, hpid, htgid, false_and, if_false, ne_eq, not_false_eq_true, and_self, if_true]

theorem body_group {s : State} (procKeys : List ProcId) (tgKeys : List Int)
    (hpid : s.schedCtrlMap.targetPid = -1) (htgid : s.schedCtrlMap.targetTgid ≠ -1) :
    body s procKeys tgKeys = rows s.tgSchedule s.sysSchedule true tgKeys := by
  simp only [body, hpid, htgid, and_false, if_false, ne_eq, not_true_eq_false, not_false_eq_true,
    and_self, if_true]

theorem mem_printSchedule {s : State} {shown : Shown} {procKeys : List ProcId}
    {tgKeys : List Int} :
    Line.row r ∈ (printSchedule s shown procKeys tgKeys).2.1 ↔
      s.schedCtrlMap.schedFunc = true ∧ Line.row r ∈ (body s procKeys tgKeys).1 := by
  have hheader : Line.row r ∉ header s.schedCtrlMap shown := by
    unfold header
    split
    · simp
    · simp
  by_cases hact : s.schedCtrlMap.schedFunc = true
  · simp [printSchedule, hact, hheader]
  · simp [printSchedule, hact]

end Rows

end CpuSubsystem.ScheduleImage
