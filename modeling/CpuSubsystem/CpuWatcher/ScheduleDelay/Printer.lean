import CpuSubsystem.CpuWatcher.ScheduleDelay.Model

/-!
# Scheduling delays, user side (`schedule_print` in `cpu_watcher.c`)

A call comes between two probes and at any time; `main` leaves its loop when a call fails.  The time
of day in front of the averages is left out, and delays are printed as they are read: averages in
nanoseconds, delays over the limit in microseconds.  The tables of entries that were printed and of
their number (`cpu_watcher_helper.h`) are one list.
-/

namespace CpuSubsystem.ScheduleDelay

/-- `SCHEDULE_WACTHER`. -/
abbrev scheduleWatcher : Int := 50

/-- `MAX_ENTRIES`. -/
abbrev maxSeen : Nat := 102400

/-- `struct output_entry`. -/
structure OutputEntry where
  pid : Int
  comm : Comm
  delay : UInt64
deriving DecidableEq

inductive Line where
  | averagesHeader
  | thresholdHeader (minMs : Int)
  | averages (avgDelay maxDelay : UInt64) (procNameMax : Comm) (minDelay : UInt64)
      (procNameMin : Comm)
  | delay (entry : OutputEntry) (previous : List (Nat × ProcInfo))
deriving DecidableEq

/-- How a call ends: it returns, or a division by zero kills the process. -/
inductive Outcome where
  | returned (err : Int)
  | divideError
deriving DecidableEq, Repr

/-- The variables of the process: `ifprint` and the table `seen_entries`. -/
structure Printer where
  ifprint : Bool
  seenEntries : List OutputEntry
deriving DecidableEq

def entryExists (seen : List OutputEntry) (entry : OutputEntry) : Bool :=
  seen.any fun e => e.pid == entry.pid && e.comm == entry.comm && e.delay == entry.delay

def addEntry (seen : List OutputEntry) (entry : OutputEntry) : List OutputEntry :=
  if seen.length < maxSeen then seen ++ [entry] else seen

/-- The head of a table is printed once for each start of the tool. -/
def header (c : ScheduleCtrl) : ScheduleCtrl × List Line :=
  if c.prevWatcher = scheduleWatcher then
    ({ c with prevWatcher := scheduleWatcher + 9 }, [.averagesHeader])
  else if c.prevWatcher = scheduleWatcher + 1 then
    ({ c with prevWatcher := scheduleWatcher + 9 }, [.thresholdHeader (c.minUs.tdiv 1000)])
  else (c, [])

/-- The branch without `min_us_set`. -/
def printAverages (info : SumSchedule) (p : Printer) : Printer × List Line × Outcome :=
  if info.sumCount = 0 then (p, [], .divideError)
  else if p.ifprint then
    (p, [.averages (info.sumDelay / info.sumCount) info.maxDelay info.procNameMax info.minDelay
      info.procNameMin], .returned 0)
  else ({ p with ifprint := true }, [], .returned 0)

/-- The processes before, numbered from 1; an idle task is left out. -/
def previousProcesses (history : ProcHistory) : List (Nat × ProcInfo) :=
  [(1, history.last0), (2, history.last1)].filter fun process => process.2.pid ≠ 0

/-- `info.delay / 1000 > sd_ctrl.min_us && info.id.pid != 0`; the `int` is converted. -/
def exceeds (c : ScheduleCtrl) (info : ProcSchedule) : Bool :=
  info.delay / 1000 > UInt64.ofInt c.minUs ∧ info.id.pid ≠ 0

def ProcSchedule.entry (info : ProcSchedule) : OutputEntry :=
  ⟨info.id.pid, info.procName, info.delay / 1000⟩

/-- The branch with `min_us_set`. -/
def printThreshold (c : ScheduleCtrl) (s : State) (p : Printer) : Printer × List Line × Outcome :=
  match s.thresholdSchedule.lookup 0 with
  | none => (p, [], .returned (-1))
  | some info =>
    if exceeds c info then
      match s.procHistories.lookup info.id with
      | none => (p, [], .returned (-1))
      | some prevInfo =>
        if entryExists p.seenEntries info.entry then (p, [], .returned 0)
        else
          ({ p with seenEntries := addEntry p.seenEntries info.entry },
            [.delay info.entry (previousProcesses prevInfo)], .returned 0)
    else (p, [], .returned 0)

def schedulePrint (s : State) (p : Printer) : State × Printer × List Line × Outcome :=
  if s.scheduleCtrlMap.scheduleFunc then
    let (c, head) := header s.scheduleCtrlMap
    let (p, lines, outcome) :=
      if c.minUsSet then printThreshold c s p else printAverages s.sysSchedule p
    ({ s with scheduleCtrlMap := c }, p, head ++ lines, outcome)
  else (s, p, [], .returned 0)

/-- The probes and the process that prints. -/
structure Tool where
  kernel : State
  printer : Printer
  running : Bool

/-- A probe runs or the control is written, or `schedule_print` is called. -/
inductive Tick where
  | kernel (e : Event)
  | poll
deriving DecidableEq

/-- The records are the lines that are printed. -/
def tool (c : ScheduleCtrl) : Machine Tool Tick Line where
  init := ⟨initial c, ⟨false, []⟩, true⟩
  step t
    | .kernel e => ({ t with kernel := step t.kernel e }, [])
    | .poll =>
      if t.running then
        let (kernel, printer, lines, outcome) := schedulePrint t.kernel t.printer
        (⟨kernel, printer, outcome = .returned 0⟩, lines)
      else (t, [])

section Table

variable {seen : List OutputEntry} {entry e : OutputEntry}

theorem entryExists_iff : entryExists seen entry = true ↔ entry ∈ seen := by
  rw [entryExists, List.any_eq_true]
  constructor
  · rintro ⟨e, he, heq⟩
    simp only [Bool.and_eq_true, beq_iff_eq] at heq
    obtain ⟨⟨hpid, hcomm⟩, hdelay⟩ := heq
    cases e
    cases entry
    cases hpid
    cases hcomm
    cases hdelay
    exact he
  · intro he
    exact ⟨entry, he, by simp⟩

theorem mem_addEntry (h : seen.length < maxSeen) :
    e ∈ addEntry seen entry ↔ e ∈ seen ∨ e = entry := by
  rw [addEntry, if_pos h, List.mem_append, List.mem_singleton]

end Table

section Threshold

variable {c : ScheduleCtrl} {s : State} {p : Printer} {info : ProcSchedule}

/-- A call that succeeds prints the delay it reads, if it exceeds the limit and is not in the table,
and puts it there. -/
theorem printThreshold_reads (e : OutputEntry)
    (hinfo : s.thresholdSchedule.lookup 0 = some info)
    (hok : (printThreshold c s p).2.2 = .returned 0) (hfull : p.seenEntries.length < maxSeen) :
    ((∃ previous, Line.delay e previous ∈ (printThreshold c s p).2.1) ↔
      (exceeds c info = true ∧ e = info.entry) ∧ e ∉ p.seenEntries) ∧
    (e ∈ (printThreshold c s p).1.seenEntries ↔
      e ∈ p.seenEntries ∨ exceeds c info = true ∧ e = info.entry) := by
  simp only [printThreshold, hinfo] at hok ⊢
  by_cases hexceeds : exceeds c info = true
  · simp only [hexceeds, if_true, true_and] at hok ⊢
    cases hhistory : s.procHistories.lookup info.id with
    | none =>
      simp only [hhistory] at hok
      cases hok
    | some prevInfo =>
      by_cases hseen : entryExists p.seenEntries info.entry = true
      · have hmem := entryExists_iff.mp hseen
        simp only [hseen, if_true, List.not_mem_nil, exists_false, false_iff]
        constructor
        · rintro ⟨rfl, hnot⟩
          exact hnot hmem
        · constructor
          · exact Or.inl
          · rintro (h | rfl)
            · exact h
            · exact hmem
      · have hmem : info.entry ∉ p.seenEntries := fun h => hseen (entryExists_iff.mpr h)
        simp only [hseen, Bool.false_eq_true, if_false, List.mem_singleton, Line.delay.injEq]
        refine ⟨?_, mem_addEntry hfull⟩
        constructor
        · rintro ⟨previous, rfl, -⟩
          exact ⟨rfl, hmem⟩
        · rintro ⟨rfl, -⟩
          exact ⟨_, rfl, rfl⟩
  · simp [hexceeds]

end Threshold

end CpuSubsystem.ScheduleDelay
