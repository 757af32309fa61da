import CpuSubsystem.Lib.BpfMap
import CpuSubsystem.Lib.Machine
import CpuSubsystem.ProcImage.ScheduleImage.Model

/-!
# Resource image, kernel side (`bpf/resource_image.bpf.c`)

`finish_task_switch` plays two roles: it closes the stay of `prev` on the CPU, adding to `total`
what was used since the snapshot in `start`, and it takes the snapshot of `next`.
-/

namespace CpuSubsystem.ResourceImage

open ScheduleImage (ProcId procId)

/-- `struct rsc_ctrl`. -/
structure RscCtrl where
  rscFunc : Bool
  targetPid : Int
  targetCpuId : Int
  enableMyproc : Bool
  targetTgid : Int
deriving DecidableEq, Repr

/-- `struct start_rsc`. -/
structure StartRsc where
  time : UInt64
  readchar : UInt64
  writechar : UInt64
deriving DecidableEq, Repr

/-- `struct total_rsc`. -/
structure TotalRsc where
  pid : Int
  tgid : Int
  cpuId : Int
  time : UInt64
  memused : UInt64
  readchar : UInt64
  writechar : UInt64
deriving DecidableEq, Repr

/-- What the probe reads of a `task_struct`. -/
structure Task where
  pid : Int
  tgid : Int
  rchar : UInt64
  wchar : UInt64
deriving DecidableEq, Repr

/-- The counters of `mm->rss_stat`, an array of four.  What `BPF_CORE_READ` yields of an array is the
address of a copy, so that `if(!rss)` never holds; the copy is zero when there is no `mm`. -/
structure RssStat where
  filePages : UInt64
  anonPages : UInt64
  swapEnts : UInt64
  shmemPages : UInt64
deriving DecidableEq, Repr

/-- `rss[0].count + rss[1].count + rss[3].count`. -/
def RssStat.memused (rss : RssStat) : UInt64 := rss.filePages + rss.anonPages + rss.shmemPages

structure State where
  rscCtrlMap : RscCtrl
  start : BpfMap ProcId StartRsc
  total : BpfMap ProcId TotalRsc

/-- The selection condition.  A target pid of 0 is the idle task of one CPU. -/
def selects (ignoreTgid : Int) (c : RscCtrl) (pid tgid cpu : Int) : Bool :=
  (c.enableMyproc || tgid != ignoreTgid) &&
    ((c.targetPid == -1 && c.targetTgid == -1) ||
      (c.targetPid != 0 && pid == c.targetPid) ||
      (c.targetPid == 0 && pid == c.targetPid && cpu == c.targetCpuId) ||
      tgid == c.targetTgid)

/-- A new element of `total`. -/
def TotalRsc.create (c : RscCtrl) (prev : Task) (cpu : Int) (memused now : UInt64)
    (begun : StartRsc) : TotalRsc where
  pid := prev.pid
  tgid := if c.targetTgid != -1 then prev.tgid else -1
  cpuId := cpu
  time := now - begun.time
  memused := memused
  readchar := prev.rchar - begun.readchar
  writechar := prev.wchar - begun.writechar

def TotalRsc.add (t : TotalRsc) (prev : Task) (cpu : Int) (memused now : UInt64)
    (begun : StartRsc) : TotalRsc :=
  { t with
    cpuId := cpu
    time := t.time + (now - begun.time)
    memused := memused
    readchar := t.readchar + (prev.rchar - begun.readchar)
    writechar := t.writechar + (prev.wchar - begun.writechar) }

section Probe

variable (ignoreTgid : Int) (s : State)

/-- The part of the probe about `prev`. -/
def leave (prev : Task) (cpu : Int) (rss : RssStat) (now : UInt64) (room : Bool) : State :=
  if selects ignoreTgid s.rscCtrlMap prev.pid prev.tgid cpu then
    let pd := procId prev.pid cpu
    match s.start.lookup pd with
    | none => s
    | some begun =>
      match s.total.lookup pd with
      | none =>
        { s with
          total := s.total.update room pd
            (TotalRsc.create s.rscCtrlMap prev cpu rss.memused now begun) }
      | some t => { s with total := s.total.store pd (t.add prev cpu rss.memused now begun) }
  else s

/-- The part about `next`. -/
def enter (next : Task) (cpu : Int) (now : UInt64) (room : Bool) : State :=
  if selects ignoreTgid s.rscCtrlMap next.pid next.tgid cpu then
    { s with
      start := s.start.update room (procId next.pid cpu) ⟨now, next.rchar, next.wchar⟩ }
  else s

/-- Whether the two maps have room for a new key. -/
structure Rooms where
  start : Bool
  total : Bool
deriving DecidableEq, Repr

/-- The clock is read once for each part. -/
def finishTaskSwitch (prev next : Task) (cpu : Int) (rss : RssStat) (off on : UInt64)
    (rooms : Rooms) : State :=
  if s.rscCtrlMap.rscFunc then
    enter ignoreTgid (leave ignoreTgid s prev cpu rss off rooms.total) next cpu on rooms.start
  else s

end Probe

/-- The controller writes `rsc_ctrl_map`, user space removes an element of `total`, or a CPU
switches tasks. -/
inductive Event where
  | rscCtrl (c : RscCtrl)
  | deleteTotal (k : ProcId)
  | finishTaskSwitch (prev next : Task) (cpu : Int) (rss : RssStat) (off on : UInt64)
      (rooms : Rooms)
deriving DecidableEq

def step (ignoreTgid : Int) (s : State) : Event → State
  | .rscCtrl c => { s with rscCtrlMap := c }
  | .deleteTotal k => { s with total := s.total.delete k }
  | .finishTaskSwitch prev next cpu rss off on rooms =>
    finishTaskSwitch ignoreTgid s prev next cpu rss off on rooms

def initial (c : RscCtrl) : State where
  rscCtrlMap := c
  start := BpfMap.empty
  total := BpfMap.empty

/-- The kernel side emits no records: user space reads `total`. -/
def machine (ignoreTgid : Int) (c : RscCtrl) : Machine State Event Empty where
  init := initial c
  step s e := (step ignoreTgid s e, [])

section Cases

variable {ignoreTgid : Int} {s : State} {p : Task} {cpu : Int} {rss : RssStat} {now : UInt64}
  {room : Bool} {begun : StartRsc}

theorem leave_unselected (h : selects ignoreTgid s.rscCtrlMap p.pid p.tgid cpu = false) :
    leave ignoreTgid s p cpu rss now room = s := by
  rw [leave, h, if_neg Bool.false_ne_true]

/-- The stay of a task that was not seen to begin is not charged. -/
theorem leave_unseen (h : s.start.lookup (procId p.pid cpu) = none) :
    leave ignoreTgid s p cpu rss now room = s := by
  unfold leave
  dsimp only
  rw [h]
  split <;> rfl

theorem leave_create (hsel : selects ignoreTgid s.rscCtrlMap p.pid p.tgid cpu = true)
    (hb : s.start.lookup (procId p.pid cpu) = some begun)
    (ht : s.total.lookup (procId p.pid cpu) = none) :
    leave ignoreTgid s p cpu rss now room = { s with
      total := s.total.update room (procId p.pid cpu)
        (TotalRsc.create s.rscCtrlMap p cpu rss.memused now begun) } := by
  simp only [leave, hsel, if_true, hb, ht]

theorem leave_add {t : TotalRsc}
    (hsel : selects ignoreTgid s.rscCtrlMap p.pid p.tgid cpu = true)
    (hb : s.start.lookup (procId p.pid cpu) = some begun)
    (ht : s.total.lookup (procId p.pid cpu) = some t) :
    leave ignoreTgid s p cpu rss now room = { s with
      total := s.total.store (procId p.pid cpu) (t.add p cpu rss.memused now begun) } := by
  simp only [leave, hsel, if_true, hb, ht]

/-- The part about `prev` does nothing, makes a new element of `total` or adds to the one there
is. -/
theorem leave_cases (ignoreTgid : Int) (s : State) (p : Task) (cpu : Int) (rss : RssStat)
    (now : UInt64) (room : Bool) :
    (leave ignoreTgid s p cpu rss now room = s ∧
      (selects ignoreTgid s.rscCtrlMap p.pid p.tgid cpu = false ∨
        s.start.lookup (procId p.pid cpu) = none)) ∨
    ∃ begun, selects ignoreTgid s.rscCtrlMap p.pid p.tgid cpu = true ∧
      s.start.lookup (procId p.pid cpu) = some begun ∧
      ((s.total.lookup (procId p.pid cpu) = none ∧
          leave ignoreTgid s p cpu rss now room = { s with
            total := s.total.update room (procId p.pid cpu)
              (TotalRsc.create s.rscCtrlMap p cpu rss.memused now begun) }) ∨
        ∃ t, s.total.lookup (procId p.pid cpu) = some t ∧
          leave ignoreTgid s p cpu rss now room = { s with
            total := s.total.store (procId p.pid cpu) (t.add p cpu rss.memused now begun) }) := by
  cases hsel : selects ignoreTgid s.rscCtrlMap p.pid p.tgid cpu with
  | false => exact Or.inl ⟨leave_unselected hsel, Or.inl rfl⟩
  | true =>
    cases hb : s.start.lookup (procId p.pid cpu) with
    | none => exact Or.inl ⟨leave_unseen hb, Or.inr rfl⟩
    | some begun =>
      refine Or.inr ⟨begun, rfl, rfl, ?_⟩
      cases ht : s.total.lookup (procId p.pid cpu) with
      | none => exact Or.inl ⟨rfl, leave_create hsel hb ht⟩
      | some t => exact Or.inr ⟨t, rfl, leave_add hsel hb ht⟩

/-- The part about `prev` changes at most its own element of `total`. -/
theorem leave_frame (ignoreTgid : Int) (s : State) (p : Task) (cpu : Int) (rss : RssStat)
    (now : UInt64) (room : Bool) :
    (leave ignoreTgid s p cpu rss now room).rscCtrlMap = s.rscCtrlMap ∧
      (leave ignoreTgid s p cpu rss now room).start = s.start ∧
      ∀ k, k ≠ procId p.pid cpu →
        (leave ignoreTgid s p cpu rss now room).total.lookup k = s.total.lookup k := by
  rcases leave_cases ignoreTgid s p cpu rss now room with
    ⟨h, -⟩ | ⟨begun, -, -, ⟨-, h⟩ | ⟨t, -, h⟩⟩
  · rw [h]
    exact ⟨rfl, rfl, fun k _ => rfl⟩
  · rw [h]
    exact ⟨rfl, rfl, fun k hk => BpfMap.lookup_update_of_ne _ _ _ hk⟩
  · rw [h]
    exact ⟨rfl, rfl, fun k hk => BpfMap.lookup_store_of_ne _ _ hk⟩

theorem enter_frame (ignoreTgid : Int) (s : State) (p : Task) (cpu : Int) (now : UInt64)
    (room : Bool) :
    (enter ignoreTgid s p cpu now room).rscCtrlMap = s.rscCtrlMap ∧
      (enter ignoreTgid s p cpu now room).total = s.total ∧
      ∀ k, k ≠ procId p.pid cpu →
        (enter ignoreTgid s p cpu now room).start.lookup k = s.start.lookup k := by
  unfold enter
  split
  · exact ⟨rfl, rfl, fun k hk => BpfMap.lookup_update_of_ne _ _ _ hk⟩
  · exact ⟨rfl, rfl, fun k _ => rfl⟩

theorem enter_selected (hsel : selects ignoreTgid s.rscCtrlMap p.pid p.tgid cpu = true) :
    (enter ignoreTgid s p cpu now true).start.lookup (procId p.pid cpu) =
      some ⟨now, p.rchar, p.wchar⟩ := by
  rw [enter, if_pos hsel, BpfMap.update_true]
  exact BpfMap.lookup_store_self _ _ _

theorem finishTaskSwitch_of_active {next : Task} {off on : UInt64} {rooms : Rooms}
    (hact : s.rscCtrlMap.rscFunc = true) :
    finishTaskSwitch ignoreTgid s p next cpu rss off on rooms =
      enter ignoreTgid (leave ignoreTgid s p cpu rss off rooms.total) next cpu on rooms.start :=
  if_pos hact

end Cases

end CpuSubsystem.ResourceImage
