import CpuSubsystem.Lib.Headings
import CpuSubsystem.ProcImage.Controller
import CpuSubsystem.ProcImage.ResourceImage.Reader
import CpuSubsystem.ProcImage.ScheduleImage.Printer
import CpuSubsystem.ProcImage.SyscallImage.Table

/-!
# The tables of `eBPF_proc_image` (`print_resource` and its siblings in `proc_image.c`)

All images print to one output.  A printer prints its header again when another image has printed
one, or when the column `TGID` comes or goes.  The columns after `PID` and what goes to other files
are left out.
-/

namespace CpuSubsystem.Headers

open ProcController (Image)
open ScheduleImage (ProcId)

/-- `RESOURCE_IMAGE`, `SYSCALL_IMAGE`, `LOCK_IMAGE`, `KEYTIME_IMAGE` and `SCHEDULE_IMAGE`. -/
def code : Image → Int
  | .resource => 1
  | .syscall => 2
  | .lock => 3
  | .keytime => 4
  | .schedule => 5

/-- A header, with or without the column `TGID`, or a row up to its `PID`. -/
inductive Line where
  | header (image : Image) (withTgid : Bool)
  | row (image : Image) (tgid : Option Int) (pid : Int)
deriving DecidableEq, Repr

/-- The variables that decide on the headers; `prevTgid` of an image is its `rsc_prev_tgid`,
`sc_prev_tgid`, `lock_prev_tgid`, `kt_prev_tgid` or `sched_prev_tgid`. -/
structure Console where
  prevImage : Int
  prevTgid : Image → Int

/-- `rsc_cur_tgid`, `sc_cur_tgid` and so on. -/
def curTgid (withTgid : Bool) : Int := if withTgid then 2 else 1

/-- The header of an image, if it is not the one above. -/
def Console.heading (con : Console) (image : Image) (withTgid : Bool) : Console × List Line :=
  if con.prevImage ≠ code image ∨ con.prevTgid image ≠ curTgid withTgid then
    ({ prevImage := code image
       prevTgid := Function.update con.prevTgid image (curTgid withTgid) },
      [.header image withTgid])
  else (con, [])

/-- The column `TGID` of a row. -/
def column (withTgid : Bool) (tgid : Int) : Option Int := if withTgid then some tgid else none

/-- The process, as far as the printers use it; `scEnv` are the totals and the table of
`print_syscall`. -/
structure Tool where
  console : Console
  firstRsc : Bool
  scEnv : SyscallImage.Env
  running : Bool

def Tool.initial : Tool where
  console := ⟨0, fun _ => 0⟩
  firstRsc := true
  scEnv := SyscallImage.Env.initial
  running := true

section Printers

variable (x : ResourceImage.Setup)

/-- The first loop of `print_resource`, over the keys that `bpf_map_get_next_key` yields, each with
the interval at which it is reached. -/
def resourceLoop (c : ResourceImage.RscCtrl) (total : BpfMap ProcId ResourceImage.TotalRsc) :
    List (ProcId × UInt64) → Console → Console × List Line
  | [], con => (con, [])
  | (nextKey, interval) :: keys, con =>
    let withTgid := c.targetTgid != -1
    let (con, head) := con.heading .resource withTgid
    match total.lookup nextKey with
    | none => (con, head)
    | some event =>
      let row :=
        if ResourceImage.shown x interval event then
          [.row .resource (column withTgid event.tgid) event.pid]
        else []
      let (con, rest) := resourceLoop c total keys con
      (con, head ++ row ++ rest)

/-- The second loop prints nothing. -/
def printResource (t : Tool) (c : ResourceImage.RscCtrl) (keys : List (ProcId × UInt64))
    (total : BpfMap ProcId ResourceImage.TotalRsc) : Tool × List Line :=
  if c.rscFunc then
    if t.firstRsc then ({ t with firstRsc := false }, [])
    else
      let (con, lines) := resourceLoop x c total keys t.console
      ({ t with console := con }, lines)
  else (t, [])

/-- A line of the schedule image among those of all images. -/
def scheduleLine : ScheduleImage.Line → Line
  | .header withTgid => .header .schedule withTgid
  | .row r => .row .schedule r.tgid r.pid

def printSchedule (t : Tool) (s : ScheduleImage.State) (procKeys : List ProcId)
    (tgKeys : List Int) : Tool × List Line :=
  let (shown, lines, outcome) := ScheduleImage.printSchedule s
    ⟨t.console.prevImage, t.console.prevTgid .schedule⟩ procKeys tgKeys
  ({ t with
      console :=
        { prevImage := shown.prevImage
          prevTgid := Function.update t.console.prevTgid .schedule shown.schedPrevTgid }
      running := outcome ≠ .divideError },
    lines.map scheduleLine)

/-- The row of a record, begun before the table of its process is looked up. -/
def syscallRow (c : SyscallImage.ScCtrl) (env : SyscallImage.Env) (e : SyscallImage.SyscallSeq) :
    List Line :=
  if (env.add e).sumCount ≠ 0 ∧ SyscallImage.printed c e = true then
    [.row .syscall (column (c.targetTgid != -1) e.tgid) e.pid]
  else []

/-- A fault in the computation ends the process. -/
def printSyscall (t : Tool) (c : SyscallImage.ScCtrl) (e : SyscallImage.SyscallSeq) :
    Tool × List Line :=
  if c.scFunc then
    let (con, head) := t.console.heading .syscall (c.targetTgid != -1)
    let row := syscallRow c t.scEnv e
    match SyscallImage.printSyscall c t.scEnv e with
    | .ok (env, _) => ({ t with console := con, scEnv := env }, head ++ row)
    | .error _ => ({ t with console := con, running := false }, head ++ row)
  else (t, [])

def printLock (t : Tool) (e : LockImage.LockEvent) : Tool × List Line :=
  let withTgid := e.tgid != -1
  let (con, head) := t.console.heading .lock withTgid
  ({ t with console := con }, head ++ [.row .lock (column withTgid e.tgid) e.pid])

/-- The fields that `print_keytime` reads through a pointer to the other type as well. -/
def recordIds : KeytimeImage.Record → Int × Int
  | .keytime event => (event.pid, event.tgid)
  | .offcpu event => (event.pid, event.tgid)

def printKeytime (t : Tool) (r : KeytimeImage.Record) : Tool × List Line :=
  let (pid, tgid) := recordIds r
  let withTgid := tgid != -1
  let (con, head) := t.console.heading .keytime withTgid
  ({ t with console := con }, head ++ [.row .keytime (column withTgid tgid) pid])

/-- A call of a printer, with the control value, the maps or the record that it finds. -/
inductive Call where
  | resource (c : ResourceImage.RscCtrl) (keys : List (ProcId × UInt64))
      (total : BpfMap ProcId ResourceImage.TotalRsc)
  | schedule (s : ScheduleImage.State) (procKeys : List ProcId) (tgKeys : List Int)
  | syscall (c : SyscallImage.ScCtrl) (e : SyscallImage.SyscallSeq)
  | lock (e : LockImage.LockEvent)
  | keytime (r : KeytimeImage.Record)

def print (t : Tool) : Call → Tool × List Line
  | .resource c keys total => printResource x t c keys total
  | .schedule s procKeys tgKeys => printSchedule t s procKeys tgKeys
  | .syscall c e => printSyscall t c e
  | .lock e => printLock t e
  | .keytime r => printKeytime t r

/-- The records are the lines that are printed. -/
def tool : Machine Tool Call Line where
  init := Tool.initial
  step t call := if t.running then print x t call else (t, [])

end Printers

def Line.heading? : Line → Option (Image × Bool)
  | .header image withTgid => some (image, withTgid)
  | .row _ _ _ => none

/-- The header that a row is meant for. -/
def Line.wants? : Line → Option (Image × Bool)
  | .header _ _ => none
  | .row image tgid _ => some (image, tgid.isSome)

/-- The rows come under their headers, and the variables know the latest one. -/
structure Shows (lines : List Line) (con : Console) : Prop where
  headed : Headed Line.heading? Line.wants? lines
  last : ∀ image, con.prevImage = code image →
    ∃ b, latest Line.heading? lines = some (image, b) ∧ con.prevTgid image = curTgid b

theorem code_injective : Function.Injective code := by
  intro i j h
  cases i <;> cases j <;> first | rfl | cases h

theorem curTgid_injective : Function.Injective curTgid := by
  intro b b' h
  cases b <;> cases b' <;> first | rfl | cases h

theorem column_isSome (withTgid : Bool) (tgid : Int) :
    (column withTgid tgid).isSome = withTgid := by
  cases withTgid <;> rfl

section Preservation

variable {lines : List Line} {con : Console} {image : Image} {withTgid : Bool}

/-- Rows of the image that the header is for. -/
def RowsOf (image : Image) (withTgid : Bool) (rows : List Line) : Prop :=
  ∀ r ∈ rows, r.heading? = none ∧ r.wants? = some (image, withTgid)

theorem rowsOf_nil : RowsOf image withTgid [] := nofun

theorem RowsOf.cons {row : Line} {rows : List Line} (hrow : RowsOf image withTgid [row])
    (hrows : RowsOf image withTgid rows) : RowsOf image withTgid (row :: rows) := by
  intro r hr
  rcases List.mem_cons.mp hr with rfl | hr
  · exact hrow r (List.mem_singleton_self r)
  · exact hrows r hr

theorem rowsOf_singleton (tgid pid : Int) :
    RowsOf image withTgid [.row image (column withTgid tgid) pid] := by
  intro r hr
  rw [List.mem_singleton.mp hr]
  refine ⟨rfl, ?_⟩
  rw [Line.wants?, column_isSome]

/-- The header of the image is the latest one, before or because of this call. -/
theorem Shows.heading (h : Shows lines con) (image : Image) (withTgid : Bool) :
    Shows (lines ++ (con.heading image withTgid).2) (con.heading image withTgid).1 ∧
      latest Line.heading? (lines ++ (con.heading image withTgid).2) = some (image, withTgid) ∧
      (con.heading image withTgid).1.prevImage = code image ∧
      (con.heading image withTgid).1.prevTgid image = curTgid withTgid := by
  unfold Console.heading
  split_ifs with hnew
  · have hlatest : latest Line.heading? (lines ++ [Line.header image withTgid]) =
        some (image, withTgid) := latest_snoc_some lines rfl
    refine ⟨⟨h.headed.snoc_heading rfl, fun image' himage => ?_⟩, hlatest, rfl, ?_⟩
    · cases code_injective himage
      exact ⟨withTgid, hlatest, Function.update_self _ _ _⟩
    · exact Function.update_self _ _ _
  · -- the variables stand for the latest header, which is the one that would be printed
    simp only [not_or, not_not] at hnew
    obtain ⟨himage, htgid⟩ := hnew
    obtain ⟨b, hb, hcur⟩ := h.last image himage
    rw [htgid] at hcur
    cases curTgid_injective hcur
    rw [List.append_nil]
    exact ⟨h, hb, himage, htgid⟩

/-- A header if need be, and rows under it. -/
theorem Shows.table (h : Shows lines con) {rows : List Line} (hrows : RowsOf image withTgid rows) :
    Shows (lines ++ ((con.heading image withTgid).2 ++ rows)) (con.heading image withTgid).1 := by
  obtain ⟨hshows, hlatest, himage, htgid⟩ := h.heading image withTgid
  obtain ⟨hheaded, hlatest'⟩ := hshows.headed.append_rows hlatest hrows
  rw [← List.append_assoc]
  refine ⟨hheaded, fun image' h' => ?_⟩
  rw [himage] at h'
  cases code_injective h'
  exact ⟨withTgid, hlatest', htgid⟩

end Preservation

section Calls

variable {x : ResourceImage.Setup} {lines : List Line} {t : Tool}

theorem resourceLoop_shows (c : ResourceImage.RscCtrl)
    (total : BpfMap ProcId ResourceImage.TotalRsc) (keys : List (ProcId × UInt64))
    {lines : List Line} {con : Console} (h : Shows lines con) :
    Shows (lines ++ (resourceLoop x c total keys con).2) (resourceLoop x c total keys con).1 := by
  induction keys generalizing lines con with
  | nil =>
    simp only [resourceLoop, List.append_nil]
    exact h
  | cons key keys ih =>
    obtain ⟨nextKey, interval⟩ := key
    simp only [resourceLoop]
    cases total.lookup nextKey with
    | none =>
      have hnone : RowsOf .resource (c.targetTgid != -1) [] := rowsOf_nil
      have hhead := h.table hnone
      rw [List.append_nil] at hhead
      exact hhead
    | some event =>
      have hrow : RowsOf .resource (c.targetTgid != -1)
          (if ResourceImage.shown x interval event then
            [Line.row .resource (column (c.targetTgid != -1) event.tgid) event.pid] else []) := by
        split
        · exact rowsOf_singleton _ _
        · exact rowsOf_nil
      -- the rows of the later elements come after this one, under the same header
      have hrest := ih (h.table hrow)
      rw [List.append_assoc] at hrest
      exact hrest

theorem printResource_shows (h : Shows lines t.console) (c : ResourceImage.RscCtrl)
    (keys : List (ProcId × UInt64)) (total : BpfMap ProcId ResourceImage.TotalRsc) :
    Shows (lines ++ (printResource x t c keys total).2)
      (printResource x t c keys total).1.console := by
  unfold printResource
  split
  · split
    · rw [List.append_nil]
      exact h
    · exact resourceLoop_shows c total keys h
  · rw [List.append_nil]
    exact h

theorem rowsOf_row {withTgid : Bool} {procEvent : ScheduleImage.ScheduleEvent}
    {sysEvent : ScheduleImage.SumSchedule} {r : ScheduleImage.Row}
    (h : ScheduleImage.row withTgid procEvent sysEvent = some r) :
    RowsOf .schedule withTgid [scheduleLine (.row r)] := by
  unfold ScheduleImage.row at h
  split at h
  · cases h
    exact rowsOf_singleton procEvent.tgid procEvent.pid
  · cases h

theorem rowsOf_rows {κ : Type*} [DecidableEq κ] (m : BpfMap κ ScheduleImage.ScheduleEvent)
    (sysEvent : ScheduleImage.SumSchedule) (withTgid : Bool) (keys : List κ) :
    RowsOf .schedule withTgid
      ((ScheduleImage.rows m sysEvent withTgid keys).1.map scheduleLine) := by
  induction keys with
  | nil => exact rowsOf_nil
  | cons nextKey keys ih =>
    cases hlookup : m.lookup nextKey with
    | none =>
      simp only [ScheduleImage.rows, hlookup]
      exact rowsOf_nil
    | some procEvent =>
      cases hrow : ScheduleImage.row withTgid procEvent sysEvent with
      | none =>
        simp only [ScheduleImage.rows, hlookup, hrow]
        exact rowsOf_nil
      | some r =>
        simp only [ScheduleImage.rows, hlookup, hrow]
        exact (rowsOf_row hrow).cons ih

theorem rowsOf_targetRow (procEvent : ScheduleImage.ScheduleEvent)
    (sysEvent : ScheduleImage.SumSchedule) :
    RowsOf .schedule false
      ((ScheduleImage.targetRow procEvent sysEvent).1.map scheduleLine) := by
  by_cases hcount : procEvent.count ≠ 0
  · cases hrow : ScheduleImage.row false procEvent sysEvent with
    | none =>
      simp only [ScheduleImage.targetRow, if_pos hcount, hrow]
      exact rowsOf_nil
    | some r =>
      simp only [ScheduleImage.targetRow, if_pos hcount, hrow]
      exact rowsOf_row hrow
  · simp only [ScheduleImage.targetRow, if_neg hcount]
    exact rowsOf_nil

/-- The rows of the schedule image show the group exactly when one is targeted. -/
theorem rowsOf_body (s : ScheduleImage.State) (procKeys : List ProcId) (tgKeys : List Int) :
    RowsOf .schedule (s.schedCtrlMap.targetTgid ≠ -1)
      ((ScheduleImage.body s procKeys tgKeys).1.map scheduleLine) := by
  simp only [ScheduleImage.body]
  split_ifs with hall htarget hgroup
  · simp only [hall.2, ne_eq, not_true_eq_false, decide_false]
    exact rowsOf_rows s.procSchedule s.sysSchedule false procKeys
  · simp only [htarget.2, ne_eq, not_true_eq_false, decide_false]
    exact rowsOf_targetRow s.targetSchedule s.sysSchedule
  · simp only [hgroup.2, ne_eq, not_false_eq_true, decide_true]
    exact rowsOf_rows s.tgSchedule s.sysSchedule true tgKeys
  · exact rowsOf_nil

/-- The header of the schedule image is printed as those of the other images are. -/
theorem header_heading (con : Console) (c : ScheduleImage.SchedCtrl) :
    (ScheduleImage.header c ⟨con.prevImage, con.prevTgid .schedule⟩).map scheduleLine =
      (con.heading .schedule (c.targetTgid ≠ -1)).2 ∧
    (con.heading .schedule (c.targetTgid ≠ -1)).1 =
      { prevImage := ScheduleImage.scheduleImage
        prevTgid := Function.update con.prevTgid .schedule (ScheduleImage.schedCurTgid c) } := by
  have hcur : curTgid (c.targetTgid ≠ -1) = ScheduleImage.schedCurTgid c := by
    simp only [curTgid, ScheduleImage.schedCurTgid, decide_eq_true_eq]
  have hheading : con.heading .schedule (c.targetTgid ≠ -1) =
      if con.prevImage ≠ ScheduleImage.scheduleImage ∨
          con.prevTgid .schedule ≠ ScheduleImage.schedCurTgid c then
        (⟨ScheduleImage.scheduleImage,
          Function.update con.prevTgid .schedule (ScheduleImage.schedCurTgid c)⟩,
          [.header .schedule (c.targetTgid ≠ -1)])
      else (con, []) := by
    rw [← hcur]
    rfl
  rw [hheading]
  unfold ScheduleImage.header
  split_ifs with hnew
  · exact ⟨rfl, rfl⟩
  · simp only [not_or, not_not] at hnew
    obtain ⟨himage, htgid⟩ := hnew
    refine ⟨rfl, ?_⟩
    rw [← htgid, Function.update_eq_self, ← himage]

theorem printSchedule_shows (h : Shows lines t.console) (s : ScheduleImage.State)
    (procKeys : List ProcId) (tgKeys : List Int) :
    Shows (lines ++ (printSchedule t s procKeys tgKeys).2)
      (printSchedule t s procKeys tgKeys).1.console := by
  obtain ⟨hlines, hcon⟩ := header_heading t.console s.schedCtrlMap
  simp only [printSchedule, ScheduleImage.printSchedule]
  split
  · rw [List.map_append, hlines]
    simp only [← hcon]
    exact h.table (rowsOf_body s procKeys tgKeys)
  · -- a call that is switched off writes the variables back as they were
    simp only [List.map_nil, List.append_nil, Function.update_eq_self]
    exact h

/-- Without a fault, the row is the one that goes with the table. -/
theorem syscallRow_eq {c : SyscallImage.ScCtrl} {env env' : SyscallImage.Env}
    {e : SyscallImage.SyscallSeq} {r : Option SyscallImage.Row} (hon : c.scFunc = true)
    (h : SyscallImage.printSyscall c env e = .ok (env', r)) :
    syscallRow c env e = (r.map fun r => Line.row .syscall r.tgid r.pid).toList := by
  unfold SyscallImage.printSyscall at h
  rw [if_pos hon] at h
  obtain ⟨avg, havg, h⟩ := bind_eq_ok.mp h
  have hcount : (env.add e).sumCount ≠ 0 := by
    intro h0
    rw [SyscallImage.divide, if_pos h0] at havg
    cases havg
  unfold syscallRow
  by_cases hp : SyscallImage.printed c e = true
  · rw [if_pos ⟨hcount, hp⟩]
    rw [if_pos hp] at h
    obtain ⟨info, -, h⟩ := bind_eq_ok.mp h
    obtain ⟨first, -, h⟩ := bind_eq_ok.mp h
    obtain ⟨second, -, h⟩ := bind_eq_ok.mp h
    obtain ⟨third, -, h⟩ := bind_eq_ok.mp h
    obtain ⟨procAvg, -, h⟩ := bind_eq_ok.mp h
    obtain ⟨ids, -, h⟩ := bind_eq_ok.mp h
    cases h
    rfl
  · rw [if_neg fun h' => hp h'.2]
    rw [if_neg hp] at h
    cases h
    rfl

theorem printSyscall_shows (h : Shows lines t.console) (c : SyscallImage.ScCtrl)
    (e : SyscallImage.SyscallSeq) :
    Shows (lines ++ (printSyscall t c e).2) (printSyscall t c e).1.console := by
  have hrow : RowsOf .syscall (c.targetTgid != -1) (syscallRow c t.scEnv e) := by
    unfold syscallRow
    split
    · exact rowsOf_singleton _ _
    · exact rowsOf_nil
  unfold printSyscall
  split
  · cases SyscallImage.printSyscall c t.scEnv e <;> exact h.table hrow
  · rw [List.append_nil]
    exact h

theorem print_shows (h : Shows lines t.console) (call : Call) :
    Shows (lines ++ (print x t call).2) (print x t call).1.console := by
  cases call with
  | resource c keys total => exact printResource_shows h c keys total
  | schedule s procKeys tgKeys => exact printSchedule_shows h s procKeys tgKeys
  | syscall c e => exact printSyscall_shows h c e
  | lock e => exact h.table (rowsOf_singleton e.tgid e.pid)
  | keytime r => exact h.table (rowsOf_singleton (recordIds r).2 (recordIds r).1)

end Calls

theorem shows_initial : Shows [] Tool.initial.console where
  headed := headed_nil
  last image h := by cases image <;> cases h

/-- Over all calls, every row comes under a header of its image with its columns. -/
theorem headers_fit (x : ResourceImage.Setup) (tr : List Call) :
    Headed Line.heading? Line.wants? ((tool x).emitted tr) := by
  have hshows : Shows ((tool x).emitted tr) ((tool x).exec tr).console := by
    induction tr using List.reverseRecOn with
    | nil => exact shows_initial
    | append_singleton pre call ih =>
      rw [Machine.emitted_snoc, Machine.exec_snoc]
      change Shows (_ ++ ((tool x).step ((tool x).exec pre) call).2) _
      simp only [tool]
      split
      · exact print_shows ih call
      · rw [List.append_nil]
        exact ih
  exact hshows.headed

end CpuSubsystem.Headers
