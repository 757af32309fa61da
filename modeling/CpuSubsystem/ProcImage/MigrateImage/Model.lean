import CpuSubsystem.Lib.BpfMap
import CpuSubsystem.Lib.CInt
import CpuSubsystem.Lib.Machine
import Mathlib.Data.UInt

/-!
# The tool `migrate_image` (`tools/migrate_image.bpf.c`, `tools/migrate_image.c`)

The kernel side numbers the migrations of each task and stores each under the task and its number.
The user side prints and deletes those from `rear` to `count` and then moves `rear` on.
-/

namespace CpuSubsystem.MigrateImage

/-- `MAX_MIGRATE`. -/
abbrev maxMigrate : Int := 1024

/-- `struct minfo_key`. -/
structure MinfoKey where
  pid : Int
  count : Int
deriving DecidableEq, Repr

/-- `struct per_migrate`, less the fields that are neither assigned nor printed. -/
structure PerMigrate where
  time : UInt64
  origCpu : Nat
  destCpu : Nat
  cpuCapacity : Int
  cpuCapacityOrig : Int
  cpuLoadAvg : UInt64
  ploadAvg : UInt64
  putilAvg : UInt64
  memUsage : UInt64
  readBytes : UInt64
  writeBytes : UInt64
  contextSwitches : UInt64
deriving DecidableEq, Repr

/-- `struct migrate_event`. -/
structure MigrateEvent where
  erro : Int
  pid : Int
  prio : Int
  count : Int
  rear : Int
deriving DecidableEq, Repr

/-- The arguments of the tracepoint. -/
structure Args where
  pid : Int
  prio : Int
  origCpu : Int
  destCpu : Int
deriving DecidableEq, Repr

/-- What the handler reads of the current task and its run queue. -/
structure Current where
  cpuCapacity : UInt64
  cpuCapacityOrig : UInt64
  runnableAvg : UInt64
  loadAvg : UInt64
  utilAvg : UInt64
  totalVm : UInt64
  readBytes : UInt64
  writeBytes : UInt64
  nvcsw : UInt64
  nivcsw : UInt64
deriving DecidableEq, Repr

/-- Whether the maps have room for a new key. -/
structure Rooms where
  migrate : Bool
  migrateInfo : Bool
deriving DecidableEq, Repr

structure State where
  migrate : BpfMap Int MigrateEvent
  migrateInfo : BpfMap MinfoKey PerMigrate

def initial : State := ⟨BpfMap.empty, BpfMap.empty⟩

/-! ## Kernel side -/

def perMigrate (args : Args) (cur : Current) (time : UInt64) : PerMigrate where
  time := time
  origCpu := toUnsigned args.origCpu
  destCpu := toUnsigned args.destCpu
  cpuCapacity := toInt cur.cpuCapacity.toNat
  cpuCapacityOrig := toInt cur.cpuCapacityOrig.toNat
  cpuLoadAvg := cur.runnableAvg
  ploadAvg := cur.loadAvg
  putilAvg := cur.utilAvg
  -- `PAGE_SHIFT` is 13 here
  memUsage := cur.totalVm <<< 13
  readBytes := cur.readBytes
  writeBytes := cur.writeBytes
  contextSwitches := cur.nvcsw + cur.nivcsw

/-- `tracepoint_sched_migrate_task`. -/
def schedMigrateTask (s : State) (args : Args) (cur : Current) (time : UInt64) (rooms : Rooms) :
    State :=
  match s.migrate.lookup args.pid with
  | none =>
    { s with
      migrateInfo :=
        s.migrateInfo.update rooms.migrateInfo ⟨args.pid, 1⟩ (perMigrate args cur time)
      migrate := s.migrate.update rooms.migrate args.pid ⟨0, args.pid, args.prio, 1, 1⟩ }
  | some e =>
    if 0 < e.count ∧ e.count < maxMigrate then
      { s with
        migrate := s.migrate.store args.pid { e with count := e.count + 1 }
        migrateInfo := s.migrateInfo.update rooms.migrateInfo ⟨args.pid, e.count + 1⟩
          (perMigrate args cur time) }
    -- at the cap the migration is neither counted nor stored
    else s

/-- The key that a migration gets. -/
def assigned (s : State) (args : Args) : Option MinfoKey :=
  match s.migrate.lookup args.pid with
  | none => some ⟨args.pid, 1⟩
  | some e =>
    if 0 < e.count ∧ e.count < maxMigrate then some ⟨args.pid, e.count + 1⟩ else none

/-! ## User side -/

/-- A line about one migration.  The delay is the time since the migration in the line before, in
microseconds; there is none in the first line. -/
structure Row where
  timeStamp : UInt64
  origCpu : Int
  destCpu : Int
  procLoad : UInt64
  procUtil : UInt64
  cpuLoad : UInt64
  cpuCapacity : Int
  cpuCapacityOrig : Int
  memUsage : UInt64
  read : UInt64
  write : UInt64
  contextSwitch : UInt64
  delay : Option Int
deriving DecidableEq, Repr

def PerMigrate.row (info : PerMigrate) (delay : Option Int) : Row where
  timeStamp := info.time
  origCpu := toInt info.origCpu
  destCpu := toInt info.destCpu
  procLoad := info.ploadAvg
  procUtil := info.putilAvg
  cpuLoad := info.cpuLoadAvg
  cpuCapacity := info.cpuCapacity
  cpuCapacityOrig := info.cpuCapacityOrig
  memUsage := info.memUsage / 1024
  read := info.readBytes / 1024
  write := info.writeBytes / 1024
  contextSwitch := info.contextSwitches
  delay := delay

/-- `if(i == rear && last_time_stamp == 0)`, the delay is not known. -/
def delayOf (e : MigrateEvent) (i : Int) (last : UInt64) (info : PerMigrate) : Option Int :=
  if i = e.rear ∧ last = 0 then none else some (toInt ((info.time - last) / 1000).toNat)

/-- What the tool writes; a row belongs to the key whose element it shows. -/
inductive Line where
  | header (pid prio count rear : Int)
  | row (mkey : MinfoKey) (r : Row)
  -- `failed to lookup infos2`, after which the call returns -1
  | failed
  -- `failed to lookup infos err`
  | missing (mkey : MinfoKey)
deriving DecidableEq, Repr

/-- The loop `for(i = rear; i <= count; i++)`, with `n` iterations to go. -/
def printInfos (e : MigrateEvent) : Nat → Int → UInt64 → State → State × List Line
  | 0, _, _, s => (s, [])
  | n + 1, i, last, s =>
    let mkey : MinfoKey := ⟨e.pid, i⟩
    match s.migrateInfo.lookup mkey with
    | none =>
      let (s', out) := printInfos e n (i + 1) last s
      (s', .missing mkey :: out)
    | some info =>
      let (s', out) :=
        printInfos e n (i + 1) info.time { s with migrateInfo := s.migrateInfo.delete mkey }
      (s', .row mkey (info.row (delayOf e i last info)) :: out)

/-- The number of iterations of the loop. -/
def MigrateEvent.unprinted (e : MigrateEvent) : Nat := (e.count + 1 - e.rear).toNat

/-- The part of the outer loop after the check of `count`. -/
def printPid (s : State) (nextKey : Int) (e : MigrateEvent) (room : Bool) : State × List Line :=
  let (s', out) := printInfos e e.unprinted e.rear 0 s
  ({ s' with migrate := s'.migrate.update room nextKey { e with rear := e.count + 1 } },
    .header e.pid e.prio e.count e.rear :: out)

/-- `migrate_print`, when `bpf_map_get_next_key` returns the keys in turn. -/
def migratePrint (room : Bool) : List Int → State → State × List Line
  | [], s => (s, [])
  | nextKey :: keys, s =>
    match s.migrate.lookup nextKey with
    | none => (s, [.failed])
    | some e =>
      -- for a new record, `count = rear` means one migration, which stays where it is
      if e.count ≤ e.rear then migratePrint room keys s
      else
        let (s', out) := printPid s nextKey e room
        let (s'', out') := migratePrint room keys s'
        (s'', out ++ out')

/-- A task migrates, or the tool calls `migrate_print`, which is not interrupted. -/
inductive Event where
  | schedMigrateTask (args : Args) (cur : Current) (time : UInt64) (rooms : Rooms)
  | migratePrint (keys : List Int) (room : Bool)
deriving DecidableEq

def step (s : State) : Event → State × List Line
  | .schedMigrateTask args cur time rooms => (schedMigrateTask s args cur time rooms, [])
  | .migratePrint keys room => migratePrint room keys s

def machine : Machine State Event Line := ⟨initial, step⟩

/-! ## The user side, one map operation at a time -/

/-- Where `migrate_print` stands: between two calls, at `bpf_map_get_next_key`, at the lookup of a
record, at the lookup of the migration `i` of the record `e`, or at its deletion. -/
inductive Phase where
  | idle
  | reading (lookupKey : Int)
  | looking (nextKey : Int)
  | printing (nextKey : Int) (e : MigrateEvent) (i : Int) (last : UInt64)
  | deleting (nextKey : Int) (e : MigrateEvent) (i : Int) (last : UInt64)
deriving DecidableEq, Repr

structure Reader where
  maps : State
  phase : Phase

/-- The handler runs, or `migrate_print` is called or makes its next operation; `next` is what
`bpf_map_get_next_key` returns if that is the operation. -/
inductive Tick where
  | schedMigrateTask (args : Args) (cur : Current) (time : UInt64) (rooms : Rooms)
  | resume (next : Option Int) (room : Bool)
deriving DecidableEq

def resume (r : Reader) (next : Option Int) (room : Bool) : Reader × List Line :=
  match r.phase with
  | .idle => ({ r with phase := .reading (-1) }, [])
  | .reading _ =>
    match next with
    | none => ({ r with phase := .idle }, [])
    | some nextKey => ({ r with phase := .looking nextKey }, [])
  | .looking nextKey =>
    match r.maps.migrate.lookup nextKey with
    | none => ({ r with phase := .idle }, [.failed])
    | some e =>
      if e.count ≤ e.rear then ({ r with phase := .reading nextKey }, [])
      else
        ({ r with phase := .printing nextKey e e.rear 0 },
          [.header e.pid e.prio e.count e.rear])
  | .printing nextKey e i last =>
    if i ≤ e.count then
      match r.maps.migrateInfo.lookup ⟨e.pid, i⟩ with
      | none => ({ r with phase := .printing nextKey e (i + 1) last }, [.missing ⟨e.pid, i⟩])
      | some info =>
        ({ r with phase := .deleting nextKey e i info.time },
          [.row ⟨e.pid, i⟩ (info.row (delayOf e i last info))])
    else
      -- the copy of the record goes back with another `rear`
      ({ maps := { r.maps with
          migrate := r.maps.migrate.update room nextKey { e with rear := e.count + 1 } }
         phase := .reading nextKey }, [])
  | .deleting nextKey e i last =>
    ({ maps := { r.maps with migrateInfo := r.maps.migrateInfo.delete ⟨e.pid, i⟩ }
       phase := .printing nextKey e (i + 1) last }, [])

def tick (r : Reader) : Tick → Reader × List Line
  | .schedMigrateTask args cur time rooms =>
    ({ r with maps := schedMigrateTask r.maps args cur time rooms }, [])
  | .resume next room => resume r next room

def reader : Machine Reader Tick Line := ⟨⟨initial, .idle⟩, tick⟩

section Cases

variable {s : State} {args : Args} {cur : Current} {time : UInt64} {rooms : Rooms}

theorem schedMigrateTask_first (h : s.migrate.lookup args.pid = none) :
    schedMigrateTask s args cur time rooms =
      { s with
        migrateInfo :=
          s.migrateInfo.update rooms.migrateInfo ⟨args.pid, 1⟩ (perMigrate args cur time)
        migrate := s.migrate.update rooms.migrate args.pid ⟨0, args.pid, args.prio, 1, 1⟩ } := by
  rw [schedMigrateTask, h]

theorem schedMigrateTask_next {e : MigrateEvent} (h : s.migrate.lookup args.pid = some e)
    (hc : 0 < e.count ∧ e.count < maxMigrate) :
    schedMigrateTask s args cur time rooms =
      { s with
        migrate := s.migrate.store args.pid { e with count := e.count + 1 }
        migrateInfo := s.migrateInfo.update rooms.migrateInfo ⟨args.pid, e.count + 1⟩
          (perMigrate args cur time) } := by
  simp only [schedMigrateTask, h, if_pos hc]

theorem schedMigrateTask_full {e : MigrateEvent} (h : s.migrate.lookup args.pid = some e)
    (hc : ¬(0 < e.count ∧ e.count < maxMigrate)) :
    schedMigrateTask s args cur time rooms = s := by
  simp only [schedMigrateTask, h, if_neg hc]

theorem assigned_first (h : s.migrate.lookup args.pid = none) :
    assigned s args = some ⟨args.pid, 1⟩ := by
  rw [assigned, h]

theorem assigned_next {e : MigrateEvent} (h : s.migrate.lookup args.pid = some e)
    (hc : 0 < e.count ∧ e.count < maxMigrate) :
    assigned s args = some ⟨args.pid, e.count + 1⟩ := by
  simp only [assigned, h, if_pos hc]

theorem assigned_full {e : MigrateEvent} (h : s.migrate.lookup args.pid = some e)
    (hc : ¬(0 < e.count ∧ e.count < maxMigrate)) : assigned s args = none := by
  simp only [assigned, h, if_neg hc]

theorem assigned_count {e : MigrateEvent} {k : MinfoKey} (h : s.migrate.lookup args.pid = some e)
    (hk : assigned s args = some k) : k.count = e.count + 1 := by
  simp only [assigned, h] at hk
  split at hk
  · cases hk
    rfl
  · cases hk

theorem assigned_pid {k : MinfoKey} (h : assigned s args = some k) : k.pid = args.pid := by
  unfold assigned at h
  split at h
  · cases h
    rfl
  · split at h
    · cases h
      rfl
    · cases h

/-- The handler stores what it reads under the key that it assigns, and nothing else. -/
theorem schedMigrateTask_migrateInfo :
    (schedMigrateTask s args cur time rooms).migrateInfo =
      match assigned s args with
      | none => s.migrateInfo
      | some k => s.migrateInfo.update rooms.migrateInfo k (perMigrate args cur time) := by
  cases h : s.migrate.lookup args.pid with
  | none => rw [schedMigrateTask_first h, assigned_first h]
  | some e =>
    by_cases hc : 0 < e.count ∧ e.count < maxMigrate
    · rw [schedMigrateTask_next h hc, assigned_next h hc]
    · rw [schedMigrateTask_full h hc, assigned_full h hc]

end Cases

end CpuSubsystem.MigrateImage
