import CpuSubsystem.CpuWatcher.Comm
import CpuSubsystem.Lib.BpfMap
import CpuSubsystem.Lib.Machine
import CpuSubsystem.ProcImage.KeytimeTool.Quoting
import Mathlib.Data.Rat.Defs

/-!
# The tool `keytime_image` (`tools/keytime_image.bpf.c`, `tools/keytime_image.c`)

The entry of an exec is kept under the pid of the target until the exec returns, and is sent a second
time then.  A record is cut behind its arguments.
-/

namespace CpuSubsystem.KeytimeTool

open KeytimeImage (UserMemory argsize totalMaxArgs overwrite)

/-- `DEFAULT_MAXARGS`, which neither the options nor user space change. -/
abbrev defaultMaxargs : Nat := 20

/-- `LAST_ARG`. -/
abbrev lastArg : Nat := fullMaxArgsArr - argsize

/-- `BASE_EVENT_SIZE`. -/
abbrev baseEventSize : Nat := 116

/-- `sizeof(struct event)`. -/
abbrev sizeofEvent : Nat := 7800

structure Rodata where
  targetPid : Int
  enableExecve : Bool
  enableExit : Bool
deriving DecidableEq, Repr

/-- What the probes read of the task: `ppid` is the pid of its parent. -/
structure Task where
  pid : Int
  ppid : Int
  comm : Comm
deriving DecidableEq

/-- `struct event`. -/
structure Sample extends Event where
  flag : Int
  pid : Int
  ppid : Int
  comm : Comm
  start : UInt64
  exit : UInt64
  retval : Int
  enableCharArgs : Bool
  ctxArgs : Vector UInt64 6
deriving DecidableEq

def emptyEvent : Sample where
  argsCount := 0
  argsSize := 0
  args := Vector.replicate fullMaxArgsArr 0
  flag := 0
  pid := 0
  ppid := 0
  comm := Comm.none
  start := 0
  exit := 0
  retval := 0
  enableCharArgs := false
  ctxArgs := Vector.replicate 6 0

structure State where
  keytime : BpfMap Int Sample

def initial : State := ⟨BpfMap.empty⟩

/-! ## Kernel side -/

/-- `bpf_probe_read_user_str` with size `ARGSIZE`: the value returned, and the buffer, which is
cleared when the string cannot be read. -/
def readUserStr (user : UserMemory) (buf : Vector UInt8 fullMaxArgsArr) (off : Nat)
    (addr : UInt64) : Int × Vector UInt8 fullMaxArgsArr :=
  match user.str addr with
  | none => (-14, overwrite buf off (List.replicate argsize 0))
  | some bytes =>
    let copied := bytes.take (argsize - 1) ++ [0]
    (copied.length, overwrite buf off copied)

/-- One iteration of the loop over the arguments; an error sends the event as it is. -/
def readArg (user : UserMemory) (args : UInt64) (event : Sample) (i : Nat) :
    Except Sample Sample :=
  match user.word (args + 8 * UInt64.ofNat i) with
  | none => .error event
  | some argp =>
    if event.argsSize > lastArg then .error event
    else
      let (ret, buf) := readUserStr user event.args event.argsSize argp
      if ret < 0 then .error { event with args := buf }
      else
        .ok { event with
          args := buf
          argsCount := event.argsCount + 1
          argsSize := event.argsSize + ret.toNat }

/-- `for (i = 1; i < TOTAL_MAX_ARGS && i < max_args; i++)`, and one read more to see whether there
are further arguments. -/
def readArgs (user : UserMemory) (args : UInt64) (event : Sample) : Sample :=
  match (List.range' 1 (min totalMaxArgs defaultMaxargs - 1)).foldlM (readArg user args) event with
  | .error event => event
  | .ok event =>
    match user.word (args + 8 * UInt64.ofNat defaultMaxargs) with
    | none => event
    | some _ => { event with argsCount := event.argsCount + 1 }

/-- The file name, then the arguments. -/
def readStrings (user : UserMemory) (filename args : UInt64) (event : Sample) : Sample :=
  let (ret, buf) := readUserStr user event.args 0 filename
  if ret < 0 then { event with args := buf }
  else
    let event :=
      if ret ≤ argsize then { event with args := buf, argsSize := event.argsSize + ret.toNat }
      else { event with args := buf.set 0 0, argsSize := event.argsSize + 1 }
    readArgs user args { event with argsCount := event.argsCount + 1 }

/-- `bpf_perf_event_output` with the length `EVENT_SIZE(event)`; it can fail. -/
def output (event : Sample) (sent : Bool) : List Sample :=
  if baseEventSize + event.argsSize ≤ sizeofEvent then if sent then [event] else [] else []

section Probes

variable (ro : Rodata) (s : State) (cur : Task) (now : UInt64) (room sent : Bool)

/-- `bpf_map_update_elem` with `BPF_NOEXIST` returns 0. -/
def State.admits (s : State) (pid : Int) (room : Bool) : Bool :=
  (s.keytime.lookup pid).isNone && room

/-- The fields that `record_exitsys` sets. -/
def exitEvent (arg : UInt64) : Sample :=
  { emptyEvent with
    flag := 3
    pid := cur.pid
    ppid := cur.ppid
    comm := cur.comm
    start := now
    enableCharArgs := false
    argsCount := 1
    ctxArgs := emptyEvent.ctxArgs.set 0 arg (Nat.zero_lt_succ 5) }

def recordExitsys (arg : UInt64) : State × List Sample :=
  if ro.enableExit then
    if cur.pid = ro.targetPid then
      if s.admits cur.pid room then
        let event := exitEvent cur now arg
        ({ s with keytime := (s.keytime.store cur.pid event).delete cur.pid }, output event sent)
      else (s, [])
    else (s, [])
  else (s, [])

/-- The fields that the entry of an exec sets before the strings are read. -/
def entryEvent : Sample :=
  { emptyEvent with
    flag := 1
    pid := cur.pid
    ppid := cur.ppid
    comm := cur.comm
    start := now
    exit := 0
    argsCount := 0
    argsSize := 0
    enableCharArgs := true }

def sysEnterExecve (filename args : UInt64) (user : UserMemory) : State × List Sample :=
  if ro.enableExecve then
    if cur.pid = ro.targetPid then
      if s.admits cur.pid room then
        let event := readStrings user filename args (entryEvent cur now)
        ({ s with keytime := s.keytime.store cur.pid event }, output event sent)
      else (s, [])
    else (s, [])
  else (s, [])

/-- The fields that the return of an exec sets when its entry was missed. -/
def missEvent (ret : Int) : Sample :=
  { emptyEvent with
    flag := 2
    pid := cur.pid
    ppid := cur.ppid
    comm := cur.comm
    exit := now
    retval := ret }

/-- The element is deleted in every case in which the insertion does not fail. -/
def sysExitExecve (ret : Int) : State × List Sample :=
  if ro.enableExecve then
    if cur.pid = ro.targetPid then
      if ret < 0 then ({ s with keytime := s.keytime.delete cur.pid }, [])
      else
        match s.keytime.lookup cur.pid with
        | none =>
          if s.admits cur.pid room then
            let event := missEvent cur now ret
            ({ s with keytime := (s.keytime.store cur.pid event).delete cur.pid },
              output event sent)
          else (s, [])
        | some event =>
          let event := { event with flag := 2, exit := now, retval := ret }
          ({ s with keytime := (s.keytime.store cur.pid event).delete cur.pid }, output event sent)
    else (s, [])
  else (s, [])

end Probes

inductive Act where
  | sysEnterExecve (cur : Task) (now : UInt64) (room sent : Bool) (filename args : UInt64)
      (user : UserMemory)
  | sysExitExecve (cur : Task) (now : UInt64) (room sent : Bool) (ret : Int)
  | sysEnterExitGroup (cur : Task) (now : UInt64) (room sent : Bool) (arg : UInt64)
  | sysEnterExit (cur : Task) (now : UInt64) (room sent : Bool) (arg : UInt64)

/-- When the probe runs. -/
def Act.now : Act → UInt64
  | .sysEnterExecve _ now .. | .sysExitExecve _ now .. | .sysEnterExitGroup _ now ..
  | .sysEnterExit _ now .. => now

def step (ro : Rodata) (s : State) : Act → State × List Sample
  | .sysEnterExecve cur now room sent filename args user =>
    sysEnterExecve ro s cur now room sent filename args user
  | .sysExitExecve cur now room sent ret => sysExitExecve ro s cur now room sent ret
  | .sysEnterExitGroup cur now room sent arg => recordExitsys ro s cur now room sent arg
  | .sysEnterExit cur now room sent arg => recordExitsys ro s cur now room sent arg

def machine (ro : Rodata) : Machine State Act Sample := ⟨initial, step ro⟩

/-! ## User side -/

/-- What is printed in the second column. -/
inductive Syscall where
  | execveEnter | execveExit | exit | unknown
deriving DecidableEq, Repr

/-- The last column: bytes, or numbers each between quotes or not. -/
inductive Text where
  | chars (bytes : List UInt8)
  | numbers (quoted : Bool) (values : List Int)
deriving DecidableEq

/-- A line of the table; times are in nanoseconds, `time` is in microseconds, and a rational number
stands for the `double` of the source. -/
inductive Line where
  | timed (exit : UInt64) (c : Syscall) (comm : Comm) (pid ppid : Int) (time : ℚ) (retval : Int)
      (text : Text)
  | miss (exit : UInt64) (c : Syscall) (comm : Comm) (pid ppid : Int) (retval : Int)
  | pad (start : UInt64) (c : Syscall) (comm : Comm) (pid ppid : Int) (text : Text)
deriving DecidableEq

def syscallOf (flag : Int) : Syscall :=
  if flag = 1 then .execveEnter
  else if flag = 2 then .execveExit
  else if flag = 3 then .exit
  else .unknown

/-- The loop over `ctx_args`; `none` when it reads outside of the array. -/
def ctxNumbers (e : Sample) : Option (List Int) :=
  (List.range e.argsCount.toNat).mapM fun i => e.ctxArgs[i]?.map fun w => w.toInt64.toInt

def printText (env : Env) (e : Sample) : Option Text :=
  if e.enableCharArgs then
    -- the record ends behind the last byte that `args_size` counts
    if e.argsSize ≤ fullMaxArgsArr then some (.chars (printArgs env e.toEvent)) else none
  else (ctxNumbers e).map (.numbers env.quote)

def handleEvent (env : Env) (e : Sample) : Option Line :=
  let c := syscallOf e.flag
  if e.start ≠ 0 ∧ e.exit ≠ 0 then
    (printText env e).map
      (.timed e.exit c e.comm e.pid e.ppid ((e.exit - e.start).toNat * 1 / 1000) e.retval)
  else if e.start = 0 ∧ e.exit ≠ 0 then some (.miss e.exit c e.comm e.pid e.ppid e.retval)
  else (printText env e).map (.pad e.start c e.comm e.pid e.ppid)

/-- `env` after the options, of which only `-q` sets one of these fields. -/
def envOf (quote : Bool) : Env := ⟨quote, defaultMaxargs⟩

end CpuSubsystem.KeytimeTool
