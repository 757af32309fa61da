import CpuSubsystem.Lib.BpfMap
import CpuSubsystem.Lib.CInt
import CpuSubsystem.Lib.Machine
import Mathlib.Data.UInt

/-!
# Key-time image, kernel side (`include/keytime_image.h`, `bpf/keytime_image.bpf.c`)

Records of exec, fork, vfork, thread creation, exit and context switches.  `child` remembers for
every recorded child who created it, until the child exits.
-/

namespace CpuSubsystem.KeytimeImage

/-- `ARGSIZE`. -/
abbrev argsize : Nat := 128

/-- `TOTAL_MAX_ARGS`. -/
abbrev totalMaxArgs : Nat := 60

/-- `FULL_MAX_ARGS_ARR`. -/
abbrev fullMaxArgsArr : Nat := 440

/-- `LAST_ARG`. -/
abbrev lastArg : Nat := fullMaxArgsArr - argsize

/-- `struct kt_ctrl`. -/
structure KtCtrl where
  ktFunc : Bool
  ktCpuFunc : Bool
  enableMyproc : Bool
  targetPid : Int
  targetTgid : Int
deriving DecidableEq, Repr

/-- Every task is selected. -/
def KtCtrl.all : KtCtrl where
  ktFunc := true
  ktCpuFunc := true
  enableMyproc := true
  targetPid := -1
  targetTgid := -1

/-- `struct child_info`. -/
structure ChildInfo where
  type : Int
  ppid : Int
  ptgid : Int
deriving DecidableEq, Repr

/-- `struct keytime_event`.  Types 1 and 2 are the entry and the return of an exec, 3 an exit, 4, 6
and 8 the creation of a child by fork, vfork or as a thread, 5, 7 and 9 the exit of that child, 10
a switch onto a CPU. -/
structure KeytimeEvent where
  type : Int
  pid : Int
  tgid : Int
  enableCharInfo : Bool
  infoCount : Int
  info : Vector UInt64 6
  infoSize : Nat
  charInfo : Vector UInt8 fullMaxArgsArr
deriving DecidableEq

def KeytimeEvent.zero : KeytimeEvent where
  type := 0
  pid := 0
  tgid := 0
  enableCharInfo := false
  infoCount := 0
  info := Vector.replicate 6 0
  infoSize := 0
  charInfo := Vector.replicate fullMaxArgsArr 0

/-- `info[0]`: the pid of the child, in the records about children. -/
def KeytimeEvent.info₀ (e : KeytimeEvent) : UInt64 := e.info.get ⟨0, by decide⟩

/-- `struct offcpu_event`, type 11. -/
structure OffcpuEvent where
  type : Int
  pid : Int
  tgid : Int
  offcpuTime : UInt64
  kstackSz : Int
  kstack : Vector UInt64 128
deriving DecidableEq

inductive Record where
  | keytime (event : KeytimeEvent)
  | offcpu (event : OffcpuEvent)
deriving DecidableEq

structure Task where
  pid : Int
  tgid : Int
deriving DecidableEq, Repr

structure Rodata where
  ignoreTgid : Int
  maxArgs : Nat

structure State where
  ktCtrlMap : KtCtrl
  child : BpfMap Int ChildInfo
  pthreadCreateEnable : BpfMap Int Bool

/-- The selection condition, written out in most of the probes. -/
def selected (ro : Rodata) (c : KtCtrl) (cur : Task) : Bool :=
  (c.enableMyproc || cur.tgid != ro.ignoreTgid) &&
    ((c.targetTgid == -1 && c.targetPid == -1) ||
      (c.targetTgid != -1 && cur.tgid == c.targetTgid) ||
      (c.targetPid != -1 && cur.pid == c.targetPid))

/-- `if(target_tgid != -1) e->tgid = tgid; else e->tgid = -1`. -/
def shownTgid (c : KtCtrl) (tgid : Int) : Int := if c.targetTgid != -1 then tgid else -1

/-- The fields that every record except those of exec entries gets. -/
def KeytimeEvent.fill (mem : KeytimeEvent) (type pid tgid : Int) (info : UInt64) : KeytimeEvent :=
  { mem with
    type := type
    pid := pid
    tgid := tgid
    enableCharInfo := false
    infoCount := 1
    info := mem.info.set 0 info }

section Probes

variable (ro : Rodata) (s : State) (cur : Task) (room : Bool) (slot slot' : Option KeytimeEvent)

/-! ## exec -/

/-- What the task can read of its own memory. -/
structure UserMemory where
  word : UInt64 → Option UInt64
  /-- The bytes before the NUL. -/
  str : UInt64 → Option (List UInt8)

def overwrite {n : Nat} (buf : Vector UInt8 n) (off : Nat) (bytes : List UInt8) : Vector UInt8 n :=
  Vector.ofFn fun i => if off ≤ i.val then bytes.getD (i.val - off) buf[i] else buf[i]

/-- `bpf_probe_read_user_str` with size `ARGSIZE`: the value returned, and the buffer, which is
cleared when the string cannot be read. -/
def readUserStr (user : UserMemory) (buf : Vector UInt8 fullMaxArgsArr) (off : Nat)
    (addr : UInt64) : Int × Vector UInt8 fullMaxArgsArr :=
  match user.str addr with
  | none => (-14, overwrite buf off (List.replicate argsize 0))
  | some bytes =>
    let copied := bytes.take (argsize - 1) ++ [0]
    (copied.length, overwrite buf off copied)

/-- One iteration of the loop over the arguments; an error submits the event as it is. -/
def readArg (user : UserMemory) (args : UInt64) (event : KeytimeEvent) (i : Nat) :
    Except KeytimeEvent KeytimeEvent :=
  match user.word (args + 8 * UInt64.ofNat i) with
  | none => .error event
  | some argp =>
    if event.infoSize > lastArg then .error event
    else
      let (ret, buf) := readUserStr user event.charInfo event.infoSize argp
      if ret < 0 then .error { event with charInfo := buf }
      else
        .ok { event with
          charInfo := buf
          infoCount := event.infoCount + 1
          infoSize := event.infoSize + ret.toNat }

/-- `for (i = 1; i < TOTAL_MAX_ARGS && i < max_args; i++)`, and one read more to see whether there
are further arguments. -/
def readArgs (user : UserMemory) (args : UInt64) (event : KeytimeEvent) : KeytimeEvent :=
  match (List.range' 1 (min totalMaxArgs ro.maxArgs - 1)).foldlM (readArg user args) event with
  | .error event => event
  | .ok event =>
    match user.word (args + 8 * UInt64.ofNat ro.maxArgs) with
    | none => event
    | some _ => { event with infoCount := event.infoCount + 1 }

/-- The record of an exec: the file name, then the arguments. -/
def KeytimeEvent.exec (mem : KeytimeEvent) (pid tgid : Int) (user : UserMemory)
    (filename args : UInt64) : KeytimeEvent :=
  let event :=
    { mem with
      type := 1
      pid := pid
      tgid := tgid
      infoCount := 0
      infoSize := 0
      enableCharInfo := true }
  let (ret, buf) := readUserStr user event.charInfo 0 filename
  if ret < 0 then { event with charInfo := buf }
  else
    let event :=
      if ret ≤ argsize then { event with charInfo := buf, infoSize := ret.toNat }
      else { event with charInfo := buf.set 0 0, infoSize := 1 }
    readArgs ro user args { event with infoCount := event.infoCount + 1 }

def sysEnterExecve (filename args : UInt64) (user : UserMemory) : State × List Record :=
  let c := s.ktCtrlMap
  if c.ktFunc && selected ro c cur then
    (s, (slot.map fun mem =>
      .keytime (mem.exec ro cur.pid (shownTgid c cur.tgid) user filename args)).toList)
  else (s, [])

def sysExitExecve (ret : Int) : State × List Record :=
  let c := s.ktCtrlMap
  if c.ktFunc && selected ro c cur then
    (s, (slot.map fun mem =>
      .keytime (mem.fill 2 cur.pid (shownTgid c cur.tgid) (UInt64.ofInt ret))).toList)
  else (s, [])

/-! ## Creation of children -/

/-- The entry is made first, so it stays when the record cannot be reserved. -/
def childCreate (type childPid pid tgid : Int) : State × List Record :=
  let ptgid := shownTgid s.ktCtrlMap tgid
  if s.child.accepts room childPid then
    ({ s with child := s.child.store childPid ⟨type, pid, ptgid⟩ },
      (slot.map fun mem => .keytime (mem.fill type pid ptgid (UInt64.ofInt childPid))).toList)
  else (s, [])

/-- Runs in the parent and, with `ret = 0`, in the child. -/
def forkExit (ret : Int) : State × List Record :=
  let c := s.ktCtrlMap
  if c.ktFunc && (selected ro c cur && ret != 0) then
    childCreate s room slot 4 ret cur.pid cur.tgid
  else (s, [])

/-- The condition of `vfork_exit`, whose last disjunct is outside of the check of `ignore_tgid`. -/
def selectedVfork (ro : Rodata) (c : KtCtrl) (cur parent : Task) : Bool :=
  ((c.enableMyproc || cur.tgid != ro.ignoreTgid) &&
      ((c.targetPid == -1 && c.targetTgid == -1) ||
        (c.targetPid != -1 && parent.pid == c.targetPid))) ||
    (c.targetTgid != -1 && parent.tgid == c.targetTgid)

/-- Runs in whichever task returns from `vfork`, and takes it for the child of its real parent. -/
def vforkExit (parent : Task) : State × List Record :=
  let c := s.ktCtrlMap
  if c.ktFunc && selectedVfork ro c cur parent then
    childCreate s room slot 6 cur.pid parent.pid parent.tgid
  else (s, [])

def pthreadCreateEnter : State :=
  if s.ktCtrlMap.ktFunc && selected ro s.ktCtrlMap cur then
    { s with pthreadCreateEnable := s.pthreadCreateEnable.update room cur.pid true }
  else s

def pthreadCreateExit : State :=
  if s.ktCtrlMap.ktFunc && selected ro s.ktCtrlMap cur then
    { s with pthreadCreateEnable := s.pthreadCreateEnable.delete cur.pid }
  else s

def sysExitClone3 (ret : Int) : State × List Record :=
  let c := s.ktCtrlMap
  if c.ktFunc && selected ro c cur then
    -- only inside of `pthread_create`
    if s.pthreadCreateEnable.lookup cur.pid = some true then
      let newThread := toInt ret
      if newThread ≤ 0 then (s, [])
      else childCreate s room slot 8 newThread cur.pid cur.tgid
    else (s, [])
  else (s, [])

/-! ## Exit -/

/-- The entry is removed only when the record could be reserved. -/
def childExit : State × List Record :=
  match s.child.lookup cur.pid with
  | none => (s, [])
  | some childInfo =>
    match slot with
    | none => (s, [])
    | some mem =>
      ({ s with child := s.child.delete cur.pid },
        [.keytime (mem.fill (childInfo.type + 1) childInfo.ppid childInfo.ptgid
          (UInt64.ofInt cur.pid))])

/-- The body that both exit probes have: a selected task whose exit record cannot be reserved
returns before `child_exit`. -/
def exitProbe (code : UInt64) : State × List Record :=
  let c := s.ktCtrlMap
  if c.ktFunc then
    if selected ro c cur then
      match slot with
      | none => (s, [])
      | some mem =>
        let (s', out) := childExit s cur slot'
        (s', .keytime (mem.fill 3 cur.pid (shownTgid c cur.tgid) code) :: out)
    else childExit s cur slot'
  else (s, [])

def sysEnterExitGroup (code : UInt64) := exitProbe ro s cur slot slot' code

def sysEnterExit (code : UInt64) := exitProbe ro s cur slot slot' code

/-! ## Context switches -/

/-- `bpf_get_stack`: the value returned and what is in the buffer then. -/
structure Kstack where
  sz : Int
  stack : Vector UInt64 128
deriving DecidableEq

/-- Every field of the record of `prev` is assigned, and a failed reservation ends the probe. -/
def schedSwitch (prev next : Task) (off on : UInt64) (kstack : Kstack)
    (reservedOff : Bool) : State × List Record :=
  let c := s.ktCtrlMap
  let onEvent : List Record :=
    if next.pid != 0 && selected ro c next then
      (slot.map fun mem => .keytime (mem.fill 10 next.pid (shownTgid c next.tgid) on)).toList
    else []
  if c.ktCpuFunc then
    if prev.pid != 0 && selected ro c prev then
      if reservedOff then
        (s, .offcpu ⟨11, prev.pid, shownTgid c prev.tgid, off, kstack.sz, kstack.stack⟩ :: onEvent)
      else (s, [])
    else (s, onEvent)
  else (s, [])

end Probes

/-- The controller writes `kt_ctrl_map`, or a probe fires. -/
inductive Event where
  | ktCtrl (c : KtCtrl)
  | sysEnterExecve (cur : Task) (filename args : UInt64) (user : UserMemory)
      (slot : Option KeytimeEvent)
  | sysExitExecve (cur : Task) (ret : Int) (slot : Option KeytimeEvent)
  | forkExit (cur : Task) (ret : Int) (room : Bool) (slot : Option KeytimeEvent)
  | vforkExit (cur parent : Task) (room : Bool) (slot : Option KeytimeEvent)
  | pthreadCreateEnter (cur : Task) (room : Bool)
  | pthreadCreateExit (cur : Task)
  | sysExitClone3 (cur : Task) (ret : Int) (room : Bool) (slot : Option KeytimeEvent)
  | sysEnterExitGroup (cur : Task) (code : UInt64) (slot slot' : Option KeytimeEvent)
  | sysEnterExit (cur : Task) (code : UInt64) (slot slot' : Option KeytimeEvent)
  | schedSwitch (prev next : Task) (off on : UInt64) (kstack : Kstack)
      (reservedOff : Bool) (slotOn : Option KeytimeEvent)

def step (ro : Rodata) (s : State) : Event → State × List Record
  | .ktCtrl c => ({ s with ktCtrlMap := c }, [])
  | .sysEnterExecve cur filename args user slot =>
    sysEnterExecve ro s cur slot filename args user
  | .sysExitExecve cur ret slot => sysExitExecve ro s cur slot ret
  | .forkExit cur ret room slot => forkExit ro s cur room slot ret
  | .vforkExit cur parent room slot => vforkExit ro s cur room slot parent
  | .pthreadCreateEnter cur room => (pthreadCreateEnter ro s cur room, [])
  | .pthreadCreateExit cur => (pthreadCreateExit ro s cur, [])
  | .sysExitClone3 cur ret room slot => sysExitClone3 ro s cur room slot ret
  | .sysEnterExitGroup cur code slot slot' => sysEnterExitGroup ro s cur slot slot' code
  | .sysEnterExit cur code slot slot' => sysEnterExit ro s cur slot slot' code
  | .schedSwitch prev next off on kstack reservedOff slotOn =>
    schedSwitch ro s slotOn prev next off on kstack reservedOff

/-- The program just loaded, with the control value `c`. -/
def initial (c : KtCtrl) : State where
  ktCtrlMap := c
  child := BpfMap.empty
  pthreadCreateEnable := BpfMap.empty

def machine (ro : Rodata) (c : KtCtrl) : Machine State Event Record where
  init := initial c
  step := step ro

end CpuSubsystem.KeytimeImage
