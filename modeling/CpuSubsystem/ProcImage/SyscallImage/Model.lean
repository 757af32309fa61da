import CpuSubsystem.Lib.BpfMap
import CpuSubsystem.Lib.CInt
import CpuSubsystem.Lib.Machine

/-!
# Syscall image, kernel side (`bpf/syscall_image.bpf.c`)

The two raw-syscall probes and the exit tracepoint, as one machine over the events of the kernel
and of the controller.  A handler runs atomically.  An event carries what the BPF helpers return
there: the current task, the clock, whether `proc_syscall` has room for a new key, and the memory
that `bpf_ringbuf_reserve` hands out (`none` when it fails; the memory is not zeroed).
-/

namespace CpuSubsystem.SyscallImage

/-- `MAX_SYSCALL_COUNT`. -/
abbrev maxSyscallCount : Nat := 50

/-- `struct sc_ctrl`. -/
structure ScCtrl where
  scFunc : Bool
  enableMyproc : Bool
  isContainer : Bool
  targetPid : Int
  targetTgid : Int
  syscalls : Int
deriving DecidableEq, Repr

/-- `struct syscall_seq`, both the value of `proc_syscall` and the ring-buffer record. -/
structure SyscallSeq where
  pid : Int
  tgid : Int
  enterTime : UInt64
  sumDelay : UInt64
  procSd : UInt64
  maxDelay : UInt64
  minDelay : UInt64
  count : Nat
  procCount : Nat
  recordSyscall : Vector Int maxSyscallCount
deriving DecidableEq, Repr

/-- `struct syscall_seq syscall_seq = {}`. -/
def SyscallSeq.zero : SyscallSeq where
  pid := 0
  tgid := 0
  enterTime := 0
  sumDelay := 0
  procSd := 0
  maxDelay := 0
  minDelay := 0
  count := 0
  procCount := 0
  recordSyscall := Vector.replicate maxSyscallCount 0

/-- What the probes read of the current task.  `nodename` is the host name of its UTS namespace,
`none` when the task has no `nsproxy` or no UTS namespace. -/
structure Task where
  pid : Int
  tgid : Int
  nodename : Option (List Char)
deriving DecidableEq, Repr

/-- Constants that user space sets before loading. -/
structure Rodata where
  ignoreTgid : Int
  hostname : List Char

/-- The maps and the global variables. -/
structure State where
  scCtrlMap : ScCtrl
  procSyscall : BpfMap Int SyscallSeq
  preTargetPid : Int
  preTargetTgid : Int

/-- The element of `pid` is overwritten, through the pointer of a lookup. -/
def State.put (s : State) (pid : Int) (seq : SyscallSeq) : State :=
  { s with procSyscall := s.procSyscall.store pid seq }

/-- The comparison loop of `is_container_task`, over two NUL-terminated buffers. -/
def nodenameEq : List Char → List Char → Bool
  | a :: as, b :: bs =>
      if a ≠ b then false
      else if a = '\x00' ∨ b = '\x00' then true
      else nodenameEq as bs
  | _, _ => true

def isContainerTask (hostname : List Char) (cur : Task) : Bool :=
  match cur.nodename with
  | none => false
  | some nodename => !nodenameEq nodename hostname

/-- The checks at the head of `sys_enter` and of `sys_exit`. -/
def traced (ro : Rodata) (c : ScCtrl) (cur : Task) : Bool :=
  c.scFunc && (!c.isContainer || isContainerTask ro.hostname cur) &&
    (c.enableMyproc || cur.tgid != ro.ignoreTgid)

/-- The selection condition, written out five times in the source. -/
def selected (c : ScCtrl) (pid tgid : Int) : Bool :=
  (c.targetTgid == -1 && (c.targetPid == -1 || pid == c.targetPid)) ||
    (c.targetTgid != -1 && tgid == c.targetTgid)

/-- `record_syscall[count] = (int)args->id` for a selected thread, and `count++`. -/
def SyscallSeq.append (seq : SyscallSeq) (sel : Bool) (id : Int)
    (h : seq.count < maxSyscallCount) : SyscallSeq :=
  { seq with
    recordSyscall :=
      if sel then seq.recordSyscall.set seq.count (toInt id) h else seq.recordSyscall
    count := seq.count + 1 }

/-- `sys_enter` on an element that exists; a full batch is left alone. -/
def SyscallSeq.enter (seq : SyscallSeq) (sel : Bool) (now : UInt64) (id : Int) : SyscallSeq :=
  if h : seq.count = 0 then
    { seq.append sel id (by rw [h]; decide) with enterTime := now }
  else if h : seq.count ≤ maxSyscallCount - 1 ∧ seq.count > 0 then
    { seq.append sel id (Nat.lt_of_le_pred (by decide) h.1) with enterTime := now }
  else { seq with enterTime := now }

/-- The element that `sys_enter` creates, with `count = 1`. -/
def SyscallSeq.create (pid : Int) (sel : Bool) (now : UInt64) (id : Int) : SyscallSeq :=
  { SyscallSeq.zero.append sel id (by decide) with pid := pid, enterTime := now }

def sysEnter (ro : Rodata) (s : State) (cur : Task) (now : UInt64) (id : Int) (room : Bool) :
    State :=
  if traced ro s.scCtrlMap cur then
    let sel := selected s.scCtrlMap cur.pid cur.tgid
    match s.procSyscall.lookup cur.pid with
    | none => { s with procSyscall :=
        s.procSyscall.update room cur.pid (SyscallSeq.create cur.pid sel now id) }
    | some seq => s.put cur.pid (seq.enter sel now id)
  else s

/-- Both branches of `sys_exit` first add the delay of the call that returns. -/
def SyscallSeq.charge (seq : SyscallSeq) (delay : UInt64) : SyscallSeq :=
  { seq with
    sumDelay := seq.sumDelay + delay
    maxDelay := if delay > seq.maxDelay then delay else seq.maxDelay
    minDelay := if seq.minDelay == 0 || delay < seq.minDelay then delay else seq.minDelay }

/-- `sum_delay = 0; count = 0`. -/
def SyscallSeq.reset (seq : SyscallSeq) : SyscallSeq := { seq with sumDelay := 0, count := 0 }

/-- The running totals of a selected thread take in the batch. -/
def SyscallSeq.total (seq : SyscallSeq) (sel : Bool) : SyscallSeq :=
  if sel then
    { seq with
      procCount := (seq.procCount + seq.count) % 2 ^ 32
      procSd := seq.procSd + seq.sumDelay }
  else seq

/-- `for (i = 0; i <= count-1 && i <= MAX_SYSCALL_COUNT-1; i++) dst[i] = src[i]`; the subtraction
is unsigned, so everything is copied when `count` is 0. -/
def copyRecord (count : Nat) (src dst : Vector Int maxSyscallCount) :
    Vector Int maxSyscallCount :=
  Vector.ofFn fun i => if i.val ≤ (count + (2 ^ 32 - 1)) % 2 ^ 32 then src[i] else dst[i]

/-- The record written into the reserved memory `mem`; the fields that are not assigned keep what
was there. -/
def SyscallSeq.fill (seq : SyscallSeq) (sel : Bool) (cur : Task) (mem : SyscallSeq) :
    SyscallSeq :=
  { mem with
    pid := cur.pid
    tgid := cur.tgid
    sumDelay := seq.sumDelay
    maxDelay := seq.maxDelay
    minDelay := seq.minDelay
    count := seq.count
    recordSyscall := copyRecord seq.count seq.recordSyscall mem.recordSyscall
    procCount := if sel then seq.procCount else mem.procCount
    procSd := if sel then seq.procSd else mem.procSd }

/-- The first batch after the target thread changed. -/
def retargetedPid (s : State) (cur : Task) : Bool :=
  s.scCtrlMap.targetTgid == -1 && s.scCtrlMap.targetPid == cur.pid &&
    s.scCtrlMap.targetPid != s.preTargetPid

/-- The first batch after the target thread group changed. -/
def retargetedTgid (s : State) (cur : Task) : Bool :=
  s.scCtrlMap.targetTgid != -1 && s.scCtrlMap.targetTgid == cur.tgid &&
    s.scCtrlMap.targetTgid != s.preTargetTgid

def sysExit (ro : Rodata) (s : State) (cur : Task) (now : UInt64) (slot : Option SyscallSeq) :
    State × List SyscallSeq :=
  if traced ro s.scCtrlMap cur then
    match s.procSyscall.lookup cur.pid with
    | none => (s, [])
    | some seq =>
      let charged := seq.charge (now - seq.enterTime)
      if charged.count < toUnsigned s.scCtrlMap.syscalls then (s.put cur.pid charged, [])
      -- policy switch: the first data are not recorded
      else if retargetedPid s cur then
        ({ s.put cur.pid charged.reset with preTargetPid := s.scCtrlMap.targetPid }, [])
      else if retargetedTgid s cur then
        ({ s.put cur.pid charged.reset with preTargetTgid := s.scCtrlMap.targetTgid }, [])
      else
        let sel := selected s.scCtrlMap cur.pid cur.tgid
        let totalled := charged.total sel
        match slot with
        | none => (s.put cur.pid totalled, [])
        | some mem => (s.put cur.pid totalled.reset, [totalled.fill sel cur mem])
  else (s, [])

def schedProcessExit (s : State) (cur : Task) : State :=
  if s.scCtrlMap.scFunc then { s with procSyscall := s.procSyscall.delete cur.pid } else s

/-- What can happen: the controller writes `sc_ctrl_map`, or a probe fires. -/
inductive Event where
  | scCtrl (c : ScCtrl)
  | sysEnter (cur : Task) (now : UInt64) (id : Int) (room : Bool)
  | sysExit (cur : Task) (now : UInt64) (slot : Option SyscallSeq)
  | schedProcessExit (cur : Task)
deriving DecidableEq

def step (ro : Rodata) (s : State) : Event → State × List SyscallSeq
  | .scCtrl c => ({ s with scCtrlMap := c }, [])
  | .sysEnter cur now id room => (sysEnter ro s cur now id room, [])
  | .sysExit cur now slot => sysExit ro s cur now slot
  | .schedProcessExit cur => (schedProcessExit s cur, [])

/-- The program just loaded, with the control value `c`. -/
def initial (c : ScCtrl) : State where
  scCtrlMap := c
  procSyscall := BpfMap.empty
  preTargetPid := -1
  preTargetTgid := -1

def machine (ro : Rodata) (c : ScCtrl) : Machine State Event SyscallSeq where
  init := initial c
  step := step ro

end CpuSubsystem.SyscallImage
