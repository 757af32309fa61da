import CpuSubsystem.Lib.Walk
import CpuSubsystem.ProcImage.ResourceImage.Accounting

/-!
# Resource image, user side (`print_resource` in `proc_image.c`)

`print_resource` looks up all elements of `total` in one pass and removes them in a second one.  The
probe goes on in between; every call of a map helper is a step of its own.
-/

namespace CpuSubsystem.ResourceImage

open ScheduleImage (ProcId procId)

/-- Where `print_resource` is: the map operation that comes next. -/
inductive Phase where
  | idle
  | reading (lookupKey : ProcId)
  | looking (nextKey : ProcId)
  | deleting (lookupKey : ProcId)
  | removing (nextKey : ProcId)
deriving DecidableEq

/-- `lookup_key.pid = -1; lookup_key.cpu_id = -1`. -/
def startKey : ProcId where
  pid := -1
  cpuId := -1

/-- The map and the process that reads it.  `order` holds the keys of `total` as
`bpf_map_get_next_key` meets them. -/
structure Reader where
  kernel : State
  order : List ProcId
  firstRsc : Bool
  phase : Phase

/-- `percent a b` tells whether `100.0 * a / b`, as a `float`, is at most 100. -/
structure Setup where
  ignoreTgid : Int
  bucket : ProcId → Nat
  memtotal : UInt64
  percent : UInt64 → UInt64 → Bool

section

variable (x : Setup)

/-- What the probe adds, to which element: it writes the element by `bpf_map_update_elem`. -/
def charging (s : State) : Event → Option (ProcId × StartRsc)
  | .finishTaskSwitch prev _ cpu _ off _ rooms =>
    let pd := procId prev.pid cpu
    if s.rscCtrlMap.rscFunc && selects x.ignoreTgid s.rscCtrlMap prev.pid prev.tgid cpu &&
        s.total.accepts rooms.total pd then
      (s.start.lookup pd).map fun begun =>
        (pd, ⟨off - begun.time, prev.rchar - begun.readchar, prev.wchar - begun.writechar⟩)
    else none
  | .rscCtrl _ | .deleteTotal _ => none

/-- The row of an element is printed. -/
def shown (interval : UInt64) (event : TotalRsc) : Bool :=
  interval > 0 && x.memtotal > 0 && event.time > 0 && x.percent event.time interval &&
    x.percent event.memused x.memtotal

def onKernel (r : Reader) (e : Event) : Reader :=
  { r with
    kernel := step x.ignoreTgid r.kernel e
    order :=
      match charging x r.kernel e with
      | some (k, _) => Walk.write x.bucket r.order k
      | none => r.order }

/-- The first call jumps past the initialisation of `fd`; `strayFd` tells whether `fd` happens to be
the descriptor of `total`. -/
def call (r : Reader) (strayFd : Bool) : Reader :=
  match r.phase with
  | .idle =>
    if r.kernel.rscCtrlMap.rscFunc then
      if r.firstRsc then
        { r with firstRsc := false, phase := if strayFd then .deleting startKey else .idle }
      else { r with phase := .reading startKey }
    else r
  | _ => r

def resume (r : Reader) (interval : UInt64) : Reader × List (ProcId × TotalRsc) :=
  match r.phase with
  | .idle => (r, [])
  | .reading lookupKey =>
    match Walk.next r.order lookupKey with
    | some nextKey => ({ r with phase := .looking nextKey }, [])
    | none => ({ r with phase := .deleting startKey }, [])
  | .looking nextKey =>
    match r.kernel.total.lookup nextKey with
    | some event =>
      ({ r with phase := .reading nextKey },
        if shown x interval event then [(nextKey, event)] else [])
    | none => ({ r with phase := .idle }, [])
  | .deleting lookupKey =>
    match Walk.next r.order lookupKey with
    | some nextKey => ({ r with phase := .removing nextKey }, [])
    | none => ({ r with phase := .idle }, [])
  | .removing nextKey =>
    if (r.kernel.total.lookup nextKey).isSome then
      ({ r with
        kernel := step x.ignoreTgid r.kernel (.deleteTotal nextKey)
        order := Walk.erase r.order nextKey
        phase := .deleting nextKey }, [])
    else ({ r with phase := .idle }, [])

/-- The probe runs, `print_resource` is called, or it makes its next map operation. -/
inductive Tick where
  | kernel (e : Event)
  | call (strayFd : Bool)
  | resume (interval : UInt64)

/-- The records are the rows that are printed. -/
def reader (c : RscCtrl) : Machine Reader Tick (ProcId × TotalRsc) where
  init := ⟨initial c, [], true, .idle⟩
  step r
    | .kernel e => (onKernel x r e, [])
    | .call strayFd => (call r strayFd, [])
    | .resume interval => resume x r interval

end

end CpuSubsystem.ResourceImage
