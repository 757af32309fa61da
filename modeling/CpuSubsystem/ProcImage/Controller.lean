import CpuSubsystem.Lib.CInt
import CpuSubsystem.Lib.Options
import CpuSubsystem.ProcImage.KeytimeImage.Model
import CpuSubsystem.ProcImage.LockImage.Model
import CpuSubsystem.ProcImage.ResourceImage.Model
import CpuSubsystem.ProcImage.ScheduleImage.Model
import CpuSubsystem.ProcImage.SyscallImage.Model

/-!
# The controller of `eBPF_proc_image` (`controller.c`)

The map accesses succeed. An activation with a running time ends with the signal whose handler
deactivates the images again.
-/

namespace CpuSubsystem.ProcController

inductive Image where
  | resource
  | keytime
  | lock
  | syscall
  | schedule
deriving DecidableEq, Repr

/-- An option, with the number in its argument. -/
inductive Opt where
  | activate
  | deactivate
  | finish
  | pid (n : Int)
  | tgid (n : Int)
  | containerproc
  | cpuid (n : Int)
  | time (n : Int)
  | myproc
  | resource
  | keytime (n : Int)
  | lock
  | syscall (n : Int)
  | schedule
  | help
deriving DecidableEq, Repr

/-- The fields of `struct env` that this program uses. -/
structure Env where
  usemode : Nat
  pid : Int
  tgid : Int
  cpuId : Int
  time : Int
  syscalls : Int
  enableMyproc : Bool
  enableResource : Bool
  enableCpu : Bool
  enableKeytime : Bool
  enableLock : Bool
  enableSyscall : Bool
  enableSchedule : Bool
  isContainer : Bool
deriving DecidableEq, Repr

def Env.initial : Env where
  usemode := 0
  pid := -1
  tgid := -1
  cpuId := -1
  time := 0
  syscalls := 0
  enableMyproc := false
  enableResource := false
  enableCpu := false
  enableKeytime := false
  enableLock := false
  enableSyscall := false
  enableSchedule := false
  isContainer := false

/-- Why the parser ends the program. -/
inductive Exit where
  | usage
  | help
deriving DecidableEq, Repr

/-- The case of `-s` has no `break`, and goes on with that of `-S`. -/
def parseArg (env : Env) : Opt → Except Exit Env
  | .activate => .ok { env with usemode := 1 }
  | .deactivate => .ok { env with usemode := 2 }
  | .finish => .ok { env with usemode := 3 }
  | .pid n =>
    if strtol n ≠ n ∨ strtol n < 0 then .error .usage
    else .ok { env with pid := toInt (strtol n) }
  | .tgid n =>
    if strtol n ≠ n ∨ strtol n < 0 then .error .usage
    else .ok { env with tgid := toInt (strtol n) }
  | .containerproc => .ok { env with isContainer := true }
  | .cpuid n =>
    if strtol n < 0 then .error .usage else .ok { env with cpuId := toInt (strtol n) }
  | .time n => .ok { env with time := toInt (strtol n) }
  | .myproc => .ok { env with enableMyproc := true }
  | .resource => .ok { env with enableResource := true }
  | .keytime n =>
    if strtol n < 0 ∨ strtol n > 1 then .error .usage
    else .ok { env with enableCpu := strtol n ≠ 0, enableKeytime := true }
  | .lock => .ok { env with enableLock := true }
  | .syscall n =>
    if strtol n ≤ 0 ∨ strtol n > 50 then .error .usage
    else .ok
      { env with syscalls := toInt (strtol n), enableSyscall := true, enableSchedule := true }
  | .schedule => .ok { env with enableSchedule := true }
  | .help => .error .help

/-- The value of a control map. -/
inductive Ctrl where
  | rsc (c : ResourceImage.RscCtrl)
  | kt (c : KeytimeImage.KtCtrl)
  | lock (c : LockImage.LockCtrl)
  | sc (c : SyscallImage.ScCtrl)
  | sched (c : ScheduleImage.SchedCtrl)
deriving DecidableEq

/-- The image whose control map the value is written to. -/
def Ctrl.image : Ctrl → Image
  | .rsc _ => .resource
  | .kt _ => .keytime
  | .lock _ => .lock
  | .sc _ => .syscall
  | .sched _ => .schedule

section Values

variable (env : Env)

def rscCtrl : ResourceImage.RscCtrl := ⟨true, env.pid, env.cpuId, env.enableMyproc, env.tgid⟩

def ktCtrl : KeytimeImage.KtCtrl := ⟨true, env.enableCpu, env.enableMyproc, env.pid, env.tgid⟩

def lockCtrl : LockImage.LockCtrl := ⟨true, env.enableMyproc, env.pid, env.tgid⟩

def scCtrl : SyscallImage.ScCtrl :=
  ⟨true, env.enableMyproc, env.isContainer, env.pid, env.tgid, env.syscalls⟩

def schedCtrl : ScheduleImage.SchedCtrl := ⟨true, env.pid, env.cpuId, env.tgid⟩

/-- The writes of the activate mode, up to the pause. -/
def activateMode : List Ctrl :=
  (if env.enableResource then [Ctrl.rsc (rscCtrl env)] else []) ++
  (if env.enableKeytime then [Ctrl.kt (ktCtrl env)] else []) ++
  (if env.enableLock then [Ctrl.lock (lockCtrl env)] else []) ++
  (if env.enableSyscall then [Ctrl.sc (scCtrl env)] else []) ++
  (if env.enableSchedule then [Ctrl.sched (schedCtrl env)] else [])

def deactivateMode : List Ctrl :=
  (if env.enableResource then [Ctrl.rsc ⟨false, -1, -1, false, -1⟩] else []) ++
  (if env.enableKeytime then [Ctrl.kt ⟨false, false, false, -1, -1⟩] else []) ++
  (if env.enableLock then [Ctrl.lock ⟨false, false, -1, -1⟩] else []) ++
  (if env.enableSyscall then [Ctrl.sc ⟨false, false, false, -1, -1, 0⟩] else []) ++
  (if env.enableSchedule then [Ctrl.sched ⟨false, -1, -1, -1⟩] else [])

/-- The writes for the options that were read; the finish mode only kills the tool. -/
def runMode : List Ctrl :=
  if env.usemode = 1 then
    activateMode env ++ if env.time ≠ 0 then deactivateMode env else []
  else if env.usemode = 2 then deactivateMode env
  else []

end Values

/-- All writes to control maps, in order. -/
def main (args : List Opt) : List Ctrl := writesFor parseArg Env.initial runMode args

/-- The image that the option names. -/
def Opt.image? : Opt → Option Image
  | .resource => some .resource
  | .keytime _ => some .keytime
  | .lock => some .lock
  | .syscall _ => some .syscall
  | .schedule => some .schedule
  | _ => none

/-- The use mode that the option sets. -/
def Opt.mode? : Opt → Option Nat
  | .activate => some 1
  | .deactivate => some 2
  | .finish => some 3
  | _ => none

/-- The parser goes on after the option. -/
def Opt.Accepted : Opt → Prop
  | .pid n => strtol n = n ∧ 0 ≤ strtol n
  | .tgid n => strtol n = n ∧ 0 ≤ strtol n
  | .cpuid n => 0 ≤ strtol n
  | .keytime n => 0 ≤ strtol n ∧ strtol n ≤ 1
  | .syscall n => 0 < strtol n ∧ strtol n ≤ 50
  | .help => False
  | _ => True

def Opt.IsSyscall (o : Opt) : Prop := ∃ n, o = .syscall n

/-- The list is valid, and its last use mode is the activate or the deactivate mode. -/
def Runs (args : List Opt) : Prop :=
  (∀ o ∈ args, o.Accepted) ∧ ∃ k ∈ latest Opt.mode? args, k = 1 ∨ k = 2

def Env.enabled (env : Env) : Image → Bool
  | .resource => env.enableResource
  | .keytime => env.enableKeytime
  | .lock => env.enableLock
  | .syscall => env.enableSyscall
  | .schedule => env.enableSchedule

/-- The case of the option sets the flag of the image. -/
def Opt.enables : Opt → Image → Bool
  | .syscall _, .schedule => true
  | o, image => o.image? = some image

theorem enables_iff (o : Opt) (image : Image) :
    o.enables image = true ↔ o.image? = some image ∨ image = .schedule ∧ o.IsSyscall := by
  cases o <;> cases image <;> simp [Opt.enables, Opt.image?, Opt.IsSyscall]

theorem parseArg_accepts (env : Env) (o : Opt) :
    (∃ env', parseArg env o = .ok env') ↔ o.Accepted := by
  cases o with
  | pid n | tgid n | cpuid n | keytime n | syscall n =>
    simp only [parseArg, exists_ok_of_check, Opt.Accepted]
    omega
  | help => exact ⟨fun ⟨_, h⟩ => (nomatch h), False.elim⟩
  | _ => exact ⟨fun _ => trivial, fun _ => ⟨_, rfl⟩⟩

/-- Every case sets its own flags, the mode or neither. -/
theorem parseArg_cases :
    ParserCases parseArg Env.initial Opt.Accepted Opt.mode? Opt.enables Env.usemode
      Env.enabled where
  accepts := parseArg_accepts
  sets_mode env o env' h := by
    cases o <;> simp only [parseArg] at h <;> (try split at h) <;> cases h <;> rfl
  raises env o env' h image := by
    cases o <;> simp only [parseArg] at h <;> (try split at h) <;> cases h <;> cases image <;>
      simp [Env.enabled, Opt.enables, Opt.image?]
  initial_mode := rfl
  initial_flags image := by cases image <;> rfl

theorem mem_activateMode {env : Env} {image : Image} :
    image ∈ (activateMode env).map Ctrl.image ↔ env.enabled image = true := by
  simp only [activateMode, List.map_append, List.mem_append, mem_map_guarded, Ctrl.image]
  cases image <;> simp [Env.enabled]

theorem mem_deactivateMode {env : Env} {image : Image} :
    image ∈ (deactivateMode env).map Ctrl.image ↔ env.enabled image = true := by
  simp only [deactivateMode, List.map_append, List.mem_append, mem_map_guarded, Ctrl.image]
  cases image <;> simp [Env.enabled]

/-- A run with a time writes every map a second time. -/
theorem mem_runMode {env : Env} {image : Image} :
    image ∈ (runMode env).map Ctrl.image ↔
      (env.usemode = 1 ∨ env.usemode = 2) ∧ env.enabled image = true := by
  unfold runMode
  split_ifs with h1 ht h2
  · rw [List.map_append, List.mem_append, mem_activateMode, mem_deactivateMode, or_self]
    exact (and_iff_right (.inl h1)).symm
  · rw [List.append_nil, mem_activateMode]
    exact (and_iff_right (.inl h1)).symm
  · rw [mem_deactivateMode]
    exact (and_iff_right (.inr h2)).symm
  · simp [h1, h2]

/-- The maps that are written. -/
theorem mem_main (args : List Opt) (image : Image) :
    image ∈ (main args).map Ctrl.image ↔ Runs args ∧ ∃ o ∈ args, o.enables image = true :=
  parseArg_cases.mem_writesFor (fun k => k = 1 ∨ k = 2) (by decide)
    (fun env image => mem_runMode) args image

end CpuSubsystem.ProcController
