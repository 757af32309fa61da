import CpuSubsystem.CpuWatcher.CsDelay.Model
import CpuSubsystem.CpuWatcher.MqDelay.Model
import CpuSubsystem.CpuWatcher.Preempt.Printer
import CpuSubsystem.CpuWatcher.Sar.Report
import CpuSubsystem.CpuWatcher.ScDelay.Model
import CpuSubsystem.CpuWatcher.ScheduleDelay.Printer
import CpuSubsystem.Lib.Options

/-!
# The controller of `cpu_watcher` (`controller.c`)

The map accesses succeed.
-/

namespace CpuSubsystem.WatcherController

inductive Tool where
  | sar
  | csDelay
  | syscallDelay
  | preempt
  | scheduleDelay
  | mqDelay
deriving DecidableEq, Repr

/-- An option, with the number in its argument. -/
inductive Opt where
  | activate
  | unactivate
  | finish
  | libbpfSar
  | percent
  | csDelay
  | syscallDelay
  | preemptTime
  | scheduleDelay
  | scheduleDelayMinUsSet (n : Int)
  | mqDelay
  | help
deriving DecidableEq, Repr

/-- `struct env`; nothing uses `freq`. -/
structure Env where
  usemode : Nat
  sar : Bool
  percent : Bool
  csDelay : Bool
  syscallDelay : Bool
  minUsSet : Bool
  minUs : Int
  preempt : Bool
  scheduleDelay : Bool
  mqDelay : Bool
deriving DecidableEq, Repr

def Env.initial : Env where
  usemode := 0
  sar := false
  percent := false
  csDelay := false
  syscallDelay := false
  minUsSet := false
  minUs := 10000
  preempt := false
  scheduleDelay := false
  mqDelay := false

/-- Why the parser ends the program. -/
inductive Exit where
  | usage
  | help
deriving DecidableEq, Repr

/-- The case of `-P` has no `break`, and goes on with that of `-c`. -/
def parseArg (env : Env) : Opt → Except Exit Env
  | .activate => .ok { env with usemode := 1 }
  | .unactivate => .ok { env with usemode := 2 }
  | .finish => .ok { env with usemode := 3 }
  | .libbpfSar => .ok { env with sar := true }
  | .percent => .ok { env with percent := true, csDelay := true }
  | .csDelay => .ok { env with csDelay := true }
  | .syscallDelay => .ok { env with syscallDelay := true }
  | .preemptTime => .ok { env with preempt := true }
  | .scheduleDelay => .ok { env with scheduleDelay := true }
  | .scheduleDelayMinUsSet n =>
    if toInt (strtol n) ≤ 0 then .error .usage
    else .ok { env with minUsSet := true, minUs := toInt (strtol n) }
  | .mqDelay => .ok { env with mqDelay := true }
  | .help => .error .help

/-- The value of a control map. -/
inductive Ctrl where
  | sar (c : Sar.SarCtrl)
  | cs (c : CsDelay.CsCtrl)
  | sc (c : ScDelay.ScCtrl)
  | preempt (c : Preempt.PreemptCtrl)
  | schedule (c : ScheduleDelay.ScheduleCtrl)
  | mq (c : MqDelay.MqCtrl)
deriving DecidableEq

/-- The tool whose control map the value is written to. -/
def Ctrl.tool : Ctrl → Tool
  | .sar _ => .sar
  | .cs _ => .csDelay
  | .sc _ => .syscallDelay
  | .preempt _ => .preempt
  | .schedule _ => .scheduleDelay
  | .mq _ => .mqDelay

section Values

variable (env : Env)

def activateMode : List Ctrl :=
  (if env.sar then [Ctrl.sar ⟨true, env.percent, Sar.sarWatcher + env.percent.toInt⟩] else []) ++
  (if env.csDelay then [Ctrl.cs ⟨true, 20⟩] else []) ++
  (if env.syscallDelay then [Ctrl.sc ⟨true, 30⟩] else []) ++
  (if env.preempt then [Ctrl.preempt ⟨true, 40⟩] else []) ++
  (if env.scheduleDelay then
    [Ctrl.schedule ⟨true, env.minUsSet, env.minUs,
      ScheduleDelay.scheduleWatcher + env.minUsSet.toInt⟩]
    else []) ++
  (if env.mqDelay then [Ctrl.mq ⟨true, 60⟩] else [])

def deactivateMode : List Ctrl :=
  (if env.sar then [Ctrl.sar ⟨false, false, 0⟩] else []) ++
  (if env.csDelay then [Ctrl.cs ⟨false, 0⟩] else []) ++
  (if env.syscallDelay then [Ctrl.sc ⟨false, 0⟩] else []) ++
  (if env.preempt then [Ctrl.preempt ⟨false, 0⟩] else []) ++
  (if env.scheduleDelay then [Ctrl.schedule ⟨false, false, 10000, 0⟩] else []) ++
  (if env.mqDelay then [Ctrl.mq ⟨false, 0⟩] else [])

/-- The writes for the options that were read; the finish mode only kills the tool. -/
def runMode : List Ctrl :=
  if env.usemode = 1 then activateMode env
  else if env.usemode = 2 then deactivateMode env
  else []

end Values

/-- All writes to control maps, in order. -/
def main (args : List Opt) : List Ctrl := writesFor parseArg Env.initial runMode args

/-- The tool that the option names; `-P` and `-e` are about the output of a named tool. -/
def Opt.tool? : Opt → Option Tool
  | .libbpfSar => some .sar
  | .csDelay => some .csDelay
  | .syscallDelay => some .syscallDelay
  | .preemptTime => some .preempt
  | .scheduleDelay => some .scheduleDelay
  | .mqDelay => some .mqDelay
  | _ => none

/-- The use mode that the option sets. -/
def Opt.mode? : Opt → Option Nat
  | .activate => some 1
  | .unactivate => some 2
  | .finish => some 3
  | _ => none

/-- The parser goes on after the option. -/
def Opt.Accepted : Opt → Prop
  | .scheduleDelayMinUsSet n => 0 < toInt (strtol n)
  | .help => False
  | _ => True

/-- The list is valid, and its last use mode is the activate or the deactivate mode. -/
def Runs (args : List Opt) : Prop :=
  (∀ o ∈ args, o.Accepted) ∧ ∃ k ∈ latest Opt.mode? args, k = 1 ∨ k = 2

def Env.enabled (env : Env) : Tool → Bool
  | .sar => env.sar
  | .csDelay => env.csDelay
  | .syscallDelay => env.syscallDelay
  | .preempt => env.preempt
  | .scheduleDelay => env.scheduleDelay
  | .mqDelay => env.mqDelay

/-- The case of the option sets the flag of the tool. -/
def Opt.enables : Opt → Tool → Bool
  | .percent, .csDelay => true
  | o, tool => o.tool? = some tool

theorem enables_iff (o : Opt) (tool : Tool) :
    o.enables tool = true ↔ o.tool? = some tool ∨ tool = .csDelay ∧ o = .percent := by
  cases o <;> cases tool <;> simp [Opt.enables, Opt.tool?]

theorem parseArg_accepts (env : Env) (o : Opt) :
    (∃ env', parseArg env o = .ok env') ↔ o.Accepted := by
  cases o with
  | scheduleDelayMinUsSet n =>
    simp only [parseArg, exists_ok_of_check, Opt.Accepted]
    omega
  | help => exact ⟨fun ⟨_, h⟩ => (nomatch h), False.elim⟩
  | _ => exact ⟨fun _ => trivial, fun _ => ⟨_, rfl⟩⟩

/-- Every case sets its own flags, the mode or neither. -/
theorem parseArg_cases :
    ParserCases parseArg Env.initial Opt.Accepted Opt.mode? Opt.enables Env.usemode
      Env.enabled where
  accepts := parseArg_accepts
  sets_mode env o env' h := by
    cases o <;> simp only [parseArg] at h <;> (try split at h) <;> cases h <;> rfl
  raises env o env' h tool := by
    cases o <;> simp only [parseArg] at h <;> (try split at h) <;> cases h <;> cases tool <;>
      simp [Env.enabled, Opt.enables, Opt.tool?]
  initial_mode := rfl
  initial_flags tool := by cases tool <;> rfl

theorem mem_activateMode {env : Env} {tool : Tool} :
    tool ∈ (activateMode env).map Ctrl.tool ↔ env.enabled tool = true := by
  simp only [activateMode, List.map_append, List.mem_append, mem_map_guarded, Ctrl.tool]
  cases tool <;> simp [Env.enabled]

theorem mem_deactivateMode {env : Env} {tool : Tool} :
    tool ∈ (deactivateMode env).map Ctrl.tool ↔ env.enabled tool = true := by
  simp only [deactivateMode, List.map_append, List.mem_append, mem_map_guarded, Ctrl.tool]
  cases tool <;> simp [Env.enabled]

theorem mem_runMode {env : Env} {tool : Tool} :
    tool ∈ (runMode env).map Ctrl.tool ↔
      (env.usemode = 1 ∨ env.usemode = 2) ∧ env.enabled tool = true := by
  unfold runMode
  split_ifs with h1 h2
  · rw [mem_activateMode]
    exact (and_iff_right (.inl h1)).symm
  · rw [mem_deactivateMode]
    exact (and_iff_right (.inr h2)).symm
  · simp [h1, h2]

/-- The maps that are written. -/
theorem mem_main (args : List Opt) (tool : Tool) :
    tool ∈ (main args).map Ctrl.tool ↔ Runs args ∧ ∃ o ∈ args, o.enables tool = true :=
  parseArg_cases.mem_writesFor (fun k => k = 1 ∨ k = 2) (by decide)
    (fun env tool => mem_runMode) args tool

end CpuSubsystem.WatcherController
