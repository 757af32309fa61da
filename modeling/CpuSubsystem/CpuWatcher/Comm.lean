import Mathlib.Tactic.Common

/-!
# Names of tasks
-/

namespace CpuSubsystem

/-- The field `comm` of a `task_struct`: 16 bytes, of which the last in use is 0. -/
structure Comm where
  bytes : List UInt8
  short : bytes.length < 16
  noNul : 0 ∉ bytes
deriving DecidableEq

/-- The name whose bytes are all 0. -/
def Comm.none : Comm := ⟨[], by decide, by decide⟩

end CpuSubsystem
