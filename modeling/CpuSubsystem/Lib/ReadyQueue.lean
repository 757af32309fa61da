import CpuSubsystem.Lib.Tally
import Mathlib.Logic.Function.Basic

/-!
# Tasks that wait for a CPU

What a program about scheduling delays is for: since when every tracked task has been ready, and of
the delays until the tasks ran how many there were, their sum and the greatest.  A task stays
tracked while it runs, with the time at which it became ready.
-/

namespace CpuSubsystem

@[ext] structure ReadyQueue (κ : Type*) where
  since : κ → Option UInt64
  count : UInt64
  sum : UInt64
  max : UInt64

namespace ReadyQueue

variable {κ : Type*}

/-- A task becomes ready, gets a CPU, or is gone. -/
inductive Op (κ : Type*) where
  | ready (k : κ) (now : UInt64)
  | run (k : κ) (now : UInt64)
  | leave (k : κ)

def empty : ReadyQueue κ := ⟨fun _ => none, 0, 0, 0⟩

def ready [DecidableEq κ] (q : ReadyQueue κ) (k : κ) (now : UInt64) : ReadyQueue κ :=
  { q with since := Function.update q.since k (some now) }

/-- The delay of a task that is not tracked is not known. -/
def run (q : ReadyQueue κ) (k : κ) (now : UInt64) : ReadyQueue κ :=
  match q.since k with
  | none => q
  | some t =>
    { q with
      count := q.count + 1
      sum := q.sum + (now - t)
      max := keepMax q.max (now - t) }

def leave [DecidableEq κ] (q : ReadyQueue κ) (k : κ) : ReadyQueue κ :=
  { q with since := Function.update q.since k none }

def apply [DecidableEq κ] (q : ReadyQueue κ) : Op κ → ReadyQueue κ
  | .ready k now => q.ready k now
  | .run k now => q.run k now
  | .leave k => q.leave k

theorem run_of_none {q : ReadyQueue κ} {k : κ} (h : q.since k = none) (now : UInt64) :
    q.run k now = q := by
  rw [run, h]

theorem run_of_some {q : ReadyQueue κ} {k : κ} {t : UInt64} (h : q.since k = some t)
    (now : UInt64) :
    q.run k now =
      { q with
        count := q.count + 1
        sum := q.sum + (now - t)
        max := keepMax q.max (now - t) } := by
  rw [run, h]

/-- Two queues with the same sums, of which the second differs under one key. -/
theorem eq_update [DecidableEq κ] {q q' : ReadyQueue κ} {k : κ} {t : Option UInt64}
    (hself : q'.since k = t) (hother : ∀ k', k' ≠ k → q'.since k' = q.since k')
    (hcount : q'.count = q.count) (hsum : q'.sum = q.sum) (hmax : q'.max = q.max) :
    q' = { q with since := Function.update q.since k t } := by
  ext1
  · show q'.since = Function.update q.since k t
    exact Function.eq_update_iff.mpr ⟨hself, hother⟩
  · exact hcount
  · exact hsum
  · exact hmax

end ReadyQueue

end CpuSubsystem
