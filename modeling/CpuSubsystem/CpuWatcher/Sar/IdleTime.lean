import CpuSubsystem.CpuWatcher.Sar.Model
import CpuSubsystem.Lib.Calls
import Mathlib.Algebra.BigOperators.Group.Finset.Piecewise
import Mathlib.Data.UInt

/-!
# Idle time of the CPUs

A CPU that enters an idle state leaves its time in `idleStart`, one that leaves it adds what has
passed since.  The time 0 stands for an entry that was not observed, so the clock must not read 0:
it is the time since boot.
-/

namespace CpuSubsystem.Sar

/-- The idle periods of a CPU. -/
def idle (cpu : Nat) : Event → Option (Probe UInt64 UInt64)
  | .cpuIdle cpuId state time =>
    if cpuId = cpu then some (if state = 2 ^ 32 - 1 then .exit time else .enter time) else none
  | _ => none

def Event.idles : Event → Option (Nat × UInt64)
  | .cpuIdle cpuId _ time => some (cpuId, time)
  | _ => none

/-- The CPUs are numbered below `n`, each enters and leaves idle states in turn, and the clock runs
since boot. -/
structure IdleRun (n : Nat) (tr : List Event) : Prop where
  within : ∀ e ∈ tr, ∀ i ∈ e.idles, i.1 < n
  alternating : ∀ cpu < n, Alternating (idle cpu) tr
  booted : ∀ e ∈ tr, ∀ i ∈ e.idles, i.2 ≠ 0

/-- The time of the idle periods of a CPU whose beginning and end were observed. -/
def idleTime (cpu : Nat) (tr : List Event) : UInt64 :=
  ((calls (idle cpu) tr).completed.map fun i => i.2 - i.1).sum

section Run

variable {forksAddr : UInt64} {c : SarCtrl} {n cpu : Nat} {pre tr : List Event} {e : Event}
  {s : State} {state : Nat} {time : UInt64}

theorem IdleRun.restrict (h : IdleRun n tr) (hp : pre <+: tr) : IdleRun n pre where
  within e he := h.within e (hp.subset he)
  alternating cpu hcpu := (h.alternating cpu hcpu).restrict hp
  booted e he := h.booted e (hp.subset he)

theorem idle_enter (hstate : state ≠ 2 ^ 32 - 1) :
    idle cpu (.cpuIdle cpu state time) = some (.enter time) := by
  show (if cpu = cpu then some (if state = 2 ^ 32 - 1 then _ else _) else none) = _
  rw [if_pos rfl, if_neg hstate]

theorem idle_exit : idle cpu (.cpuIdle cpu (2 ^ 32 - 1) time) = some (.exit time) := by
  show (if cpu = cpu then some (if _ then _ else _) else none) = _
  rw [if_pos rfl, if_pos rfl]

theorem idle_other {k : Nat} (hk : k ≠ cpu) : idle cpu (.cpuIdle k state time) = none :=
  if_neg hk

theorem traceCpuIdle_enter (s : State) (cpu : Nat) (time : UInt64) (hstate : state ≠ 2 ^ 32 - 1) :
    traceCpuIdle s cpu state time = { s with idleStart := s.idleStart.update cpu time } := by
  rw [traceCpuIdle, if_neg hstate]

/-- The time 0 is not counted from. -/
theorem traceCpuIdle_exit (s : State) {start : UInt64}
    (hstart : s.idleStart.lookup cpu = some start) :
    traceCpuIdle s cpu (2 ^ 32 - 1) time =
      { s with idleLastTime := s.idleLastTime + if start ≠ 0 then time - start else 0 } := by
  rw [traceCpuIdle, if_pos rfl, hstart]
  show (if start ≠ 0 then _ else s) = _
  by_cases hzero : start = 0
  · rw [if_neg (not_not.mpr hzero), if_neg (not_not.mpr hzero), add_zero]
  · rw [if_pos hzero, if_pos hzero]

/-- Only the idle probe has a part in the idle time. -/
theorem step_idles_none (forksAddr : UInt64) (s : State) (he : e.idles = none) :
    (step forksAddr s e).idleStart = s.idleStart ∧
      (step forksAddr s e).idleLastTime = s.idleLastTime := by
  cases e with
  | cpuIdle _ _ _ => cases he
  | schedSwitch cpu prev next time =>
    obtain ⟨start, count, hframe⟩ := traceSchedSwitch2_frame s prev next time
    simp only [step, hframe, and_self]
  | finishTaskSwitch cpu prev time =>
    obtain ⟨kt, ut, hframe⟩ := finishTaskSwitch_frame s prev time
    simp only [step, hframe, and_self]
  | _ => exact ⟨rfl, rfl⟩

theorem idle_of_idles_none (he : e.idles = none) : idle cpu e = none := by
  cases e with
  | cpuIdle _ _ _ => cases he
  | _ => rfl

/-- The place of a CPU holds its latest entry, 0 before the first; the sum is that of the
periods. -/
structure Idled (n : Nat) (tr : List Event) (s : State) : Prop where
  place : ∀ cpu < n, Remembers (idle cpu) (some 0) (s.idleStart.lookup cpu) tr
  started : ∀ cpu start, (calls (idle cpu) tr).pending = some start → start ≠ 0
  total : s.idleLastTime = ∑ cpu ∈ Finset.range n, idleTime cpu tr

theorem idleTime_skip (he : idle cpu e = none) : idleTime cpu (pre ++ [e]) = idleTime cpu pre := by
  rw [idleTime, calls_snoc_skip he, idleTime]

theorem idleTime_enter (he : idle cpu e = some (.enter time)) :
    idleTime cpu (pre ++ [e]) = idleTime cpu pre := by
  rw [idleTime, calls_snoc he]
  rfl

/-- What the end of a period adds: nothing when its beginning was not observed. -/
theorem idleTime_exit (he : idle cpu e = some (.exit time)) :
    idleTime cpu (pre ++ [e]) = idleTime cpu pre +
      ((calls (idle cpu) pre).pending.map fun start => time - start).getD 0 := by
  rw [idleTime, calls_snoc he, Calls.step, idleTime]
  cases (calls (idle cpu) pre).pending with
  | none => simp
  | some start => simp

theorem Idled.other (h : Idled n pre s) (he : e.idles = none) :
    Idled n (pre ++ [e]) (step forksAddr s e) := by
  obtain ⟨hstart, htotal⟩ := step_idles_none forksAddr s he
  have hview : ∀ cpu, idle cpu e = none := fun cpu => idle_of_idles_none he
  refine ⟨?_, ?_, ?_⟩
  · intro cpu hcpu
    rw [hstart]
    exact (h.place cpu hcpu).skip (hview cpu)
  · intro cpu start hpending
    rw [calls_snoc_skip (hview cpu)] at hpending
    exact h.started cpu start hpending
  · rw [htotal, h.total]
    exact Finset.sum_congr rfl fun cpu _ => (idleTime_skip (hview cpu)).symm

theorem Idled.enter (h : Idled n pre s) (hn : n ≤ 128) (hcpu : cpu < n) (htime : time ≠ 0)
    (hstate : state ≠ 2 ^ 32 - 1) :
    Idled n (pre ++ [Event.cpuIdle cpu state time]) (traceCpuIdle s cpu state time) := by
  have hview : idle cpu (.cpuIdle cpu state time) = some (.enter time) := idle_enter hstate
  rw [traceCpuIdle_enter s cpu time hstate]
  refine ⟨?_, ?_, ?_⟩
  · intro k hk
    by_cases hsame : cpu = k
    · subst hsame
      show Remembers _ _ ((s.idleStart.update cpu time).lookup cpu) _
      rw [BpfArray.lookup_update_self _ _ (by omega)]
      exact .enter hview
    · show Remembers _ _ ((s.idleStart.update cpu time).lookup k) _
      rw [BpfArray.lookup_update_of_ne _ _ (Ne.symm hsame)]
      exact (h.place k hk).skip (idle_other hsame)
  · intro k start hpending
    by_cases hsame : cpu = k
    · subst hsame
      rw [calls_snoc hview] at hpending
      cases hpending
      exact htime
    · rw [calls_snoc_skip (idle_other hsame)] at hpending
      exact h.started k start hpending
  · show s.idleLastTime = _
    rw [h.total]
    apply Finset.sum_congr rfl
    intro k _
    by_cases hsame : cpu = k
    · subst hsame
      exact (idleTime_enter hview).symm
    · exact (idleTime_skip (idle_other hsame)).symm

theorem Idled.exit (h : Idled n pre s) (hcpu : cpu < n)
    (halt : Alternating (idle cpu) (pre ++ [Event.cpuIdle cpu (2 ^ 32 - 1) time])) :
    Idled n (pre ++ [Event.cpuIdle cpu (2 ^ 32 - 1) time])
      (traceCpuIdle s cpu (2 ^ 32 - 1) time) := by
  have hview : idle cpu (.cpuIdle cpu (2 ^ 32 - 1) time) = some (.exit time) := idle_exit
  -- what is counted is due: the stored time is that of the period, or 0 if there was none
  obtain ⟨start, hstart, hdue⟩ : ∃ start, s.idleStart.lookup cpu = some start ∧
      (if start ≠ 0 then time - start else 0) =
        ((calls (idle cpu) pre).pending.map fun start => time - start).getD 0 := by
    rcases (h.place cpu hcpu).returns halt hview with ⟨start, hpending, hheld⟩ | ⟨hidle, hheld⟩
    · refine ⟨start, hheld, ?_⟩
      rw [hpending, if_pos (h.started cpu start hpending)]
      rfl
    · refine ⟨0, hheld, ?_⟩
      rw [hidle]
      rfl
  have htime : ∀ k, idleTime k (pre ++ [Event.cpuIdle cpu (2 ^ 32 - 1) time]) = idleTime k pre +
      if cpu = k then if start ≠ 0 then time - start else 0 else 0 := by
    intro k
    by_cases hsame : cpu = k
    · subst hsame
      rw [if_pos rfl, hdue, idleTime_exit hview]
    · rw [if_neg hsame, add_zero, idleTime_skip (idle_other hsame)]
  rw [traceCpuIdle_exit s hstart]
  refine ⟨?_, ?_, ?_⟩
  · intro k hk
    by_cases hsame : cpu = k
    · subst hsame
      exact .exit hview
    · exact (h.place k hk).skip (idle_other hsame)
  · intro k a hpending
    by_cases hsame : cpu = k
    · subst hsame
      rw [calls_snoc hview, Calls.step] at hpending
      cases hp : (calls (idle cpu) pre).pending with
      | none =>
        rw [hp] at hpending
        exact absurd (hp.symm.trans hpending) (by simp)
      | some b =>
        rw [hp] at hpending
        cases hpending
    · rw [calls_snoc_skip (idle_other hsame)] at hpending
      exact h.started k a hpending
  · show s.idleLastTime + _ = _
    rw [h.total, Finset.sum_congr rfl fun k _ => htime k, Finset.sum_add_distrib,
      Finset.sum_ite_eq, if_pos (Finset.mem_range.mpr hcpu)]

theorem idled (forksAddr : UInt64) (c : SarCtrl) (hn : n ≤ 128) (h : IdleRun n tr) :
    Idled n tr ((machine forksAddr c).exec tr) := by
  induction tr using List.reverseRecOn with
  | nil =>
    refine ⟨fun cpu hcpu => ?_, fun cpu start hpending => ?_, ?_⟩
    · show Remembers _ _ ((BpfArray.replicate 0 : BpfArray 128 UInt64).lookup cpu) _
      rw [BpfArray.lookup_replicate 0 (by omega)]
      exact .nil
    · cases hpending
    · exact (Finset.sum_eq_zero fun _ _ => rfl).symm
  | append_singleton pre e ih =>
    have hpre := ih (h.restrict (List.prefix_append pre [e]))
    have hmem : e ∈ pre ++ [e] := List.mem_append_right pre (List.mem_singleton_self e)
    rw [exec_snoc]
    cases he : e.idles with
    | none => exact hpre.other he
    | some i =>
      cases e with
      | cpuIdle cpu state time =>
        have hcpu : cpu < n := h.within _ hmem (cpu, time) rfl
        have htime : time ≠ 0 := h.booted _ hmem (cpu, time) rfl
        by_cases hstate : state = 2 ^ 32 - 1
        · subst hstate
          exact hpre.exit hcpu (h.alternating cpu hcpu)
        · exact hpre.enter hn hcpu htime hstate
      | _ => cases he

/-- For every number of CPUs that the map has places for, every interleaving of their idle events
and every other event in between: the accumulated idle time is the sum of the idle periods. -/
theorem idle_time (forksAddr : UInt64) (c : SarCtrl) (n : Nat) (hn : n ≤ 128) (tr : List Event)
    (h : IdleRun n tr) :
    ((machine forksAddr c).exec tr).idleLastTime = ∑ cpu ∈ Finset.range n, idleTime cpu tr :=
  (idled forksAddr c hn h).total

/-- CPU 1 is idle from before the first event on; CPU 0 is idle twice, once across an interrupt and
once while CPU 1 is idle again. -/
def twoIdle : List Event :=
  [.cpuIdle 0 1 10, .irqHandlerEntry 0 40 15 true, .cpuIdle 1 (2 ^ 32 - 1) 20,
    .irqHandlerExit 0 40 22, .cpuIdle 0 (2 ^ 32 - 1) 30, .cpuIdle 1 3 35, .cpuIdle 0 0 40,
    .cpuIdle 1 (2 ^ 32 - 1) 45, .cpuIdle 0 (2 ^ 32 - 1) 60]

theorem idle_time_twoIdle :
    ((machine 0 ⟨true, false, 0⟩).exec twoIdle).idleLastTime =
      ∑ cpu ∈ Finset.range 2, idleTime cpu twoIdle :=
  idle_time 0 ⟨true, false, 0⟩ 2 (by decide) twoIdle ⟨by decide, by decide, by decide⟩

end Run

end CpuSubsystem.Sar
