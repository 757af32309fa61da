import CpuSubsystem.CpuWatcher.Preempt.Printer
import CpuSubsystem.CpuWatcher.ScheduleDelay.History
import CpuSubsystem.CpuWatcher.ScheduleDelay.Agreement
import CpuSubsystem.CpuWatcher.ScheduleDelay.Printer

/-!
# The averages of `cpu_watcher`

Both tools that print an average divide by a counter. That of `preempt` is set back by every report,
that of `schedule_delay` counts all charges in a 64-bit word.
-/

namespace CpuSubsystem

namespace ScheduleDelay

variable {c : ScheduleCtrl} {tr : List Event} {s : State} {p : Printer}

/-- The counter counts the charges. -/
theorem sumCount_eq (c : ScheduleCtrl) (tr : List Event) :
    ((machine c).exec tr).sysSchedule.sumCount = UInt64.ofNat (charges c tr).length := by
  apply charges_run (P := fun chs s => s.sysSchedule.sumCount = UInt64.ofNat chs.length)
  · rfl
  · intro chs s e hch ih
    have hstep := step_charges s e
    rw [hch] at hstep
    rw [hstep.1, ih]
  · intro chs s e ch hch ih
    have hstep := step_charges s e
    rw [hch] at hstep
    rw [hstep.1, (charge_sums _ _ _).1, ih, List.length_append, List.length_singleton,
      UInt64.ofNat_add]
    rfl

theorem header_minUsSet (c : ScheduleCtrl) : (header c).1.minUsSet = c.minUsSet := by
  unfold header
  split
  · rfl
  · split <;> rfl

theorem printAverages_divideError {info : SumSchedule} :
    (printAverages info p).2.2 = .divideError ↔ info.sumCount = 0 := by
  unfold printAverages
  split
  · rename_i hzero
    simp [hzero]
  · rename_i hzero
    split <;> simp [hzero]

theorem printThreshold_divides {c : ScheduleCtrl} : (printThreshold c s p).2.2 ≠ .divideError := by
  unfold printThreshold
  repeat' split
  all_goals simp

/-- The call that ends with a division by zero. -/
theorem divideError_iff : (schedulePrint s p).2.2.2 = .divideError ↔
    s.scheduleCtrlMap.scheduleFunc = true ∧ s.scheduleCtrlMap.minUsSet = false ∧
      s.sysSchedule.sumCount = 0 := by
  unfold schedulePrint
  cases hfunc : s.scheduleCtrlMap.scheduleFunc with
  | false => simp
  | true =>
    have hmin := header_minUsSet s.scheduleCtrlMap
    cases hset : s.scheduleCtrlMap.minUsSet with
    | true => simp [hmin, hset, printThreshold_divides]
    | false => simp [hmin, hset, printAverages_divideError]

end ScheduleDelay

/-- The averages of `preempt` are the means of the polls after the first one exactly if each poll
can be counted and each of the later ones can be averaged; a call of `schedule_print` divides by
zero exactly if it prints averages while the counter of the charges is at 0. -/
theorem averages_defined_iff (batches : List (List Preempt.PreemptEvent))
    (c : ScheduleDelay.ScheduleCtrl) (tr : List ScheduleDelay.Event) (p : ScheduleDelay.Printer) :
    (Preempt.AveragesRight batches ↔
      (∀ batch ∈ batches, Preempt.Countable batch) ∧
        ∀ batch ∈ batches.tail, Preempt.Averageable batch) ∧
    let s := (ScheduleDelay.machine c).exec tr
    (ScheduleDelay.schedulePrint s p).2.2.2 = .divideError ↔
      s.scheduleCtrlMap.scheduleFunc = true ∧ s.scheduleCtrlMap.minUsSet = false ∧
        2 ^ 64 ∣ (ScheduleDelay.charges c tr).length := by
  refine ⟨Preempt.averagesRight_iff, ?_⟩
  intro s
  have hzero : s.sysSchedule.sumCount = 0 ↔ 2 ^ 64 ∣ (ScheduleDelay.charges c tr).length := by
    rw [ScheduleDelay.sumCount_eq, ← UInt64.toNat_inj, UInt64.toNat_ofNat']
    exact (Nat.dvd_iff_mod_eq_zero).symm
  rw [ScheduleDelay.divideError_iff, hzero]

/-- A poll without records after the first one, and a report before the first charge. -/
theorem empty_reports_divide :
    Preempt.passes [[], []] = .error .divideError ∧
    (ScheduleDelay.schedulePrint ((ScheduleDelay.machine ⟨true, false, 10000, 50⟩).exec [])
      ⟨false, []⟩).2.2.2 = .divideError :=
  ⟨rfl, rfl⟩

end CpuSubsystem
