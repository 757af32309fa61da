import CpuSubsystem.CpuWatcher.Controller
import CpuSubsystem.ProcImage.Controller

/-!
# The control maps that the two controllers write

In each parser one case has no `break`: `-s` of `eBPF_proc_image` goes on into the case of the
schedule image, and `-P` of `cpu_watcher` into that of `cs_delay`.
-/

namespace CpuSubsystem

/-- In a list that lets the controller write, `-s` needs `-S` beside it and `-P` needs `-c`. A list
with another use mode or a refused option writes nothing. -/
theorem controllers_touch_named_iff (args : List ProcController.Opt)
    (watcherArgs : List WatcherController.Opt) :
    (TouchesNamed ProcController.Ctrl.image ProcController.Opt.image? args
        (ProcController.main args) ↔
      (ProcController.Runs args → (∃ n, .syscall n ∈ args) → .schedule ∈ args) ∧
      (¬ProcController.Runs args → ∀ o ∈ args, o.image? = none)) ∧
    (TouchesNamed WatcherController.Ctrl.tool WatcherController.Opt.tool? watcherArgs
        (WatcherController.main watcherArgs) ↔
      (WatcherController.Runs watcherArgs → .percent ∈ watcherArgs → .csDelay ∈ watcherArgs) ∧
      (¬WatcherController.Runs watcherArgs → ∀ o ∈ watcherArgs, o.tool? = none)) := by
  constructor
  · have hs : (∃ o ∈ args, ProcController.Opt.IsSyscall o) ↔ ∃ n, .syscall n ∈ args := by
      constructor
      · rintro ⟨o, ho, n, rfl⟩
        exact ⟨n, ho⟩
      · rintro ⟨n, hn⟩
        exact ⟨_, hn, n, rfl⟩
    have hS : (∃ o ∈ args, ProcController.Opt.image? o = some .schedule) ↔ .schedule ∈ args := by
      constructor
      · rintro ⟨o, ho, hi⟩
        cases o <;> cases hi
        exact ho
      · intro h
        exact ⟨_, h, rfl⟩
    rw [touchesNamed_iff _ _ (ProcController.mem_main args) ProcController.enables_iff, hs, hS]
  · have hP : (∃ o ∈ watcherArgs, o = WatcherController.Opt.percent) ↔
        .percent ∈ watcherArgs := by
      rw [exists_eq_right]
    have hc : (∃ o ∈ watcherArgs, WatcherController.Opt.tool? o = some .csDelay) ↔
        .csDelay ∈ watcherArgs := by
      constructor
      · rintro ⟨o, ho, ht⟩
        cases o <;> cases ht
        exact ho
      · intro h
        exact ⟨_, h, rfl⟩
    rw [touchesNamed_iff _ _ (WatcherController.mem_main watcherArgs)
      WatcherController.enables_iff, hP, hc]

/-- `-a -s 10` also writes the control map of the schedule image, and `-a -s -P` that of
`cs_delay`. -/
theorem unnamed_maps_written :
    (ProcController.Runs [.activate, .syscall 10] ∧
      ¬TouchesNamed ProcController.Ctrl.image ProcController.Opt.image? [.activate, .syscall 10]
        (ProcController.main [.activate, .syscall 10])) ∧
    (WatcherController.Runs [.activate, .libbpfSar, .percent] ∧
      ¬TouchesNamed WatcherController.Ctrl.tool WatcherController.Opt.tool?
        [.activate, .libbpfSar, .percent]
        (WatcherController.main [.activate, .libbpfSar, .percent])) := by
  refine ⟨⟨⟨?_, 1, rfl, .inl rfl⟩, fun h => ?_⟩, ⟨?_, 1, rfl, .inl rfl⟩, fun h => ?_⟩
  · simp [ProcController.Opt.Accepted, strtol]
  · obtain ⟨o, ho, hi⟩ := (h.written .schedule).mp (by decide)
    simp only [List.mem_cons, List.not_mem_nil, or_false] at ho
    rcases ho with rfl | rfl <;> cases hi
  · simp [WatcherController.Opt.Accepted]
  · obtain ⟨o, ho, ht⟩ := (h.written .csDelay).mp (by decide)
    simp only [List.mem_cons, List.not_mem_nil, or_false] at ho
    rcases ho with rfl | rfl | rfl <;> cases ht

end CpuSubsystem
