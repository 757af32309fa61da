import CpuSubsystem.Lib.ReadyQueue
import CpuSubsystem.ProcImage.ScheduleImage.Model

/-!
# Schedule image as a queue of ready tasks

While the tool is on and no update is refused, `proc_schedule` and `sys_schedule` are a ready queue.
-/

namespace CpuSubsystem.ScheduleImage

/-- The fields of the key. -/
def ProcId.key (k : ProcId) : Int × Int := (k.pid, k.cpuId)

def State.queue (s : State) : ReadyQueue (Int × Int) where
  since k := (s.procSchedule.lookup ⟨k.1, k.2⟩).map ScheduleEvent.enterTime
  count := s.sysSchedule.sumCount
  sum := s.sysSchedule.sumDelay
  max := s.sysSchedule.maxDelay

/-- The maps have room, and the control keeps the tool on. -/
def Event.Smooth : Event → Prop
  | .schedCtrl c => c.schedFunc = true
  | .schedWakeup _ _ _ rooms | .schedWakeupNew _ _ _ rooms | .schedSwitch _ _ _ _ rooms =>
    rooms.enableAdd = true ∧ rooms.procSchedule = true
  | .schedProcessExit _ _ => True

def Event.ops : Event → List (ReadyQueue.Op (Int × Int))
  | .schedCtrl _ => []
  | .schedWakeup p cpu now _ | .schedWakeupNew p cpu now _ => [.ready (procId p.pid cpu).key now]
  | .schedSwitch prev next cpu now _ =>
    (if prev.state = taskRunning then [.ready (procId prev.pid cpu).key now] else []) ++
      [.run (procId next.pid cpu).key now]
  | .schedProcessExit p cpu => [.leave (procId p.pid cpu).key]

/-- The tool is on, and a task has an element in both maps or in none. -/
structure Listed (s : State) : Prop where
  active : s.schedCtrlMap.schedFunc = true
  both : ∀ k, (s.enableAdd.lookup k).isSome = (s.procSchedule.lookup k).isSome

section Operations

variable {s : State} {p : Task} {cpu : Int} {now : UInt64} {rooms : Rooms}

/-- Two states with the same sums, of which the second differs under one key. -/
theorem queue_eq_update {s s' : State} {k : ProcId} {t : Option UInt64}
    (hself : (s'.procSchedule.lookup k).map ScheduleEvent.enterTime = t)
    (hother : ∀ k', k' ≠ k → s'.procSchedule.lookup k' = s.procSchedule.lookup k')
    (hsum : s'.sysSchedule = s.sysSchedule) :
    s'.queue = { s.queue with since := Function.update s.queue.since k.key t } := by
  apply ReadyQueue.eq_update
  · exact hself
  · intro x hx
    have hk : (⟨x.1, x.2⟩ : ProcId) ≠ k := by
      intro heq
      exact hx (by rw [← heq]; rfl)
    exact congrArg (Option.map ScheduleEvent.enterTime) (hother _ hk)
  · exact congrArg SumSchedule.sumCount hsum
  · exact congrArg SumSchedule.sumDelay hsum
  · exact congrArg SumSchedule.maxDelay hsum

theorem ready_queue (hp : rooms.procSchedule = true) :
    (ready s p cpu now rooms).queue = s.queue.ready (procId p.pid cpu).key now := by
  cases hl : s.procSchedule.lookup (procId p.pid cpu) with
  | none =>
    rw [ready_of_none s p cpu now rooms hl, hp, BpfMap.update_true]
    apply queue_eq_update
    · rw [BpfMap.lookup_store_self]
      rfl
    · exact fun k' hk => BpfMap.lookup_store_of_ne _ _ hk
    · rfl
  | some e =>
    rw [ready_of_some s p cpu now rooms hl]
    apply queue_eq_update
    · rw [BpfMap.lookup_store_self]
      rfl
    · exact fun k' hk => BpfMap.lookup_store_of_ne _ _ hk
    · rfl

theorem Listed.ready (h : Listed s) (ha : rooms.enableAdd = true) (hp : rooms.procSchedule = true) :
    Listed (ready s p cpu now rooms) where
  active := by rw [ready_ctrl, h.active]
  both k := by
    cases hl : s.procSchedule.lookup (procId p.pid cpu) with
    | none =>
      rw [ready_of_none s p cpu now rooms hl, ha, hp, BpfMap.update_true, BpfMap.update_true]
      simp only [BpfMap.lookup_store]
      split
      · rfl
      · exact h.both k
    | some e =>
      rw [ready_of_some s p cpu now rooms hl]
      simp only [BpfMap.lookup_store]
      split
      · rename_i hk
        rw [h.both, hk, hl]
        rfl
      · exact h.both k

theorem charge_queue (h : Listed s) :
    (charge s p cpu now rooms).queue = s.queue.run (procId p.pid cpu).key now := by
  cases hl : s.procSchedule.lookup (procId p.pid cpu) with
  | none =>
    rw [charge_of_none s p cpu now rooms hl, ReadyQueue.run_of_none]
    show Option.map _ (s.procSchedule.lookup (procId p.pid cpu)) = none
    rw [hl]
    rfl
  | some e =>
    obtain ⟨added, ha⟩ := Option.isSome_iff_exists.mp ((h.both _).trans (by rw [hl]; rfl))
    have hsince : s.queue.since (procId p.pid cpu).key = some e.enterTime := by
      show Option.map _ (s.procSchedule.lookup (procId p.pid cpu)) = _
      rw [hl]
      rfl
    rw [charge_of_some s p cpu now rooms hl ha, ReadyQueue.run_of_some hsince]
    -- the times at which the tasks became ready stay
    ext1
    · funext k
      show Option.map _ (BpfMap.lookup _ _) = Option.map _ (BpfMap.lookup _ _)
      rw [BpfMap.lookup_store]
      split
      · rename_i hk
        rw [hk, hl]
        rfl
      · rfl
    · rfl
    · rfl
    · rfl

theorem Listed.charge (h : Listed s) : Listed (charge s p cpu now rooms) where
  active := by rw [charge_ctrl, h.active]
  both k := by
    rcases charge_cases s p cpu now rooms with ⟨hsame, -⟩ | ⟨e, added, hl, ha⟩
    · rw [hsame]
      exact h.both k
    · rw [charge_of_some s p cpu now rooms hl ha]
      simp only [BpfMap.lookup_store]
      split
      · rfl
      · exact h.both k

theorem exit_queue (h : Listed s) :
    (schedProcessExit s p cpu).queue = s.queue.leave (procId p.pid cpu).key := by
  rw [schedProcessExit, if_pos h.active]
  apply queue_eq_update
  · rw [BpfMap.lookup_delete_self]
    rfl
  · exact fun k' hk => BpfMap.lookup_delete_of_ne _ hk
  · rfl

theorem Listed.exit (h : Listed s) : Listed (schedProcessExit s p cpu) := by
  rw [schedProcessExit, if_pos h.active]
  refine ⟨h.active, fun k => ?_⟩
  simp only [BpfMap.lookup_delete]
  split
  · rfl
  · exact h.both k

end Operations

theorem step_queue {s : State} {e : Event} (h : Listed s) (he : e.Smooth) :
    Listed (step s e) ∧ (step s e).queue = e.ops.foldl ReadyQueue.apply s.queue := by
  cases e with
  | schedCtrl c => exact ⟨⟨he, h.both⟩, rfl⟩
  | schedWakeup p cpu now rooms =>
    rw [step, schedWakeup, if_pos h.active]
    exact ⟨h.ready he.1 he.2, ready_queue he.2⟩
  | schedWakeupNew p cpu now rooms =>
    rw [step, schedWakeupNew, if_pos h.active]
    exact ⟨h.ready he.1 he.2, ready_queue he.2⟩
  | schedSwitch prev next cpu now rooms =>
    rw [step, schedSwitch, if_pos h.active, Event.ops]
    by_cases hrun : prev.state = taskRunning
    · have hprev : Listed (ready s prev cpu now rooms) := h.ready he.1 he.2
      rw [if_pos hrun, if_pos hrun]
      refine ⟨hprev.charge, ?_⟩
      rw [charge_queue hprev, ready_queue he.2]
      rfl
    · rw [if_neg hrun, if_neg hrun]
      exact ⟨h.charge, charge_queue h⟩
  | schedProcessExit p cpu => exact ⟨h.exit, exit_queue h⟩

theorem run_queue {c : SchedCtrl} (hc : c.schedFunc = true) {tr : List Event}
    (h : ∀ e ∈ tr, e.Smooth) :
    ((machine c).exec tr).queue = (tr.flatMap Event.ops).foldl ReadyQueue.apply .empty :=
  ((machine c).refines (P := Listed) ⟨hc, fun _ => rfl⟩ (fun _ _ => step_queue) h).2

end CpuSubsystem.ScheduleImage
