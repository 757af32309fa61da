import CpuSubsystem.CpuWatcher.ScheduleDelay.Charges
import CpuSubsystem.ProcImage.ScheduleImage.Queue

/-!
# The two programs about scheduling delays agree

`sched_wakeup_new` overwrites an element here and updates it in the schedule image, the counters of
the tasks differ, and here a greatest delay is not considered as the least.  As ready queues the two
programs are the same.
-/

namespace CpuSubsystem.ScheduleDelay

def ProcId.key (k : ProcId) : Int × Int := (k.pid, k.cpuId)

def State.queue (s : State) : ReadyQueue (Int × Int) where
  since k := (s.enterSchedule.lookup ⟨k.1, k.2⟩).map ScheduleEvent.enterTime
  count := s.sysSchedule.sumCount
  sum := s.sysSchedule.sumDelay
  max := s.sysSchedule.maxDelay

def Event.Smooth : Event → Prop
  | .scheduleCtrl c => c.scheduleFunc = true
  | .schedWakeup _ _ _ rooms | .schedWakeupNew _ _ _ rooms | .schedSwitch _ _ _ _ rooms =>
    rooms.hasScheduled = true ∧ rooms.enterSchedule = true
  | .schedProcessExit _ _ => True

def Event.ops : Event → List (ReadyQueue.Op (Int × Int))
  | .scheduleCtrl _ => []
  | .schedWakeup p cpu now _ | .schedWakeupNew p cpu now _ => [.ready (procId p.pid cpu).key now]
  | .schedSwitch prev next cpu now _ =>
    (if prev.state = taskRunning then [.ready (procId prev.pid cpu).key now] else []) ++
      [.run (procId next.pid cpu).key now]
  | .schedProcessExit p cpu => [.leave (procId p.pid cpu).key]

/-- The tool is on, and a task has an element in both maps or in none. -/
structure Listed (s : State) : Prop where
  active : s.scheduleCtrlMap.scheduleFunc = true
  both : ∀ k, (s.hasScheduled.lookup k).isSome = (s.enterSchedule.lookup k).isSome

section Operations

variable {s : State} {pid cpu : Int} {now : UInt64} {rooms : Rooms} {prev next : Task}

theorem queue_eq_update {s s' : State} {k : ProcId} {t : Option UInt64}
    (hself : (s'.enterSchedule.lookup k).map ScheduleEvent.enterTime = t)
    (hother : ∀ k', k' ≠ k → s'.enterSchedule.lookup k' = s.enterSchedule.lookup k')
    (hsum : s'.sysSchedule = s.sysSchedule) :
    s'.queue = { s.queue with since := Function.update s.queue.since k.key t } := by
  apply ReadyQueue.eq_update
  · exact hself
  · intro x hx
    have hk : (⟨x.1, x.2⟩ : ProcId) ≠ k := by
      intro heq
      exact hx (by rw [← heq]; rfl)
    exact congrArg (Option.map ScheduleEvent.enterTime) (hother _ hk)
  · exact congrArg SumSchedule.sumCount hsum
  · exact congrArg SumSchedule.sumDelay hsum
  · exact congrArg SumSchedule.maxDelay hsum

theorem enlist_queue (hr : rooms.enterSchedule = true) :
    (enlist s pid cpu now rooms).queue = s.queue.ready (procId pid cpu).key now := by
  rw [enlist, hr, BpfMap.update_true]
  apply queue_eq_update
  · rw [BpfMap.lookup_store_self]
    rfl
  · exact fun k' hk => BpfMap.lookup_store_of_ne _ _ hk
  · rfl

theorem Listed.enlist (h : Listed s) (hh : rooms.hasScheduled = true)
    (hr : rooms.enterSchedule = true) : Listed (enlist s pid cpu now rooms) := by
  rw [ScheduleDelay.enlist, hh, hr, BpfMap.update_true, BpfMap.update_true]
  refine ⟨h.active, fun k => ?_⟩
  simp only [BpfMap.lookup_store]
  split
  · rfl
  · exact h.both k

theorem ready_queue (hr : rooms.enterSchedule = true) :
    (ready s pid cpu now rooms).queue = s.queue.ready (procId pid cpu).key now := by
  unfold ready
  split
  · exact enlist_queue hr
  · apply queue_eq_update
    · rw [BpfMap.lookup_store_self]
      rfl
    · exact fun k' hk => BpfMap.lookup_store_of_ne _ _ hk
    · rfl

theorem Listed.ready (h : Listed s) (hh : rooms.hasScheduled = true)
    (hr : rooms.enterSchedule = true) : Listed (ready s pid cpu now rooms) := by
  unfold ScheduleDelay.ready
  split
  · exact h.enlist hh hr
  · rename_i e hl
    refine ⟨h.active, fun k => ?_⟩
    simp only [BpfMap.lookup_store]
    split
    · rename_i hk
      rw [h.both, hk, hl]
      rfl
    · exact h.both k

/-- The least delay and the names apart, the sums of both programs are updated in the same way. -/
theorem charge_sums (t : SumSchedule) (next : Task) (delay : UInt64) :
    (t.charge next delay).sumCount = t.sumCount + 1 ∧
      (t.charge next delay).sumDelay = t.sumDelay + delay ∧
      (t.charge next delay).maxDelay = keepMax t.maxDelay delay := by
  unfold SumSchedule.charge keepMax
  by_cases hmax : delay > t.maxDelay
  · simp only [if_pos hmax]
    exact ⟨trivial, trivial, trivial⟩
  · simp only [if_neg hmax]
    split <;> exact ⟨rfl, rfl, rfl⟩

theorem charge_queue (h : Listed s) :
    (charge s prev next cpu now rooms).queue = s.queue.run (procId next.pid cpu).key now := by
  cases hl : s.enterSchedule.lookup (procId next.pid cpu) with
  | none =>
    rw [charge_skips _ _ _ _ _ (Or.inl hl), ReadyQueue.run_of_none]
    show Option.map _ (s.enterSchedule.lookup (procId next.pid cpu)) = none
    rw [hl]
    rfl
  | some e =>
    obtain ⟨issched, ha⟩ := Option.isSome_iff_exists.mp ((h.both _).trans (by rw [hl]; rfl))
    have hsince : s.queue.since (procId next.pid cpu).key = some e.enterTime := by
      show Option.map _ (s.enterSchedule.lookup (procId next.pid cpu)) = _
      rw [hl]
      rfl
    obtain ⟨hcount, hsum, hmax⟩ := charge_sums s.sysSchedule next (now - e.enterTime)
    rw [ReadyQueue.run_of_some hsince, charge_takes _ _ _ _ _ hl ha]
    ext1
    · funext k
      show Option.map _ (BpfMap.lookup (if issched then _ else _) _) =
        Option.map _ (s.enterSchedule.lookup _)
      split
      · rw [BpfMap.lookup_store]
        split
        · rename_i hk
          rw [hk, hl]
          rfl
        · rfl
      · rfl
    · exact hcount
    · exact hsum
    · exact hmax

/-- The elements that are written were there before. -/
theorem Listed.charge (h : Listed s) : Listed (charge s prev next cpu now rooms) := by
  cases hl : s.enterSchedule.lookup (procId next.pid cpu) with
  | none =>
    rw [charge_skips _ _ _ _ _ (Or.inl hl)]
    exact h
  | some e =>
    obtain ⟨issched, ha⟩ := Option.isSome_iff_exists.mp ((h.both _).trans (by rw [hl]; rfl))
    rw [charge_takes _ _ _ _ _ hl ha]
    refine ⟨h.active, fun k => ?_⟩
    have hboth := h.both k
    cases issched with
    | true =>
      simp only [if_true, BpfMap.lookup_store]
      split
      · rename_i hk
        rw [hk, ha]
        rfl
      · exact hboth
    | false =>
      simp only [Bool.false_eq_true, if_false, BpfMap.lookup_store]
      split
      · rename_i hk
        rw [hk, hl]
        rfl
      · exact hboth

theorem exit_queue {p : Task} :
    (schedProcessExit s p cpu).queue = s.queue.leave (procId p.pid cpu).key := by
  apply queue_eq_update
  · rw [schedProcessExit, BpfMap.lookup_delete_self]
    rfl
  · exact fun k' hk => BpfMap.lookup_delete_of_ne _ hk
  · rfl

theorem Listed.exit (h : Listed s) {p : Task} : Listed (schedProcessExit s p cpu) := by
  refine ⟨h.active, fun k => ?_⟩
  simp only [schedProcessExit, BpfMap.lookup_delete]
  split
  · rfl
  · exact h.both k

end Operations

theorem step_queue {s : State} {e : Event} (h : Listed s) (he : e.Smooth) :
    Listed (step s e) ∧ (step s e).queue = e.ops.foldl ReadyQueue.apply s.queue := by
  cases e with
  | scheduleCtrl c => exact ⟨⟨he, h.both⟩, rfl⟩
  | schedWakeup p cpu now rooms => exact ⟨h.ready he.1 he.2, ready_queue he.2⟩
  | schedWakeupNew p cpu now rooms =>
    rw [step, schedWakeupNew, if_pos h.active]
    exact ⟨h.enlist he.1 he.2, enlist_queue he.2⟩
  | schedSwitch prev next cpu now rooms =>
    rw [step, schedSwitch, requeue, Event.ops]
    by_cases hrun : prev.state = taskRunning
    · have hprev : Listed (ready s prev.pid cpu now rooms) := h.ready he.1 he.2
      rw [if_pos hrun, if_pos hrun]
      refine ⟨hprev.charge, ?_⟩
      rw [charge_queue hprev, ready_queue he.2]
      rfl
    · rw [if_neg hrun, if_neg hrun]
      exact ⟨h.charge, charge_queue h⟩
  | schedProcessExit p cpu => exact ⟨h.exit, exit_queue⟩

theorem run_queue {c : ScheduleCtrl} (hc : c.scheduleFunc = true) {tr : List Event}
    (h : ∀ e ∈ tr, e.Smooth) :
    ((machine c).exec tr).queue = (tr.flatMap Event.ops).foldl ReadyQueue.apply .empty :=
  ((machine c).refines (P := Listed) ⟨hc, fun _ => rfl⟩ (fun _ _ => step_queue) h).2

/-! ## What happens, as either program sees it -/

/-- What both programs together read of a `task_struct`. -/
structure SchedTask where
  pid : Int
  tgid : Int
  prio : Int
  state : Nat
  comm : Comm

def SchedTask.image (p : SchedTask) : ScheduleImage.Task := ⟨p.pid, p.tgid, p.prio, p.state⟩

def SchedTask.delay (p : SchedTask) : Task := ⟨p.pid, p.state, p.comm⟩

inductive Occurrence where
  | controls (c : ScheduleImage.SchedCtrl) (d : ScheduleCtrl)
  | schedWakeup (p : SchedTask) (cpu : Int) (now : UInt64)
  | schedWakeupNew (p : SchedTask) (cpu : Int) (now : UInt64)
  | schedSwitch (prev next : SchedTask) (cpu : Int) (now : UInt64)
  | schedProcessExit (p : SchedTask) (cpu : Int)

/-- No update is refused. -/
def Occurrence.image : Occurrence → ScheduleImage.Event
  | .controls c _ => .schedCtrl c
  | .schedWakeup p cpu now => .schedWakeup p.image cpu now ⟨true, true, true⟩
  | .schedWakeupNew p cpu now => .schedWakeupNew p.image cpu now ⟨true, true, true⟩
  | .schedSwitch prev next cpu now => .schedSwitch prev.image next.image cpu now ⟨true, true, true⟩
  | .schedProcessExit p cpu => .schedProcessExit p.image cpu

def Occurrence.delay : Occurrence → Event
  | .controls _ d => .scheduleCtrl d
  | .schedWakeup p cpu now => .schedWakeup p.delay cpu now ⟨true, true, true⟩
  | .schedWakeupNew p cpu now => .schedWakeupNew p.delay cpu now ⟨true, true, true⟩
  | .schedSwitch prev next cpu now => .schedSwitch prev.delay next.delay cpu now ⟨true, true, true⟩
  | .schedProcessExit p cpu => .schedProcessExit p.delay cpu

/-- A control value leaves both tools on. -/
def Occurrence.Active : Occurrence → Prop
  | .controls c d => c.schedFunc = true ∧ d.scheduleFunc = true
  | _ => True

theorem Occurrence.smooth {o : Occurrence} (h : o.Active) : o.image.Smooth ∧ o.delay.Smooth := by
  cases o with
  | controls c d => exact h
  | schedWakeup p cpu now => exact ⟨⟨rfl, rfl⟩, ⟨rfl, rfl⟩⟩
  | schedWakeupNew p cpu now => exact ⟨⟨rfl, rfl⟩, ⟨rfl, rfl⟩⟩
  | schedSwitch prev next cpu now => exact ⟨⟨rfl, rfl⟩, ⟨rfl, rfl⟩⟩
  | schedProcessExit p cpu => exact ⟨trivial, trivial⟩

theorem Occurrence.same_ops (o : Occurrence) : o.image.ops = o.delay.ops := by
  cases o <;> rfl

/-- The same key in the schedule image. -/
def ProcId.image (k : ProcId) : ScheduleImage.ProcId := ⟨k.pid, k.cpuId⟩

/-- The same tasks are tracked, ready since the same times, and the sums are the same. -/
structure Agree (s : ScheduleImage.State) (t : State) : Prop where
  tracked : ∀ k : ProcId, k.image ∈ s.procSchedule.keys ↔ k ∈ t.enterSchedule.keys
  enterTime : ∀ (k : ProcId) e e', s.procSchedule.lookup k.image = some e →
    t.enterSchedule.lookup k = some e' → e.enterTime = e'.enterTime
  sumCount : s.sysSchedule.sumCount = t.sysSchedule.sumCount
  sumDelay : s.sysSchedule.sumDelay = t.sysSchedule.sumDelay
  maxDelay : s.sysSchedule.maxDelay = t.sysSchedule.maxDelay

theorem agree_of_queue {s : ScheduleImage.State} {t : State} (h : s.queue = t.queue) :
    Agree s t := by
  have hsince : ∀ k : ProcId,
      (s.procSchedule.lookup k.image).map ScheduleImage.ScheduleEvent.enterTime =
        (t.enterSchedule.lookup k).map ScheduleEvent.enterTime :=
    fun k => congrFun (congrArg ReadyQueue.since h) k.key
  refine ⟨fun k => ?_, fun k e e' he he' => ?_, congrArg ReadyQueue.count h,
    congrArg ReadyQueue.sum h, congrArg ReadyQueue.max h⟩
  · have hsome := congrArg Option.isSome (hsince k)
    rw [Option.isSome_map, Option.isSome_map] at hsome
    rw [BpfMap.mem_keys, BpfMap.mem_keys, hsome]
  · have hk := hsince k
    rw [he, he'] at hk
    exact Option.some.inj hk

/-- In every run during which both tools are on, after every event. -/
theorem programs_agree (c : ScheduleImage.SchedCtrl) (d : ScheduleCtrl)
    (hc : c.schedFunc = true) (hd : d.scheduleFunc = true) (tr : List Occurrence)
    (h : ∀ o ∈ tr, o.Active) (pre : List Occurrence) (hp : pre <+: tr) :
    Agree ((ScheduleImage.machine c).exec (pre.map Occurrence.image))
      ((machine d).exec (pre.map Occurrence.delay)) := by
  have hpre : ∀ o ∈ pre, o.Active := fun o ho => h o (hp.subset ho)
  -- both are the same queue after the same operations
  apply agree_of_queue
  rw [ScheduleImage.run_queue hc, run_queue hd, List.flatMap_map, List.flatMap_map]
  · congr 2
    funext o
    exact o.same_ops
  · intro e he
    obtain ⟨o, ho, rfl⟩ := List.mem_map.mp he
    exact (Occurrence.smooth (hpre o ho)).2
  · intro e he
    obtain ⟨o, ho, rfl⟩ := List.mem_map.mp he
    exact (Occurrence.smooth (hpre o ho)).1

section Sample

/-- A task is woken twice, as new the second time, runs, is preempted and runs again. -/
def wokenTwice : List Occurrence :=
  [.schedWakeup ⟨5, 4, 120, 1, Comm.none⟩ 0 100,
    .schedWakeupNew ⟨5, 4, 120, 1, Comm.none⟩ 0 150,
    .schedSwitch ⟨0, 0, 120, 1, Comm.none⟩ ⟨5, 4, 120, 0, Comm.none⟩ 0 170,
    .schedSwitch ⟨5, 4, 120, 0, Comm.none⟩ ⟨0, 0, 120, 0, Comm.none⟩ 0 200,
    .schedSwitch ⟨0, 0, 120, 0, Comm.none⟩ ⟨5, 4, 120, 0, Comm.none⟩ 0 300]

theorem programs_agree_wokenTwice :
    Agree ((ScheduleImage.machine ⟨true, -1, -1, -1⟩).exec (wokenTwice.map Occurrence.image))
      ((machine ⟨true, false, 0, 0⟩).exec (wokenTwice.map Occurrence.delay)) :=
  programs_agree ⟨true, -1, -1, -1⟩ ⟨true, false, 0, 0⟩ rfl rfl wokenTwice
    (by simp [wokenTwice, Occurrence.Active]) wokenTwice List.prefix_rfl

end Sample

end CpuSubsystem.ScheduleDelay
