import CpuSubsystem.CpuWatcher.ScheduleDelay.Model
import CpuSubsystem.Lib.Latest

/-!
# What is charged

A switch charges the task that gets the CPU with the time since it became ready, if both maps have
an element for it.  While the tool is active and every update succeeds, the elements say when a task
became ready since its last exit.
-/

namespace CpuSubsystem.ScheduleDelay

/-- A delay is charged to `next`, which replaces `prev` on the CPU. -/
structure Charge where
  prev : Task
  next : Task
  cpu : Int
  delay : UInt64
deriving DecidableEq

def Charge.id (ch : Charge) : ProcId := procId ch.next.pid ch.cpu

/-- Whether `proc_histories` has room for a new key. -/
def Event.room : Event → Bool
  | .schedSwitch _ _ _ _ rooms => rooms.procHistories
  | _ => false

/-- The charge that an event makes in a state. -/
def State.charges (s : State) : Event → Option Charge
  | .schedSwitch prev next cpu now rooms =>
    let s := requeue s prev cpu now rooms
    if (s.hasScheduled.lookup (procId next.pid cpu)).isSome then
      (s.enterSchedule.lookup (procId next.pid cpu)).map fun e =>
        ⟨prev, next, cpu, now - e.enterTime⟩
    else none
  | _ => none

/-- All charges of a run. -/
def charges (c : ScheduleCtrl) (tr : List Event) : List Charge :=
  collect (fun pre e => ((machine c).exec pre).charges e) tr

section Cases

variable (s : State) (prev next : Task) (cpu : Int) (now : UInt64) (rooms : Rooms)

theorem charge_skips {s : State} (h : s.enterSchedule.lookup (procId next.pid cpu) = none ∨
    s.hasScheduled.lookup (procId next.pid cpu) = none) : charge s prev next cpu now rooms = s := by
  unfold charge
  rcases h with h | h
  · simp only [h]
  · simp only [h]
    split <;> rfl

theorem charge_takes {s : State} {e : ScheduleEvent} {issched : Bool}
    (he : s.enterSchedule.lookup (procId next.pid cpu) = some e)
    (hs : s.hasScheduled.lookup (procId next.pid cpu) = some issched) :
    charge s prev next cpu now rooms =
      { s with
        enterSchedule :=
          if issched then
            s.enterSchedule.store (procId next.pid cpu) { e with count := toInt (e.count + 1) }
          else s.enterSchedule
        hasScheduled :=
          if issched then s.hasScheduled else s.hasScheduled.store (procId next.pid cpu) true
        thresholdSchedule := s.thresholdSchedule.update 0
          ⟨procId next.pid cpu, now - e.enterTime, next.comm⟩
        sysSchedule := s.sysSchedule.charge next (now - e.enterTime)
        procHistories := s.procHistories.update rooms.procHistories (procId next.pid cpu)
          (ProcHistory.push (s.procHistories.lookup (procId next.pid cpu)) prev) } := by
  simp only [charge, he, hs]

/-- To become ready touches the two elements of the task only. -/
theorem ready_frame (pid : Int) : ∃ enter has, ready s pid cpu now rooms =
    { s with enterSchedule := enter, hasScheduled := has } := by
  unfold ready enlist
  split <;> exact ⟨_, _, rfl⟩

theorem requeue_frame : ∃ enter has, requeue s prev cpu now rooms =
    { s with enterSchedule := enter, hasScheduled := has } := by
  unfold requeue
  split
  · exact ready_frame s cpu now rooms prev.pid
  · exact ⟨_, _, rfl⟩

/-- What an event does to the maps that user space reads follows from what it charges. -/
theorem step_charges (s : State) (e : Event) :
    match s.charges e with
    | none => (step s e).sysSchedule = s.sysSchedule ∧
        (step s e).thresholdSchedule = s.thresholdSchedule ∧
        (step s e).procHistories = s.procHistories
    | some ch => (step s e).sysSchedule = s.sysSchedule.charge ch.next ch.delay ∧
        (step s e).thresholdSchedule =
          s.thresholdSchedule.update 0 ⟨ch.id, ch.delay, ch.next.comm⟩ ∧
        (step s e).procHistories = s.procHistories.update e.room ch.id
          (ProcHistory.push (s.procHistories.lookup ch.id) ch.prev) := by
  cases e with
  | scheduleCtrl c => exact ⟨rfl, rfl, rfl⟩
  | schedProcessExit p cpu => exact ⟨rfl, rfl, rfl⟩
  | schedWakeup p cpu now rooms =>
    obtain ⟨enter, has, hframe⟩ := ready_frame s cpu now rooms p.pid
    simp only [State.charges, step, schedWakeup, hframe, and_self]
  | schedWakeupNew p cpu now rooms =>
    simp only [State.charges, step, schedWakeupNew]
    split <;> exact ⟨rfl, rfl, rfl⟩
  | schedSwitch prev next cpu now rooms =>
    obtain ⟨enter, has, hframe⟩ := requeue_frame s prev cpu now rooms
    simp only [State.charges, step, schedSwitch, hframe]
    cases hs : has.lookup (procId next.pid cpu) with
    | none =>
      rw [charge_skips _ _ _ _ _ (Or.inr hs)]
      exact ⟨rfl, rfl, rfl⟩
    | some issched =>
      cases he : enter.lookup (procId next.pid cpu) with
      | none =>
        rw [charge_skips _ _ _ _ _ (Or.inl he)]
        exact ⟨rfl, rfl, rfl⟩
      | some e =>
        rw [charge_takes _ _ _ _ _ he hs]
        exact ⟨rfl, rfl, rfl⟩

theorem charge_control :
    (charge s prev next cpu now rooms).scheduleCtrlMap = s.scheduleCtrlMap := by
  cases he : s.enterSchedule.lookup (procId next.pid cpu) with
  | none => rw [charge_skips _ _ _ _ _ (Or.inl he)]
  | some e =>
    cases hs : s.hasScheduled.lookup (procId next.pid cpu) with
    | none => rw [charge_skips _ _ _ _ _ (Or.inr hs)]
    | some issched => rw [charge_takes _ _ _ _ _ he hs]

/-- Only user space writes the control. -/
theorem step_control {e : Event} (h : ∀ c, e ≠ .scheduleCtrl c) :
    (step s e).scheduleCtrlMap = s.scheduleCtrlMap := by
  cases e with
  | scheduleCtrl c => exact absurd rfl (h c)
  | schedWakeup p cpu now rooms =>
    obtain ⟨enter, has, hframe⟩ := ready_frame s cpu now rooms p.pid
    simp only [step, schedWakeup, hframe]
  | schedWakeupNew p cpu now rooms =>
    simp only [step, schedWakeupNew]
    split <;> rfl
  | schedSwitch prev next cpu now rooms =>
    obtain ⟨enter, has, hframe⟩ := requeue_frame s prev cpu now rooms
    simp only [step, schedSwitch, charge_control, hframe]
  | schedProcessExit p cpu => rfl

end Cases

/-! ## While the tool is active and every update succeeds -/

/-- The time at which the event makes the task `k` ready; an exit ends its wait. -/
def readies (k : ProcId) : Event → Option (Option UInt64)
  | .schedWakeup p cpu now _ | .schedWakeupNew p cpu now _ =>
    if procId p.pid cpu = k then some (some now) else none
  | .schedSwitch prev _ cpu now _ =>
    if prev.state = taskRunning ∧ procId prev.pid cpu = k then some (some now) else none
  | .schedProcessExit p cpu => if procId p.pid cpu = k then some none else none
  | .scheduleCtrl _ => none

/-- When the task `k` became ready since its last exit. -/
def readyTime (k : ProcId) (tr : List Event) : Option UInt64 := (latest (readies k) tr).join

/-- A switch charges the time since `next` became ready. -/
def due (pre : List Event) : Event → Option Charge
  | .schedSwitch prev next cpu now rooms =>
    (readyTime (procId next.pid cpu) (pre ++ [.schedSwitch prev next cpu now rooms])).map
      fun t => ⟨prev, next, cpu, now - t⟩
  | _ => none

def Event.served : Event → Bool
  | .schedWakeup _ _ _ rooms | .schedWakeupNew _ _ _ rooms | .schedSwitch _ _ _ _ rooms =>
    rooms.hasScheduled && rooms.enterSchedule
  | _ => true

/-- The tool is active throughout, and the updates of the first two maps succeed. -/
structure ActiveRun (c : ScheduleCtrl) (tr : List Event) : Prop where
  active : c.scheduleFunc = true
  stays : ∀ e ∈ tr, ∀ c', e = .scheduleCtrl c' → c'.scheduleFunc = true
  served : ∀ e ∈ tr, e.served = true

/-- The two elements of a task, when it became ready at `t`. -/
structure Shows (t : Option UInt64) (s : State) (k : ProcId) : Prop where
  enter : (s.enterSchedule.lookup k).map ScheduleEvent.enterTime = t
  has : (s.hasScheduled.lookup k).isSome = t.isSome

section Active

variable {c : ScheduleCtrl} {pre tr : List Event} {e : Event} {s : State} {k : ProcId}
  {t : Option UInt64} {now : UInt64} {rooms : Rooms}

theorem ActiveRun.restrict (h : ActiveRun c tr) (hp : pre <+: tr) : ActiveRun c pre :=
  ⟨h.active, fun e he => h.stays e (hp.subset he), fun e he => h.served e (hp.subset he)⟩

theorem Shows.of_eq {s' : State} (h : Shows t s k)
    (henter : s'.enterSchedule.lookup k = s.enterSchedule.lookup k)
    (hhas : s'.hasScheduled.lookup k = s.hasScheduled.lookup k) : Shows t s' k :=
  ⟨by rw [henter, h.enter], by rw [hhas, h.has]⟩

theorem shows_enlist (s : State) (pid cpu : Int) (hr : rooms = ⟨true, true, rooms.procHistories⟩) :
    Shows (some now) (enlist s pid cpu now rooms) (procId pid cpu) := by
  rw [hr, enlist]
  constructor
  · show ((s.enterSchedule.update true _ _).lookup _).map _ = _
    rw [BpfMap.update_true, BpfMap.lookup_store_self]
    rfl
  · show ((s.hasScheduled.update true _ _).lookup _).isSome = _
    rw [BpfMap.update_true, BpfMap.lookup_store_self]
    rfl

theorem enlist_other (s : State) {pid cpu : Int} (hk : procId pid cpu ≠ k) (h : Shows t s k) :
    Shows t (enlist s pid cpu now rooms) k :=
  h.of_eq (BpfMap.lookup_update_of_ne _ _ _ (Ne.symm hk))
    (BpfMap.lookup_update_of_ne _ _ _ (Ne.symm hk))

theorem shows_ready {pid cpu : Int} (h : Shows t s (procId pid cpu))
    (hr : rooms = ⟨true, true, rooms.procHistories⟩) :
    Shows (some now) (ready s pid cpu now rooms) (procId pid cpu) := by
  unfold ready
  cases he : s.enterSchedule.lookup (procId pid cpu) with
  | none => exact shows_enlist s pid cpu hr
  | some e =>
    have henter := h.enter
    rw [he] at henter
    constructor
    · show ((s.enterSchedule.store _ _).lookup _).map _ = _
      rw [BpfMap.lookup_store_self]
      rfl
    · show (s.hasScheduled.lookup _).isSome = true
      rw [h.has, ← henter]
      rfl

theorem ready_other {pid cpu : Int} (hk : procId pid cpu ≠ k) (h : Shows t s k) :
    Shows t (ready s pid cpu now rooms) k := by
  unfold ready
  split
  · exact enlist_other s hk h
  · exact h.of_eq (BpfMap.lookup_store_of_ne _ _ (Ne.symm hk)) rfl

/-- A charge changes neither the time nor which elements there are. -/
theorem shows_charge (prev next : Task) (cpu : Int) (h : Shows t s k) :
    Shows t (charge s prev next cpu now rooms) k := by
  cases he : s.enterSchedule.lookup (procId next.pid cpu) with
  | none =>
    rw [charge_skips _ _ _ _ _ (Or.inl he)]
    exact h
  | some e =>
    cases hs : s.hasScheduled.lookup (procId next.pid cpu) with
    | none =>
      rw [charge_skips _ _ _ _ _ (Or.inr hs)]
      exact h
    | some issched =>
      rw [charge_takes _ _ _ _ _ he hs]
      by_cases hk : k = procId next.pid cpu
      · subst hk
        constructor
        · rw [← h.enter, he]
          cases issched with
          | true => simp
          | false => simp [he]
        · rw [← h.has, hs]
          cases issched with
          | true => simp [hs]
          | false => simp
      · cases issched with
        | true => exact h.of_eq (BpfMap.lookup_store_of_ne _ _ hk) rfl
        | false => exact h.of_eq rfl (BpfMap.lookup_store_of_ne _ _ hk)

theorem readyTime_snoc_some (he : readies k e = some t) : readyTime k (pre ++ [e]) = t := by
  rw [readyTime, latest_snoc_some pre he, Option.join_some]

theorem readyTime_snoc_none (he : readies k e = none) :
    readyTime k (pre ++ [e]) = readyTime k pre := by
  rw [readyTime, latest_snoc_none pre he, readyTime]

/-- The elements just before the charge of a switch. -/
theorem shows_requeue (prev next : Task) (cpu : Int) (now : UInt64)
    (hr : rooms = ⟨true, true, rooms.procHistories⟩)
    (h : ∀ k, Shows (readyTime k pre) s k) (k : ProcId) :
    Shows (readyTime k (pre ++ [Event.schedSwitch prev next cpu now rooms]))
      (requeue s prev cpu now rooms) k := by
  unfold requeue
  by_cases hrun : prev.state = taskRunning
  · rw [if_pos hrun]
    by_cases hk : procId prev.pid cpu = k
    · subst hk
      have hreadies : readies (procId prev.pid cpu) (.schedSwitch prev next cpu now rooms) =
          some (some now) := if_pos ⟨hrun, rfl⟩
      rw [readyTime_snoc_some hreadies]
      exact shows_ready (h _) hr
    · have hreadies : readies k (.schedSwitch prev next cpu now rooms) = none :=
        if_neg fun hc => hk hc.2
      rw [readyTime_snoc_none hreadies]
      exact ready_other hk (h k)
  · have hreadies : readies k (.schedSwitch prev next cpu now rooms) = none :=
      if_neg fun hc => hrun hc.1
    rw [if_neg hrun, readyTime_snoc_none hreadies]
    exact h k

theorem rooms_of_served (h : (rooms.hasScheduled && rooms.enterSchedule) = true) :
    rooms = ⟨true, true, rooms.procHistories⟩ := by
  cases rooms
  simp only [Bool.and_eq_true] at h
  rw [h.1, h.2]

theorem shows (h : ActiveRun c tr) :
    ((machine c).exec tr).scheduleCtrlMap.scheduleFunc = true ∧
      ∀ k, Shows (readyTime k tr) ((machine c).exec tr) k := by
  induction tr using List.reverseRecOn with
  | nil => exact ⟨h.active, fun k => ⟨rfl, rfl⟩⟩
  | append_singleton pre e ih =>
    obtain ⟨hactive, hshows⟩ := ih (h.restrict (List.prefix_append pre [e]))
    have hmem : e ∈ pre ++ [e] := List.mem_append_right pre (List.mem_singleton_self e)
    have hserved := h.served e hmem
    rw [Machine.exec_snoc]
    show (step _ e).scheduleCtrlMap.scheduleFunc = true ∧ ∀ k, Shows _ (step _ e) k
    generalize (machine c).exec pre = s at hactive hshows ⊢
    refine ⟨?_, fun k => ?_⟩
    · by_cases hctrl : ∃ c', e = .scheduleCtrl c'
      · obtain ⟨c', rfl⟩ := hctrl
        exact h.stays _ hmem c' rfl
      · rw [step_control s fun c' hc => hctrl ⟨c', hc⟩]
        exact hactive
    cases e with
    | scheduleCtrl c' =>
      rw [readyTime_snoc_none rfl]
      exact (hshows k).of_eq rfl rfl
    | schedWakeup p cpu now rooms =>
      by_cases hk : procId p.pid cpu = k
      · have hreadies : readies k (.schedWakeup p cpu now rooms) = some (some now) := if_pos hk
        subst hk
        rw [readyTime_snoc_some hreadies]
        exact shows_ready (hshows _) (rooms_of_served hserved)
      · have hreadies : readies k (.schedWakeup p cpu now rooms) = none := if_neg hk
        rw [readyTime_snoc_none hreadies]
        exact ready_other hk (hshows k)
    | schedWakeupNew p cpu now rooms =>
      have hstep : step s (.schedWakeupNew p cpu now rooms) = enlist s p.pid cpu now rooms :=
        if_pos hactive
      rw [hstep]
      by_cases hk : procId p.pid cpu = k
      · have hreadies : readies k (.schedWakeupNew p cpu now rooms) = some (some now) := if_pos hk
        subst hk
        rw [readyTime_snoc_some hreadies]
        exact shows_enlist s p.pid cpu (rooms_of_served hserved)
      · have hreadies : readies k (.schedWakeupNew p cpu now rooms) = none := if_neg hk
        rw [readyTime_snoc_none hreadies]
        exact enlist_other s hk (hshows k)
    | schedSwitch prev next cpu now rooms =>
      have hrequeue := shows_requeue prev next cpu now (rooms_of_served hserved) hshows
      exact shows_charge prev next cpu (hrequeue k)
    | schedProcessExit p cpu =>
      by_cases hk : procId p.pid cpu = k
      · have hreadies : readies k (.schedProcessExit p cpu) = some none := if_pos hk
        subst hk
        rw [readyTime_snoc_some hreadies]
        constructor
        · show ((s.enterSchedule.delete _).lookup _).map _ = _
          rw [BpfMap.lookup_delete_self]
          rfl
        · show ((s.hasScheduled.delete _).lookup _).isSome = _
          rw [BpfMap.lookup_delete_self]
          rfl
      · have hreadies : readies k (.schedProcessExit p cpu) = none := if_neg hk
        rw [readyTime_snoc_none hreadies]
        exact (hshows k).of_eq (BpfMap.lookup_delete_of_ne _ (Ne.symm hk))
          (BpfMap.lookup_delete_of_ne _ (Ne.symm hk))

/-- What is charged is what is due. -/
theorem charges_eq_due (h : ActiveRun c (pre ++ [e])) :
    ((machine c).exec pre).charges e = due pre e := by
  obtain ⟨-, hshows⟩ := shows (h.restrict (List.prefix_append pre [e]))
  have hserved := h.served e (List.mem_append_right pre (List.mem_singleton_self e))
  cases e with
  | schedSwitch prev next cpu now rooms =>
    have hrequeue := shows_requeue prev next cpu now (rooms_of_served hserved) hshows
      (procId next.pid cpu)
    show (if (_ : Bool) = true then _ else none) = Option.map _ (readyTime _ _)
    rw [← hrequeue.enter, hrequeue.has, ← hrequeue.enter, Option.isSome_map, Option.map_map]
    cases ((requeue ((machine c).exec pre) prev cpu now rooms).enterSchedule.lookup
      (procId next.pid cpu)) <;> rfl
  | _ => rfl

/-- The charges of a run are what is due in it. -/
theorem charges_eq_collect (h : ActiveRun c tr) : charges c tr = collect due tr := by
  unfold charges
  induction tr using List.reverseRecOn with
  | nil => rfl
  | append_singleton pre e ih =>
    rw [collect_snoc, collect_snoc, ih (h.restrict (List.prefix_append pre [e])),
      charges_eq_due h]

end Active

/-! ## Tasks for examples -/

def control : ScheduleCtrl := ⟨true, false, 10000, 50⟩

def allRooms : Rooms := ⟨true, true, true⟩

def idleTask : Task := ⟨0, 0, ⟨[115], by decide, by decide⟩⟩

def shell : Task := ⟨5, 1, ⟨[98], by decide, by decide⟩⟩

def editor : Task := ⟨6, 1, ⟨[118], by decide, by decide⟩⟩

end CpuSubsystem.ScheduleDelay
