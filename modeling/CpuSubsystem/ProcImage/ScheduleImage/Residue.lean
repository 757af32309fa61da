import CpuSubsystem.ProcImage.ScheduleImage.Intervals
import CpuSubsystem.ProcImage.ScheduleImage.Statistics

/-!
# What is left of exited tasks

A task runs on after `sched_process_exit`: it is preempted, waits and is switched in again until
it dies in its last switch.  Both ways of becoming ready create the elements that the exit deleted.
-/

namespace CpuSubsystem.ScheduleImage

/-- Whether the event ends the task `pid` or starts a new one. -/
def fate (pid : Int) : Event → Option Bool
  | .schedProcessExit p _ => if p.pid = pid then some true else none
  | .schedWakeupNew p _ _ _ => if p.pid = pid then some false else none
  | .schedCtrl _ | .schedWakeup _ _ _ _ | .schedSwitch _ _ _ _ _ => none

/-- The task `pid` has exited, and no new task was announced under its pid. -/
def Exited (tr : List Event) (pid : Int) : Prop := latest (fate pid) tr = some true

instance (tr : List Event) (pid : Int) : Decidable (Exited tr pid) :=
  inferInstanceAs (Decidable (_ = _))

/-- The thread group in which the event shows the task `pid`. -/
def tgidOf (pid : Int) : Event → Option Int
  | .schedWakeup p _ _ _ | .schedWakeupNew p _ _ _ | .schedProcessExit p _ =>
      if p.pid = pid then some p.tgid else none
  | .schedSwitch prev next _ _ _ =>
      if next.pid = pid then some next.tgid
      else if prev.pid = pid then some prev.tgid else none
  | .schedCtrl _ => none

/-- A task stays in its thread group. -/
def Same (pre : List Event) (p : Task) : Prop :=
  latest (tgidOf p.pid) pre = none ∨ latest (tgidOf p.pid) pre = some p.tgid

instance (pre : List Event) (p : Task) : Decidable (Same pre p) :=
  inferInstanceAs (Decidable (_ ∨ _))

/-- A pid is given to a new task only when the old one has exited, a task keeps its thread group,
and the idle tasks do not exit. -/
def Lives (pre : List Event) : Event → Prop
  | .schedCtrl _ => True
  | .schedWakeup p _ _ _ => Same pre p
  | .schedWakeupNew p _ _ _ => Exited pre p.pid ∨ latest (tgidOf p.pid) pre = none
  | .schedSwitch prev next _ _ _ => Same pre prev ∧ Same pre next
  | .schedProcessExit p _ => p.pid ≠ 0 ∧ Same pre p

instance (pre : List Event) (e : Event) : Decidable (Lives pre e) :=
  match e with
  | .schedCtrl _ => inferInstanceAs (Decidable True)
  | .schedWakeup p _ _ _ => inferInstanceAs (Decidable (Same pre p))
  | .schedWakeupNew _ _ _ _ => inferInstanceAs (Decidable (_ ∨ _))
  | .schedSwitch _ _ _ _ _ => inferInstanceAs (Decidable (_ ∧ _))
  | .schedProcessExit _ _ => inferInstanceAs (Decidable (_ ∧ _))

/-- The control does not change. -/
def Constant (c : SchedCtrl) : Event → Prop
  | .schedCtrl c' => c' = c
  | _ => True

instance (c : SchedCtrl) (e : Event) : Decidable (Constant c e) :=
  match e with
  | .schedCtrl c' => inferInstanceAs (Decidable (c' = c))
  | .schedWakeup _ _ _ _ | .schedWakeupNew _ _ _ _ | .schedSwitch _ _ _ _ _
  | .schedProcessExit _ _ => inferInstanceAs (Decidable True)

/-- No map has an element for `pid`, and the element of the target says that it has exited. -/
structure Forgotten (c : SchedCtrl) (s : State) (pid : Int) : Prop where
  proc : ∀ cpu, s.procSchedule.lookup (procId pid cpu) = none
  add : ∀ cpu, s.enableAdd.lookup (procId pid cpu) = none
  group : s.tgSchedule.lookup pid = none
  target : ∀ cpu, targets c pid cpu = true → s.targetSchedule.count = 0

def NoResidue (c : SchedCtrl) (tr : List Event) : Prop :=
  ∀ pid, Exited tr pid → Forgotten c ((machine c).exec tr) pid

/-- The task that the event makes ready, other than a new one: it is woken up, or preempted. -/
def requeues : Event → Option (Task × Rooms)
  | .schedWakeup p _ _ rooms => some (p, rooms)
  | .schedSwitch prev _ _ _ rooms => if prev.state = taskRunning then some (prev, rooms) else none
  | .schedCtrl _ | .schedWakeupNew _ _ _ _ | .schedProcessExit _ _ => none

/-- No exited task becomes ready while the image is active, unless both maps refuse it. -/
def StaysDead (c : SchedCtrl) (pre : List Event) (e : Event) : Prop :=
  c.schedFunc = true → ∀ q ∈ requeues e, Exited pre q.1.pid →
    q.2.enableAdd = false ∧ q.2.procSchedule = false

instance (c : SchedCtrl) (pre : List Event) (e : Event) : Decidable (StaysDead c pre e) :=
  @instDecidableForall _ _ inferInstance (Option.decidableForallMem _)

section Elements

variable {c : SchedCtrl} {s : State} {pid : Int} {p : Task} {cpu : Int} {now : UInt64}
  {rooms : Rooms}

theorem procId_cpu (h : pid ≠ 0) (cpu cpu' : Int) : procId pid cpu = procId pid cpu' := by
  rw [procId, procId, if_neg h, if_neg h]

variable (s p cpu now rooms) in
/-- A ready event has no part in the maps of the target and its group. -/
theorem ready_targets :
    (ready s p cpu now rooms).tgSchedule = s.tgSchedule ∧
    (ready s p cpu now rooms).targetSchedule = s.targetSchedule := by
  unfold ready
  simp only
  split <;> exact ⟨rfl, rfl⟩

theorem Forgotten.ready_of_ne (h : Forgotten c s pid) (hne : p.pid ≠ pid) :
    Forgotten c (ready s p cpu now rooms) pid := by
  have hkey : ∀ cpu', procId p.pid cpu ≠ procId pid cpu' :=
    fun cpu' he => hne (congrArg ProcId.pid he)
  obtain ⟨hgroup, htarget⟩ := ready_targets s p cpu now rooms
  refine ⟨fun cpu' => ?_, fun cpu' => ?_, ?_, ?_⟩
  · rw [(ready_lookup_of_ne (hkey cpu')).1]
    exact h.proc cpu'
  · rw [(ready_lookup_of_ne (hkey cpu')).2]
    exact h.add cpu'
  · rw [hgroup]
    exact h.group
  · rw [htarget]
    exact h.target

/-- Both maps refuse the elements of the task. -/
theorem Forgotten.ready_refused (h : Forgotten c s p.pid) (hadd : rooms.enableAdd = false)
    (hproc : rooms.procSchedule = false) : ready s p cpu now rooms = s := by
  rw [ready_of_none s p cpu now rooms (h.proc cpu), hadd, hproc,
    BpfMap.update_of_not_accepts, BpfMap.update_of_not_accepts]
  · rw [BpfMap.accepts, h.add cpu]
    rfl
  · rw [BpfMap.accepts, h.proc cpu]
    rfl

/-- Becoming ready leaves an element behind, unless both maps refuse it. -/
theorem Forgotten.refused (h : Forgotten c s p.pid)
    (hproc : (ready s p cpu now rooms).procSchedule.lookup (procId p.pid cpu) = none)
    (hadd : (ready s p cpu now rooms).enableAdd.lookup (procId p.pid cpu) = none) :
    rooms.enableAdd = false ∧ rooms.procSchedule = false := by
  rw [ready_of_none s p cpu now rooms (h.proc cpu)] at hproc hadd
  constructor
  · by_contra hroom
    rw [Bool.not_eq_false] at hroom
    rw [hroom, BpfMap.update_true, BpfMap.lookup_store_self] at hadd
    cases hadd
  · by_contra hroom
    rw [Bool.not_eq_false] at hroom
    rw [hroom, BpfMap.update_true, BpfMap.lookup_store_self] at hproc
    cases hproc

/-- A charge neither adds nor removes elements of the tables of all tasks. -/
theorem charge_lookup_none (k : ProcId) :
    ((charge s p cpu now rooms).procSchedule.lookup k = none ↔ s.procSchedule.lookup k = none) ∧
    ((charge s p cpu now rooms).enableAdd.lookup k = none ↔ s.enableAdd.lookup k = none) := by
  rcases charge_cases s p cpu now rooms with ⟨hsame, -⟩ | ⟨e, added, hl, ha⟩
  · rw [hsame]
    exact ⟨Iff.rfl, Iff.rfl⟩
  · rw [charge_of_some s p cpu now rooms hl ha]
    by_cases hk : k = procId p.pid cpu
    · simp only [hk, BpfMap.lookup_store_self, hl, ha, reduceCtorEq, and_self]
    · simp only [BpfMap.lookup_store_of_ne _ _ hk, and_self]

theorem targets_pid (h : targets c pid cpu = true) : pid = c.targetPid := by
  simp only [targets, Bool.and_eq_true, Bool.or_eq_true, bne_iff_ne, beq_iff_eq] at h
  omega

/-- A task without an element is not charged, and the charge of another one leaves it alone. -/
theorem Forgotten.charge (h : Forgotten c s pid) (hc : s.schedCtrlMap = c) :
    Forgotten c (charge s p cpu now rooms) pid := by
  rcases charge_cases s p cpu now rooms with ⟨hsame, -⟩ | ⟨e, added, hl, ha⟩
  · rw [hsame]
    exact h
  -- the task that is charged has an element, so it is another one
  · have hpid : p.pid ≠ pid := by
      rintro rfl
      rw [h.proc cpu] at hl
      cases hl
    refine ⟨fun cpu' => (charge_lookup_none _).1.mpr (h.proc cpu'),
      fun cpu' => (charge_lookup_none _).2.mpr (h.add cpu'), ?_, ?_⟩
    · rw [charge_of_some s p cpu now rooms hl ha]
      show (if p.tgid = _ then _ else s.tgSchedule).lookup pid = none
      split
      · rw [BpfMap.lookup_update_of_ne _ _ _ hpid.symm]
        exact h.group
      · exact h.group
    · intro cpu' htarget
      rw [charge_of_some s p cpu now rooms hl ha]
      show (if targets s.schedCtrlMap p.pid cpu then _ else s.targetSchedule).count = 0
      rw [hc, if_neg]
      · exact h.target cpu' htarget
      · intro hp
        exact hpid ((targets_pid hp).trans (targets_pid htarget).symm)

theorem Forgotten.requeue (h : Forgotten c s pid)
    (hd : p.pid = pid → rooms.enableAdd = false ∧ rooms.procSchedule = false) :
    Forgotten c (ready s p cpu now rooms) pid := by
  by_cases hpid : p.pid = pid
  · obtain ⟨hadd, hproc⟩ := hd hpid
    subst hpid
    rw [h.ready_refused hadd hproc]
    exact h
  · exact h.ready_of_ne hpid

/-- The exit deletes what there is; `tg_schedule` only when the group is the target. -/
theorem forgotten_exit (hact : s.schedCtrlMap.schedFunc = true) (hc : s.schedCtrlMap = c)
    (hpid : p.pid ≠ 0) (hgroup : p.tgid ≠ c.targetTgid → s.tgSchedule.lookup p.pid = none) :
    Forgotten c (schedProcessExit s p cpu) p.pid := by
  rw [schedProcessExit, if_pos hact, hc]
  refine ⟨fun cpu' => ?_, fun cpu' => ?_, ?_, fun cpu' htarget => ?_⟩
  · rw [procId_cpu hpid cpu' cpu]
    exact BpfMap.lookup_delete_self _ _
  · rw [procId_cpu hpid cpu' cpu]
    exact BpfMap.lookup_delete_self _ _
  · show (if p.tgid = c.targetTgid then _ else s.tgSchedule).lookup p.pid = none
    by_cases htg : p.tgid = c.targetTgid
    · rw [if_pos htg]
      exact BpfMap.lookup_delete_self _ _
    · rw [if_neg htg]
      exact hgroup htg
  -- a pid other than 0 is the target on every CPU or on none
  · have hp : targets c p.pid cpu = true := by
      simp only [targets, Bool.and_eq_true, Bool.or_eq_true, bne_iff_ne, beq_iff_eq] at htarget ⊢
      omega
    show (if targets c p.pid cpu then _ else s.targetSchedule).count = 0
    rw [if_pos hp]

theorem Forgotten.exit (h : Forgotten c s pid) (hact : s.schedCtrlMap.schedFunc = true)
    (hne : p.pid ≠ pid) : Forgotten c (schedProcessExit s p cpu) pid := by
  have hkey : ∀ cpu', procId pid cpu' ≠ procId p.pid cpu :=
    fun cpu' he => hne (congrArg ProcId.pid he).symm
  rw [schedProcessExit, if_pos hact]
  refine ⟨fun cpu' => ?_, fun cpu' => ?_, ?_, fun cpu' htarget => ?_⟩
  · exact (BpfMap.lookup_delete_of_ne _ (hkey cpu')).trans (h.proc cpu')
  · exact (BpfMap.lookup_delete_of_ne _ (hkey cpu')).trans (h.add cpu')
  · show (if p.tgid = _ then s.tgSchedule.delete p.pid else s.tgSchedule).lookup pid = none
    split
    · exact (BpfMap.lookup_delete_of_ne _ hne.symm).trans h.group
    · exact h.group
  · show (if targets _ p.pid cpu then { s.targetSchedule with count := 0 }
      else s.targetSchedule).count = 0
    split
    · rfl
    · exact h.target cpu' htarget

variable (s) in
theorem requeued_targets (prev : Task) (cpu : Int) (now : UInt64) (rooms : Rooms) :
    (requeued s prev cpu now rooms).tgSchedule = s.tgSchedule ∧
    (requeued s prev cpu now rooms).targetSchedule = s.targetSchedule ∧
    (requeued s prev cpu now rooms).schedCtrlMap = s.schedCtrlMap := by
  unfold requeued
  split
  · obtain ⟨hgroup, htarget⟩ := ready_targets s prev cpu now rooms
    exact ⟨hgroup, htarget, ready_ctrl s prev cpu now rooms⟩
  · exact ⟨rfl, rfl, rfl⟩

variable (s) in
/-- A switch writes the maps of the target and its group only when it charges a task, and with the
record of this task. -/
theorem switch_targets (prev next : Task) (cpu : Int) (now : UInt64) (rooms : Rooms) :
    let e := Event.schedSwitch prev next cpu now rooms
    ((charged s e).isSome = false ∧ (step s e).tgSchedule = s.tgSchedule ∧
      (step s e).targetSchedule = s.targetSchedule) ∨
    ((charged s e).isSome = true ∧ ∃ r : ScheduleEvent,
      (step s e).procSchedule.lookup (procId next.pid cpu) = some r ∧
      (step s e).tgSchedule =
        (if next.tgid = s.schedCtrlMap.targetTgid then
          s.tgSchedule.update rooms.tgSchedule next.pid r else s.tgSchedule) ∧
      (step s e).targetSchedule =
        if targets s.schedCtrlMap next.pid cpu then r else s.targetSchedule) := by
  intro e
  obtain ⟨hgroup, htarget, hctrl⟩ := requeued_targets s prev cpu now rooms
  by_cases hact : s.schedCtrlMap.schedFunc = true
  · have hstep : step s e =
        ScheduleImage.charge (requeued s prev cpu now rooms) next cpu now rooms := by
      show schedSwitch s prev next cpu now rooms = _
      rw [schedSwitch, if_pos hact]
      rfl
    rw [hstep]
    -- with a charge the new record is copied to the target and to its group
    rcases charge_cases (requeued s prev cpu now rooms) next cpu now rooms with
      ⟨hsame, hnone⟩ | ⟨r, added, hl, ha⟩
    · left
      rw [hsame]
      refine ⟨?_, hgroup, htarget⟩
      rcases hnone with hnone | hnone <;> simp [e, charged, hasRecord, hnone]
    · right
      refine ⟨?_, r.charge added next.prio (now - r.enterTime), ?_, ?_, ?_⟩
      · simp [e, charged, hasRecord, hact, hl, ha]
      · rw [charge_of_some _ next cpu now rooms hl ha]
        exact BpfMap.lookup_store_self _ _ _
      · rw [charge_of_some _ next cpu now rooms hl ha, hgroup, hctrl]
      · rw [charge_of_some _ next cpu now rooms hl ha, htarget, hctrl]
  · left
    have hstep : step s e = s := if_neg hact
    rw [hstep]
    refine ⟨?_, rfl, rfl⟩
    simp [e, charged, hact]

/-- An element of `tg_schedule` was there before, or the event shows its task in the target
group. -/
theorem step_group {e : Event} (h : (step s e).tgSchedule.lookup pid ≠ none) :
    s.tgSchedule.lookup pid ≠ none ∨ tgidOf pid e = some s.schedCtrlMap.targetTgid := by
  cases e with
  | schedCtrl c' => exact Or.inl h
  | schedWakeup p cpu now rooms | schedWakeupNew p cpu now rooms =>
    left
    change (State.tgSchedule (if s.schedCtrlMap.schedFunc then _ else s)).lookup pid ≠ none at h
    split at h
    · rw [(ready_targets s p cpu now rooms).1] at h
      exact h
    · exact h
  | schedSwitch prev next cpu now rooms =>
    rcases switch_targets s prev next cpu now rooms with
      ⟨-, hgroup, -⟩ | ⟨-, r, -, hgroup, -⟩
    · rw [hgroup] at h
      exact Or.inl h
    · rw [hgroup] at h
      by_cases htg : next.tgid = s.schedCtrlMap.targetTgid
      · by_cases hpid : next.pid = pid
        · right
          rw [tgidOf, if_pos hpid, htg]
        · rw [if_pos htg, BpfMap.lookup_update_of_ne _ _ _ (Ne.symm hpid)] at h
          exact Or.inl h
      · rw [if_neg htg] at h
        exact Or.inl h
  | schedProcessExit p cpu =>
    left
    change (schedProcessExit s p cpu).tgSchedule.lookup pid ≠ none at h
    unfold schedProcessExit at h
    split at h
    · simp only at h
      split at h
      · intro hnone
        apply h
        by_cases hpid : pid = p.pid
        · rw [hpid]
          exact BpfMap.lookup_delete_self _ _
        · exact (BpfMap.lookup_delete_of_ne _ hpid).trans hnone
      · exact h
    · exact h

end Elements

section Run

variable {c : SchedCtrl} {pre : List Event} {e : Event} {s : State} {pid : Int}

theorem forgotten_initial (c : SchedCtrl) (pid : Int) : Forgotten c (initial c) pid :=
  ⟨fun _ => rfl, fun _ => rfl, rfl, fun _ _ => rfl⟩

theorem exited_snoc_none (h : fate pid e = none) : Exited (pre ++ [e]) pid ↔ Exited pre pid := by
  rw [Exited, Exited, latest_snoc_none pre h]

/-- A task that goes on is seen in the group in which it was seen before. -/
theorem Lives.tgid (h : Lives pre e) {t : Int} (ht : latest (tgidOf pid) pre = some t)
    (hex : ¬ Exited pre pid) : latest (tgidOf pid) (pre ++ [e]) = some t := by
  have hsame : ∀ p : Task, Same pre p → p.pid = pid → p.tgid = t := by
    intro p hp hpid
    rw [Same, hpid, ht] at hp
    rcases hp with hp | hp
    · cases hp
    · cases hp
      rfl
  -- the event does not show the task, or shows it as it was
  cases htg : tgidOf pid e with
  | none => rw [latest_snoc_none pre htg, ht]
  | some t' =>
    rw [latest_snoc_some pre htg]
    congr 1
    cases e with
    | schedCtrl c' => cases htg
    | schedWakeup p cpu now rooms =>
      by_cases hpid : p.pid = pid
      · rw [tgidOf, if_pos hpid] at htg
        cases htg
        exact hsame p h hpid
      · rw [tgidOf, if_neg hpid] at htg
        cases htg
    | schedWakeupNew p cpu now rooms =>
      by_cases hpid : p.pid = pid
      · rw [Lives, hpid, ht] at h
        rcases h with h | h
        -- only after its exit a pid can be given to a new task
        · exact absurd h hex
        · cases h
      · rw [tgidOf, if_neg hpid] at htg
        cases htg
    | schedSwitch prev next cpu now rooms =>
      rw [tgidOf] at htg
      split at htg
      · rename_i hpid
        cases htg
        exact hsame next h.2 hpid
      · split at htg
        · rename_i hpid
          cases htg
          exact hsame prev h.1 hpid
        · cases htg
    | schedProcessExit p cpu =>
      by_cases hpid : p.pid = pid
      · rw [tgidOf, if_pos hpid] at htg
        cases htg
        exact hsame p h.2 hpid
      · rw [tgidOf, if_neg hpid] at htg
        cases htg

/-- What holds along a run whose exited tasks stay dead. -/
structure Buried (c : SchedCtrl) (tr : List Event) (s : State) : Prop where
  ctrl : s.schedCtrlMap = c
  idle : c.schedFunc = false → s = initial c
  groups : ∀ pid, s.tgSchedule.lookup pid ≠ none → latest (tgidOf pid) tr = some c.targetTgid
  clean : ∀ pid, Exited tr pid → Forgotten c s pid

theorem Buried.groups_step (h : Buried c pre s) (hl : Lives pre e) (pid : Int)
    (hnew : (step s e).tgSchedule.lookup pid ≠ none) :
    latest (tgidOf pid) (pre ++ [e]) = some c.targetTgid := by
  rcases step_group hnew with hold | hshown
  · apply hl.tgid (h.groups pid hold)
    intro hex
    exact hold (h.clean pid hex).group
  · rw [latest_snoc_some pre hshown, h.ctrl]

/-- The task that exits leaves nothing. -/
theorem Buried.exit (h : Buried c pre s) (hact : c.schedFunc = true) {p : Task} {cpu : Int}
    (hl : Lives pre (.schedProcessExit p cpu)) :
    Forgotten c (schedProcessExit s p cpu) p.pid := by
  apply forgotten_exit (by rw [h.ctrl, hact]) h.ctrl hl.1
  intro htg
  by_contra hgroup
  -- an element in the group was made while the group was the target, and tasks keep their group
  have hseen := h.groups p.pid hgroup
  rcases hl.2 with hp | hp
  · rw [hseen] at hp
    cases hp
  · rw [hseen] at hp
    exact htg (Option.some.inj hp).symm

/-- A task that exited before leaves nothing either, when it stays dead. -/
theorem Buried.clean_step (h : Buried c pre s) (hact : c.schedFunc = true)
    (hd : StaysDead c pre e) (hex : Exited pre pid) (hf : fate pid e = none) :
    Forgotten c (step s e) pid := by
  have hclean := h.clean pid hex
  have hs : s.schedCtrlMap.schedFunc = true := by rw [h.ctrl, hact]
  have hstay : ∀ p rooms, requeues e = some (p, rooms) → p.pid = pid →
      rooms.enableAdd = false ∧ rooms.procSchedule = false := by
    intro p rooms hq hpid
    exact hd hact (p, rooms) hq (by rw [hpid]; exact hex)
  cases e with
  | schedCtrl c' => exact ⟨hclean.proc, hclean.add, hclean.group, hclean.target⟩
  | schedWakeup p cpu now rooms =>
    show Forgotten c (schedWakeup s p cpu now rooms) pid
    rw [schedWakeup, if_pos hs]
    exact hclean.requeue (hstay p rooms rfl)
  | schedWakeupNew p cpu now rooms =>
    show Forgotten c (schedWakeupNew s p cpu now rooms) pid
    rw [schedWakeupNew, if_pos hs]
    apply hclean.ready_of_ne
    intro hpid
    rw [fate, if_pos hpid] at hf
    cases hf
  | schedSwitch prev next cpu now rooms =>
    show Forgotten c (schedSwitch s prev next cpu now rooms) pid
    rw [schedSwitch, if_pos hs]
    by_cases hrun : prev.state = taskRunning
    -- a preempted task is made ready before the next one is charged
    · rw [if_pos hrun]
      have hq : Forgotten c (ready s prev cpu now rooms) pid :=
        hclean.requeue (hstay prev rooms (by rw [requeues, if_pos hrun]))
      exact hq.charge ((ready_ctrl s prev cpu now rooms).trans h.ctrl)
    · rw [if_neg hrun]
      exact hclean.charge h.ctrl
  | schedProcessExit p cpu =>
    show Forgotten c (schedProcessExit s p cpu) pid
    apply hclean.exit hs
    intro hpid
    rw [fate, if_pos hpid] at hf
    cases hf

theorem step_ctrl (hk : Constant c e) (hc : s.schedCtrlMap = c) :
    (step s e).schedCtrlMap = c := by
  cases e with
  | schedCtrl c' => exact hk
  | schedWakeup p cpu now rooms | schedWakeupNew p cpu now rooms =>
    show State.schedCtrlMap (if s.schedCtrlMap.schedFunc then _ else s) = c
    split
    · exact (ready_ctrl s p cpu now rooms).trans hc
    · exact hc
  | schedSwitch prev next cpu now rooms =>
    show (schedSwitch s prev next cpu now rooms).schedCtrlMap = c
    unfold schedSwitch
    split
    · rw [charge_ctrl]
      split
      · exact (ready_ctrl s prev cpu now rooms).trans hc
      · exact hc
    · exact hc
  | schedProcessExit p cpu =>
    show (schedProcessExit s p cpu).schedCtrlMap = c
    unfold schedProcessExit
    split <;> exact hc

/-- An image that is not active does not change. -/
theorem step_idle (hk : Constant c e) (hc : s.schedCtrlMap = c) (hidle : c.schedFunc = false) :
    step s e = s := by
  have hs : ¬ s.schedCtrlMap.schedFunc = true := by
    rw [hc, hidle]
    exact Bool.false_ne_true
  cases e with
  | schedCtrl c' =>
    have hc' : c' = s.schedCtrlMap := hk.trans hc.symm
    rw [hc']
    rfl
  | schedWakeup p cpu now rooms => exact if_neg hs
  | schedWakeupNew p cpu now rooms => exact if_neg hs
  | schedSwitch prev next cpu now rooms => exact if_neg hs
  | schedProcessExit p cpu => exact if_neg hs

theorem Buried.step (h : Buried c pre s) (hk : Constant c e) (hl : Lives pre e)
    (hd : StaysDead c pre e) : Buried c (pre ++ [e]) (step s e) where
  ctrl := step_ctrl hk h.ctrl
  idle hidle := by rw [step_idle hk h.ctrl hidle, h.idle hidle]
  groups := h.groups_step hl
  clean pid hex := by
    by_cases hact : c.schedFunc = true
    · cases hf : fate pid e with
      | none => exact h.clean_step hact hd ((exited_snoc_none hf).mp hex) hf
      | some b =>
        rw [Exited, latest_snoc_some pre hf] at hex
        cases hex
        cases e with
        | schedProcessExit p cpu =>
          by_cases hpid : p.pid = pid
          · rw [← hpid]
            exact h.exit hact hl
          · rw [fate, if_neg hpid] at hf
            cases hf
        | schedWakeupNew p cpu now rooms =>
          rw [fate] at hf
          split at hf <;> cases hf
        | schedCtrl _ | schedWakeup _ _ _ _ | schedSwitch _ _ _ _ _ => cases hf
    · rw [Bool.not_eq_true] at hact
      rw [step_idle hk h.ctrl hact, h.idle hact]
      exact forgotten_initial c pid

theorem buried {tr : List Event} (hk : ∀ e ∈ tr, Constant c e) (hl : Throughout Lives tr)
    (hd : Throughout (StaysDead c) tr) : Buried c tr ((machine c).exec tr) := by
  induction tr using List.reverseRecOn with
  | nil => exact ⟨rfl, fun _ => rfl, fun _ h => absurd rfl h, fun pid _ => forgotten_initial c pid⟩
  | append_singleton pre e ih =>
    rw [(machine c).exec_snoc]
    have hpre := ih (fun x hx => hk x (List.mem_append_left _ hx)) hl.of_snoc hd.of_snoc
    exact hpre.step (hk e (List.mem_append_right _ (List.mem_singleton_self e))) hl.last hd.last

end Run

section Exits

variable {c : SchedCtrl} {pre : List Event} {e : Event} {s : State}

/-- An exited task that becomes ready leaves an element behind. -/
theorem staysDead_of_noResidue (hctrl : s.schedCtrlMap = c)
    (hpre : ∀ pid, Exited pre pid → Forgotten c s pid)
    (hpost : ∀ pid, Exited (pre ++ [e]) pid → Forgotten c (step s e) pid) : StaysDead c pre e := by
  intro hact q hq hex
  have hs : s.schedCtrlMap.schedFunc = true := by rw [hctrl, hact]
  have hclean := hpre q.1.pid hex
  cases e with
  | schedCtrl _ | schedWakeupNew _ _ _ _ | schedProcessExit _ _ => cases hq
  | schedWakeup p cpu now rooms =>
    cases hq
    have hleft := hpost p.pid ((exited_snoc_none rfl).mpr hex)
    change Forgotten c (schedWakeup s p cpu now rooms) p.pid at hleft
    rw [schedWakeup, if_pos hs] at hleft
    exact hclean.refused (hleft.proc cpu) (hleft.add cpu)
  | schedSwitch prev next cpu now rooms =>
    rw [requeues] at hq
    split at hq
    · rename_i hrun
      cases hq
      have hleft := hpost prev.pid ((exited_snoc_none rfl).mpr hex)
      change Forgotten c (schedSwitch s prev next cpu now rooms) prev.pid at hleft
      rw [schedSwitch, if_pos hs, if_pos hrun] at hleft
      exact hclean.refused ((charge_lookup_none _).1.mp (hleft.proc cpu))
        ((charge_lookup_none _).2.mp (hleft.add cpu))
    · cases hq

/-- The exited tasks leave no residue in any state of a run exactly when none of them becomes
ready again: `sched_switch` makes a task ready that is preempted on its way out. -/
theorem exited_forgotten (c : SchedCtrl) (tr : List Event) (hk : ∀ e ∈ tr, Constant c e)
    (hl : Throughout Lives tr) :
    Throughout (fun pre e => NoResidue c (pre ++ [e])) tr ↔ Throughout (StaysDead c) tr := by
  induction tr using List.reverseRecOn with
  | nil => exact ⟨fun _ => throughout_nil, fun _ => throughout_nil⟩
  | append_singleton pre e ih =>
    have hkpre : ∀ x ∈ pre, Constant c x := fun x hx => hk x (List.mem_append_left _ hx)
    constructor
    · intro hclean
      have hpre := (ih hkpre hl.of_snoc).mp hclean.of_snoc
      have hburied := buried hkpre hl.of_snoc hpre
      apply hpre.snoc
      apply staysDead_of_noResidue hburied.ctrl hburied.clean
      intro pid hex
      have hpid := hclean.last pid hex
      rw [(machine c).exec_snoc] at hpid
      exact hpid
    · intro hd
      exact ((ih hkpre hl.of_snoc).mpr hd.of_snoc).snoc (buried hk hl hd).clean

/-- Task 7 dies in the first switch after its exit, and its pid is given to a new task. -/
def cleanExit : List Event :=
  [.schedWakeupNew ⟨7, 7, 120, 0⟩ 0 10 ⟨true, true, true⟩,
    .schedSwitch ⟨0, 0, 120, 0⟩ ⟨7, 7, 120, 0⟩ 0 20 ⟨true, true, true⟩,
    .schedProcessExit ⟨7, 7, 120, 0⟩ 0,
    .schedSwitch ⟨7, 7, 120, 128⟩ ⟨0, 0, 120, 0⟩ 0 30 ⟨true, true, true⟩,
    .schedWakeupNew ⟨7, 4, 120, 0⟩ 1 40 ⟨true, true, true⟩]

theorem exited_forgotten_clean_exit :
    Throughout (fun pre e => NoResidue allTasks (pre ++ [e])) cleanExit :=
  (exited_forgotten allTasks cleanExit (by decide) (by decide)).mpr (by decide)

/-- Task 7 is preempted by task 8 between its exit and its last switch. -/
def preemptedInExit : List Event :=
  [.schedWakeupNew ⟨7, 7, 120, 0⟩ 0 10 ⟨true, true, true⟩,
    .schedSwitch ⟨0, 0, 120, 0⟩ ⟨7, 7, 120, 0⟩ 0 20 ⟨true, true, true⟩,
    .schedProcessExit ⟨7, 7, 120, 0⟩ 0,
    .schedWakeup ⟨8, 8, 110, 0⟩ 0 30 ⟨true, true, true⟩,
    .schedSwitch ⟨7, 7, 120, 0⟩ ⟨8, 8, 110, 0⟩ 0 40 ⟨true, true, true⟩,
    .schedSwitch ⟨8, 8, 110, 1⟩ ⟨7, 7, 120, 0⟩ 0 50 ⟨true, true, true⟩,
    .schedSwitch ⟨7, 7, 120, 128⟩ ⟨0, 0, 120, 0⟩ 0 60 ⟨true, true, true⟩]

theorem preempted_exit_leaves_residue :
    ¬ ∀ (c : SchedCtrl) (tr : List Event), (∀ e ∈ tr, Constant c e) → Throughout Lives tr →
      Throughout (fun pre e => NoResidue c (pre ++ [e])) tr := by
  intro h
  have hclean := h allTasks preemptedInExit (by decide) (by decide)
  have hleft := (hclean preemptedInExit.dropLast (preemptedInExit.getLast (by decide)) (by decide) 7
    (by decide)).proc 0
  revert hleft
  decide

end Exits

end CpuSubsystem.ScheduleImage
