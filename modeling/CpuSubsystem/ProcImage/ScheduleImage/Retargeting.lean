import CpuSubsystem.ProcImage.ScheduleImage.Printer
import CpuSubsystem.ProcImage.ScheduleImage.Residue

/-!
# Rows of another target

`target_schedule` and `tg_schedule` are written under the control of one moment and printed under
that of another.  A change of the target clears neither, and an exit clears only what belongs to
the target of that moment.
-/

namespace CpuSubsystem.ScheduleImage

/-- The target pid under which the event writes `target_schedule`. -/
def forTarget (s : State) : Event → Option Int
  | .schedSwitch prev next cpu now rooms =>
    if (charged s (.schedSwitch prev next cpu now rooms)).isSome ∧
        targets s.schedCtrlMap next.pid cpu = true then
      some s.schedCtrlMap.targetPid
    else none
  | _ => none

/-- The target group under which the event writes the element of `pid` in `tg_schedule`. -/
def forGroup (pid : Int) (s : State) : Event → Option Int
  | .schedSwitch prev next cpu now rooms =>
    if (charged s (.schedSwitch prev next cpu now rooms)).isSome ∧ next.pid = pid ∧
        next.tgid = s.schedCtrlMap.targetTgid then
      some s.schedCtrlMap.targetTgid
    else none
  | _ => none

/-- The thread `pid` exits while the image is not active or another group is the target. -/
def missesExit (pid : Int) (s : State) : Event → Bool
  | .schedProcessExit p _ =>
      p.pid = pid && !(s.schedCtrlMap.schedFunc && p.tgid = s.schedCtrlMap.targetTgid)
  | _ => false

section

variable (c : SchedCtrl)

/-- The target pid of the latest write to `target_schedule`. -/
def targetMark (pre : List Event) (e : Event) : Option Int := forTarget ((machine c).exec pre) e

/-- What happened last to the element of `pid`: a live thread was charged, under that target, or
the element is of no use any more, because an exit was missed or came before. -/
def groupMark (pid : Int) (pre : List Event) (e : Event) : Option (Option Int) :=
  match forGroup pid ((machine c).exec pre) e with
  | some g => some (if Exited pre pid then none else some g)
  | none => if missesExit pid ((machine c).exec pre) e then some none else none

/-- Whether the element of `pid` was written for the thread, or the thread has ended or begun. -/
def owner (pid : Int) (pre : List Event) (e : Event) : Option Bool :=
  match fate pid e with
  | some _ => some false
  | none => (forGroup pid ((machine c).exec pre) e).map fun _ => true

/-- The element of `pid` is that of a live thread of the group `g`. -/
structure LiveRow (tr : List Event) (pid g : Int) : Prop where
  alive : ¬ Exited tr pid
  group : latest (tgidOf pid) tr = some g
  own : recent (owner c pid) tr = some true

end

section Steps

variable {s : State} {e : Event}

/-- The records of `proc_schedule` are under the pids of their tasks. -/
def Keyed (s : State) : Prop := ∀ k r, s.procSchedule.lookup k = some r → r.pid = k.pid

theorem Keyed.ready (h : Keyed s) (p : Task) (cpu : Int) (now : UInt64) (rooms : Rooms) :
    Keyed (ready s p cpu now rooms) := by
  intro k r hr
  by_cases hk : procId p.pid cpu = k
  · cases hl : s.procSchedule.lookup (procId p.pid cpu) with
    | none =>
      rw [ready_of_none s p cpu now rooms hl, ← hk, BpfMap.lookup_update_self] at hr
      split at hr
      · cases hr
        rw [← hk]
        rfl
      · cases hr
    | some r' =>
      rw [ready_of_some s p cpu now rooms hl, ← hk, BpfMap.lookup_store_self] at hr
      cases hr
      rw [← hk]
      exact h _ r' hl
  · rw [(ready_lookup_of_ne hk).1] at hr
    exact h k r hr

theorem Keyed.requeued (h : Keyed s) (prev : Task) (cpu : Int) (now : UInt64) (rooms : Rooms) :
    Keyed (requeued s prev cpu now rooms) := by
  unfold ScheduleImage.requeued
  split
  · exact h.ready prev cpu now rooms
  · exact h

theorem Keyed.charge (h : Keyed s) (next : Task) (cpu : Int) (now : UInt64) (rooms : Rooms) :
    Keyed (charge s next cpu now rooms) := by
  rcases charge_cases s next cpu now rooms with ⟨hsame, -⟩ | ⟨r, added, hl, ha⟩
  · rw [hsame]
    exact h
  · rw [charge_of_some s next cpu now rooms hl ha]
    intro k r' hr'
    by_cases hk : k = procId next.pid cpu
    · rw [hk, BpfMap.lookup_store_self] at hr'
      cases hr'
      rw [hk]
      exact h _ r hl
    · rw [BpfMap.lookup_store_of_ne _ _ hk] at hr'
      exact h k r' hr'

theorem Keyed.step (h : Keyed s) (e : Event) : Keyed (step s e) := by
  cases e with
  | schedCtrl c => exact h
  | schedWakeup p cpu now rooms | schedWakeupNew p cpu now rooms =>
    show Keyed (if s.schedCtrlMap.schedFunc then _ else s)
    split
    · exact h.ready p cpu now rooms
    · exact h
  | schedSwitch prev next cpu now rooms =>
    show Keyed (schedSwitch s prev next cpu now rooms)
    unfold schedSwitch
    split
    · exact (h.requeued prev cpu now rooms).charge next cpu now rooms
    · exact h
  | schedProcessExit p cpu =>
    show Keyed (schedProcessExit s p cpu)
    unfold schedProcessExit
    split
    · intro k r hr
      by_cases hk : k = procId p.pid cpu
      · rw [hk, BpfMap.lookup_delete_self] at hr
        cases hr
      · rw [BpfMap.lookup_delete_of_ne _ hk] at hr
        exact h k r hr
    · exact h

/-- The exit of the target task clears its statistics. -/
theorem exit_target {p : Task} {cpu : Int}
    (h : (schedProcessExit s p cpu).targetSchedule.count ≠ 0) :
    (schedProcessExit s p cpu).targetSchedule = s.targetSchedule := by
  unfold schedProcessExit at h ⊢
  split at h
  · rename_i hact
    rw [if_pos hact]
    simp only at h ⊢
    split at h
    · exact absurd rfl h
    · rename_i hsel
      rw [if_neg hsel]
  · rename_i hact
    rw [if_neg hact]

/-- An exit deletes the element of its thread, unless it is missed. -/
theorem exit_group {pid : Int} {r : ScheduleEvent} {p : Task} {cpu : Int}
    (h : (schedProcessExit s p cpu).tgSchedule.lookup pid = some r) :
    s.tgSchedule.lookup pid = some r ∧
      (p.pid = pid → missesExit pid s (.schedProcessExit p cpu) = true) := by
  unfold schedProcessExit at h
  by_cases hact : s.schedCtrlMap.schedFunc = true
  · rw [if_pos hact] at h
    by_cases htg : p.tgid = s.schedCtrlMap.targetTgid
    · simp only [if_pos htg] at h
      have hpid : p.pid ≠ pid := by
        intro hpid
        rw [hpid, BpfMap.lookup_delete_self] at h
        cases h
      rw [BpfMap.lookup_delete_of_ne _ (Ne.symm hpid)] at h
      exact ⟨h, fun hf => absurd hf hpid⟩
    · simp only [if_neg htg] at h
      exact ⟨h, fun hpid => by simp [missesExit, hpid, htg]⟩
  · rw [if_neg hact] at h
    exact ⟨h, fun hpid => by simp [missesExit, hpid, hact]⟩

/-- A target that counts was written by the event, or it was there before. -/
theorem target_step (hkey : Keyed (step s e)) (h : (step s e).targetSchedule.count ≠ 0) :
    forTarget s e = some (step s e).targetSchedule.pid ∨
    (forTarget s e = none ∧ (step s e).targetSchedule = s.targetSchedule) := by
  cases e with
  | schedCtrl c => exact Or.inr ⟨rfl, rfl⟩
  | schedWakeup p cpu now rooms | schedWakeupNew p cpu now rooms =>
    right
    refine ⟨rfl, ?_⟩
    show State.targetSchedule (if s.schedCtrlMap.schedFunc then _ else s) = _
    split
    · exact (ready_targets s p cpu now rooms).2
    · rfl
  | schedSwitch prev next cpu now rooms =>
    rcases switch_targets s prev next cpu now rooms with
      ⟨hnone, -, htarget⟩ | ⟨hsome, r, hr, -, htarget⟩
    · right
      refine ⟨?_, htarget⟩
      rw [forTarget, if_neg]
      intro hboth
      rw [hboth.1] at hnone
      cases hnone
    · by_cases hsel : targets s.schedCtrlMap next.pid cpu = true
      · left
        rw [htarget, if_pos hsel, forTarget, if_pos ⟨hsome, hsel⟩, hkey _ r hr, ← targets_pid hsel]
        rfl
      · right
        rw [if_neg hsel] at htarget
        refine ⟨?_, htarget⟩
        rw [forTarget, if_neg (fun hboth => hsel hboth.2)]
  | schedProcessExit p cpu => exact Or.inr ⟨rfl, exit_target h⟩

/-- An element of `tg_schedule` was written by the event, or it was there before and the event is
no exit of its thread that deletes it. -/
theorem group_step {pid : Int} {r : ScheduleEvent} (hkey : Keyed (step s e))
    (h : (step s e).tgSchedule.lookup pid = some r) :
    (forGroup pid s e ≠ none ∧ r.pid = pid) ∨
    (forGroup pid s e = none ∧ s.tgSchedule.lookup pid = some r ∧
      (fate pid e = some true → missesExit pid s e = true)) := by
  cases e with
  | schedCtrl c => exact Or.inr ⟨rfl, h, fun hf => by cases hf⟩
  | schedWakeup p cpu now rooms | schedWakeupNew p cpu now rooms =>
    right
    change (State.tgSchedule (if s.schedCtrlMap.schedFunc then _ else s)).lookup pid = some r at h
    refine ⟨rfl, ?_, fun hf => ?_⟩
    · split at h
      · rw [(ready_targets s p cpu now rooms).1] at h
        exact h
      · exact h
    · simp [fate] at hf
  | schedSwitch prev next cpu now rooms =>
    rcases switch_targets s prev next cpu now rooms with
      ⟨hnone, hgroup, -⟩ | ⟨hsome, r', hr', hgroup, -⟩
    · right
      rw [hgroup] at h
      refine ⟨?_, h, fun hf => by cases hf⟩
      rw [forGroup, if_neg]
      intro hboth
      rw [hboth.1] at hnone
      cases hnone
    -- the charge writes the element of `next`, if its group is the target
    · rw [hgroup] at h
      by_cases hsel : next.pid = pid ∧ next.tgid = s.schedCtrlMap.targetTgid
      · left
        obtain ⟨hpid, htg⟩ := hsel
        rw [if_pos htg, hpid, BpfMap.lookup_update_self] at h
        split at h
        · cases h
          refine ⟨?_, (hkey _ r hr').trans hpid⟩
          rw [forGroup, if_pos ⟨hsome, hpid, htg⟩]
          exact Option.some_ne_none _
        · cases h
      · right
        refine ⟨?_, ?_, fun hf => by cases hf⟩
        · rw [forGroup, if_neg (fun hall => hsel hall.2)]
        · split at h
          · rename_i htg
            rw [BpfMap.lookup_update_of_ne _ _ _ (fun hpid => hsel ⟨hpid.symm, htg⟩)] at h
            exact h
          · exact h
  | schedProcessExit p cpu =>
    right
    obtain ⟨hbefore, hmissed⟩ := exit_group h
    refine ⟨rfl, hbefore, fun hf => hmissed ?_⟩
    by_contra hpid
    rw [fate, if_neg hpid] at hf
    cases hf

end Steps

section Run

variable {c : SchedCtrl} {pre : List Event} {e : Event} {pid g : Int}

/-- An element that a live thread was charged to stays that of a live thread, unless an exit is
missed. -/
theorem LiveRow.step (h : LiveRow c pre pid g) (hl : Lives pre e)
    (hw : forGroup pid ((machine c).exec pre) e = none)
    (hf : fate pid e ≠ some true) : LiveRow c (pre ++ [e]) pid g := by
  have hfate : fate pid e = none := by
    cases hb : fate pid e with
    | none => rfl
    | some b =>
      cases b with
      | true => exact absurd hb hf
      -- a new task with the pid would mean that the thread had exited
      | false =>
        exfalso
        cases e with
        | schedWakeupNew p cpu now rooms =>
          rw [fate] at hb
          split at hb
          · rename_i hpid
            rw [Lives, hpid] at hl
            rcases hl with hl | hl
            · exact h.alive hl
            · rw [h.group] at hl
              cases hl
          · cases hb
        | schedProcessExit p cpu =>
          rw [fate] at hb
          split at hb <;> cases hb
        | schedCtrl _ | schedWakeup _ _ _ _ | schedSwitch _ _ _ _ _ => cases hb
  refine ⟨?_, hl.tgid h.group h.alive, ?_⟩
  · rw [exited_snoc_none hfate]
    exact h.alive
  · rw [recent_snoc_none]
    · exact h.own
    · rw [owner, hfate, hw]
      rfl

/-- The thread of an element that was just written is live, unless it had exited before. -/
theorem liveRow_write (hw : forGroup pid ((machine c).exec pre) e = some g)
    (hex : ¬ Exited pre pid) : LiveRow c (pre ++ [e]) pid g := by
  cases e with
  | schedSwitch prev next cpu now rooms =>
    have hshown := hw
    rw [forGroup] at hshown
    split at hshown
    · rename_i hall
      cases hshown
      refine ⟨?_, ?_, ?_⟩
      · rw [exited_snoc_none rfl]
        exact hex
      · apply latest_snoc_some
        rw [tgidOf, if_pos hall.2.1, hall.2.2]
      · apply recent_snoc_some
        rw [owner, hw]
        rfl
    · cases hshown
  | schedCtrl _ | schedWakeup _ _ _ _ | schedWakeupNew _ _ _ _ | schedProcessExit _ _ => cases hw

theorem groupMark_write (hw : forGroup pid ((machine c).exec pre) e = some g) :
    groupMark c pid pre e = some (if Exited pre pid then none else some g) := by
  simp only [groupMark, hw]

theorem groupMark_missed (hw : forGroup pid ((machine c).exec pre) e = none)
    (hm : missesExit pid ((machine c).exec pre) e = true) :
    groupMark c pid pre e = some none := by
  simp only [groupMark, hw, hm, if_true]

theorem groupMark_skip (hw : forGroup pid ((machine c).exec pre) e = none)
    (hm : missesExit pid ((machine c).exec pre) e = false) : groupMark c pid pre e = none := by
  simp only [groupMark, hw, hm, Bool.false_eq_true, if_false]

theorem forGroup_fate (hw : forGroup pid ((machine c).exec pre) e = some g) :
    fate pid e = none := by
  cases e with
  | schedSwitch prev next cpu now rooms => rfl
  | schedCtrl _ | schedWakeup _ _ _ _ | schedWakeupNew _ _ _ _ | schedProcessExit _ _ => cases hw

theorem missesExit_fate {s : State} (hm : missesExit pid s e = true) : fate pid e = some true := by
  cases e with
  | schedProcessExit p cpu =>
    simp only [missesExit, Bool.and_eq_true, decide_eq_true_eq] at hm
    rw [fate, if_pos hm.1]
  | schedCtrl _ | schedWakeup _ _ _ _ | schedWakeupNew _ _ _ _ | schedSwitch _ _ _ _ _ => cases hm

/-- An element of no use is not that of a live thread: its thread has exited, and a new one with
the pid was not charged yet. -/
theorem lost {tr : List Event} (h : recent (groupMark c pid) tr = some none) :
    Exited tr pid ∨ recent (owner c pid) tr = some false := by
  induction tr using List.reverseRecOn with
  | nil => cases h
  | append_singleton pre e ih =>
    -- the element is written now, or its thread exits unseen, or neither
    cases hw : forGroup pid ((machine c).exec pre) e with
    | some g =>
      rw [recent_snoc_some (groupMark_write hw)] at h
      split at h
      · rename_i hex
        exact Or.inl ((exited_snoc_none (forGroup_fate hw)).mpr hex)
      · cases h
    | none =>
      cases hm : missesExit pid ((machine c).exec pre) e with
      | true => exact Or.inl (latest_snoc_some pre (missesExit_fate hm))
      | false =>
        rw [recent_snoc_none (groupMark_skip hw hm)] at h
        cases hf : fate pid e with
        | some b =>
          right
          apply recent_snoc_some
          rw [owner, hf]
        | none =>
          have howner : owner c pid pre e = none := by
            rw [owner, hf, hw]
            rfl
          rw [exited_snoc_none hf, recent_snoc_none howner]
          exact ih h

/-- What holds along every run: whom the elements for the target and its group describe. -/
structure Described (c : SchedCtrl) (tr : List Event) (s : State) : Prop where
  keyed : Keyed s
  target : s.targetSchedule.count ≠ 0 → recent (targetMark c) tr = some s.targetSchedule.pid
  group : ∀ pid r, s.tgSchedule.lookup pid = some r →
    r.pid = pid ∧ recent (groupMark c pid) tr ≠ none ∧
      ∀ g, recent (groupMark c pid) tr = some (some g) → LiveRow c tr pid g

theorem Described.step (h : Described c pre ((machine c).exec pre)) (hl : Lives pre e) :
    Described c (pre ++ [e]) (step ((machine c).exec pre) e) := by
  have hkey := h.keyed.step e
  refine ⟨hkey, fun hcount => ?_, fun pid r hr => ?_⟩
  · rcases target_step hkey hcount with hw | ⟨hw, hsame⟩
    · exact recent_snoc_some hw
    · rw [recent_snoc_none hw, hsame]
      apply h.target
      rw [← hsame]
      exact hcount
  · rcases group_step hkey hr with ⟨hw, hpid⟩ | ⟨hw, hold, hmiss⟩
    · obtain ⟨g', hg'⟩ := Option.ne_none_iff_exists'.mp hw
      rw [recent_snoc_some (groupMark_write hg')]
      refine ⟨hpid, Option.some_ne_none _, fun g hg => ?_⟩
      split at hg
      · cases hg
      · rename_i hex
        cases hg
        exact liveRow_write hg' hex
    · obtain ⟨hpid, hsome, hlive⟩ := h.group pid r hold
      -- the element stays although its thread may be gone
      cases hm : missesExit pid ((machine c).exec pre) e with
      | true =>
        rw [recent_snoc_some (groupMark_missed hw hm)]
        refine ⟨hpid, Option.some_ne_none _, fun g hg => ?_⟩
        cases hg
      | false =>
        rw [recent_snoc_none (groupMark_skip hw hm)]
        refine ⟨hpid, hsome, fun g hg => ?_⟩
        apply (hlive g hg).step hl hw
        intro hf
        rw [hmiss hf] at hm
        cases hm

theorem described {tr : List Event} (h : Throughout Lives tr) :
    Described c tr ((machine c).exec tr) := by
  refine (machine c).invariant (fun _ _ h => h.of_snoc) ?_ ?_ tr h
  · refine ⟨fun k r hr => ?_, fun hcount => absurd rfl hcount, fun pid r hr => ?_⟩
    · cases hr
    · cases hr
  · exact fun pre e hpre hinv => hinv.step hpre.last

/-- The element of a thread is that of a live thread of the target group exactly when it was
written last for this target, for a live thread, and no exit was missed since. -/
theorem liveRow_iff {tr : List Event} (h : Throughout Lives tr) {r : ScheduleEvent}
    (hr : ((machine c).exec tr).tgSchedule.lookup pid = some r) :
    LiveRow c tr pid g ↔ recent (groupMark c pid) tr = some (some g) := by
  obtain ⟨-, hsome, hlive⟩ := (described h).group pid r hr
  constructor
  · intro hrow
    -- a live thread was charged after every exit, so the latest mark is that of a group
    obtain ⟨m, hm⟩ := Option.ne_none_iff_exists'.mp hsome
    cases m with
    | none =>
      rcases lost hm with hex | hown
      · exact absurd hex hrow.alive
      · rw [hrow.own] at hown
        cases hown
    | some g' =>
      have hgroup := (hlive g' hm).group
      rw [hrow.group] at hgroup
      cases hgroup
      exact hm
  · exact hlive g

end Run

/-- The history of the probes. -/
def events (tr : List Tick) : List Event := tr.filterMap Tick.event

section Rows

variable (c : SchedCtrl)

/-- A row for a target pid is that of this pid, a row for a target group is that of a live thread of
this group. -/
def RightRow (pre : List Tick) (r : Row) : Prop :=
  let ctrl := ((tool c).exec pre).kernel.schedCtrlMap
  (ctrl.targetPid ≠ -1 → ctrl.targetTgid = -1 → r.pid = ctrl.targetPid) ∧
  (ctrl.targetPid = -1 → ctrl.targetTgid ≠ -1 → LiveRow c (events pre) r.pid ctrl.targetTgid)

def RightRows (pre : List Tick) (t : Tick) : Prop :=
  ∀ r, Line.row r ∈ (tool c).emits pre t → RightRow c pre r

/-- The elements that the call comes to print were written last for the target of now, those of a
group for live threads whose exits were not missed since. -/
def UpToDate (pre : List Tick) : Tick → Prop
  | .kernel _ => True
  | .print _ tgKeys =>
    let t := (tool c).exec pre
    let s := t.kernel
    let ctrl := s.schedCtrlMap
    t.running = true → ctrl.schedFunc = true →
      (ctrl.targetPid ≠ -1 → ctrl.targetTgid = -1 → s.targetSchedule.count ≠ 0 →
        averaged s.sysSchedule s.targetSchedule = true →
        recent (targetMark c) (events pre) = some ctrl.targetPid) ∧
      (ctrl.targetPid = -1 → ctrl.targetTgid ≠ -1 →
        ∀ pid ∈ tgKeys.takeWhile fun pid => (s.tgSchedule.lookup pid).any (averaged s.sysSchedule),
          recent (groupMark c pid) (events pre) = some (some ctrl.targetTgid))

instance (pre : List Tick) (t : Tick) : Decidable (UpToDate c pre t) :=
  match t with
  | .kernel _ => inferInstanceAs (Decidable True)
  | .print _ _ => inferInstanceAs (Decidable (_ → _ → _ ∧ _))

theorem mem_emits_print {pre : List Tick} {procKeys : List ProcId} {tgKeys : List Int} {r : Row} :
    Line.row r ∈ (tool c).emits pre (.print procKeys tgKeys) ↔
      ((tool c).exec pre).running = true ∧
      ((tool c).exec pre).kernel.schedCtrlMap.schedFunc = true ∧
      Line.row r ∈ (body ((tool c).exec pre).kernel procKeys tgKeys).1 := by
  rw [tool_emits]
  split
  · rename_i hrun
    rw [mem_printSchedule]
    exact ⟨fun h => ⟨hrun, h⟩, fun h => h.2⟩
  · rename_i hrun
    exact ⟨fun h => (by cases h), fun h => absurd h.1 hrun⟩

/-- The rows of one call. -/
theorem rightRows_iff {pre : List Tick} {t : Tick} (h : Throughout Lives (events pre)) :
    RightRows c pre t ↔ UpToDate c pre t := by
  cases t with
  | kernel e =>
    refine ⟨fun _ => trivial, fun _ r hr => ?_⟩
    cases hr
  | print procKeys tgKeys =>
    have hdesc := described (c := c) h
    have hrow : ∀ pid g r, ((machine c).exec (events pre)).tgSchedule.lookup pid = some r →
        (LiveRow c (events pre) pid g ↔
          recent (groupMark c pid) (events pre) = some (some g)) :=
      fun _ _ _ hr => liveRow_iff h hr
    have hs : (machine c).exec (events pre) = ((tool c).exec pre).kernel :=
      (tool_kernel c pre).symm
    rw [hs] at hdesc hrow
    simp only [RightRows, RightRow, mem_emits_print, UpToDate]
    generalize (tool c).exec pre = t at hdesc hrow ⊢
    constructor
    · intro hright hrun hact
      refine ⟨fun hpid htgid hcount havg => ?_, fun hpid htgid pid hmem => ?_⟩
      · obtain ⟨r, hr⟩ := exists_row havg false
        have hprinted : Line.row r ∈ (body t.kernel procKeys tgKeys).1 := by
          rw [body_target procKeys tgKeys hpid htgid, mem_targetRow]
          exact ⟨hcount, hr⟩
        have hsel := (hright r ⟨hrun, hact, hprinted⟩).1 hpid htgid
        rw [hdesc.target hcount, ← row_pid hr, hsel]
      · obtain ⟨e, he, havg⟩ := (Option.any_eq_true _ _).mp
          (List.all_eq_true.mp List.all_takeWhile pid hmem)
        obtain ⟨r, hr⟩ := exists_row havg true
        have hprinted : Line.row r ∈ (body t.kernel procKeys tgKeys).1 := by
          rw [body_group procKeys tgKeys hpid htgid, mem_rows]
          exact ⟨pid, hmem, e, he, hr⟩
        have hlive := (hright r ⟨hrun, hact, hprinted⟩).2 hpid htgid
        rw [row_pid hr, (hdesc.group pid e he).1] at hlive
        exact (hrow pid _ e he).mp hlive
    · intro hcur r hr
      obtain ⟨hrun, hact, hprinted⟩ := hr
      obtain ⟨htarget, hgroup⟩ := hcur hrun hact
      refine ⟨fun hpid htgid => ?_, fun hpid htgid => ?_⟩
      · rw [body_target procKeys tgKeys hpid htgid, mem_targetRow] at hprinted
        obtain ⟨hcount, hr⟩ := hprinted
        have hmark := htarget hpid htgid hcount (by rw [← row_isSome false, hr]; rfl)
        rw [hdesc.target hcount] at hmark
        rw [row_pid hr]
        exact Option.some.inj hmark
      · rw [body_group procKeys tgKeys hpid htgid, mem_rows] at hprinted
        obtain ⟨pid, hmem, e, he, hr⟩ := hprinted
        rw [row_pid hr, (hdesc.group pid e he).1]
        exact (hrow pid _ e he).mpr (hgroup hpid htgid pid hmem)

/-- In a run, `print_schedule` prints only rows of the target pid, and of live threads of the target
group, exactly when no call comes to an element of an earlier target or of a thread whose exit was
missed. -/
theorem rows_right (c : SchedCtrl) (tr : List Tick) (h : Throughout Lives (events tr)) :
    Throughout (RightRows c) tr ↔ Throughout (UpToDate c) tr := by
  have hpre : ∀ pre t, pre ++ [t] <+: tr → (RightRows c pre t ↔ UpToDate c pre t) := by
    intro pre t hp
    apply rightRows_iff
    apply h.restrict
    exact ((List.prefix_append pre [t]).trans hp).filterMap _
  exact ⟨fun hr pre t hp => (hpre pre t hp).mp (hr pre t hp),
    fun hu pre t hp => (hpre pre t hp).mpr (hu pre t hp)⟩

/-- Thread 7 of the group 4 is charged and printed, exits, and the next call prints nothing. -/
def watchedGroup : List Tick :=
  [.kernel (.schedWakeup ⟨7, 4, 120, 0⟩ 0 10 ⟨true, true, true⟩),
    .kernel (.schedSwitch ⟨0, 0, 120, 0⟩ ⟨7, 4, 120, 0⟩ 0 20 ⟨true, true, true⟩),
    .print [] [7],
    .kernel (.schedProcessExit ⟨7, 4, 120, 0⟩ 0),
    .print [] []]

theorem rows_right_watched_group :
    Throughout (RightRows ⟨true, -1, -1, 4⟩) watchedGroup :=
  (rows_right ⟨true, -1, -1, 4⟩ watchedGroup (by decide)).mpr (by decide)

/-- The target changes from 7 to 8 before 8 was charged. -/
def retargeted : List Tick :=
  [.kernel (.schedWakeup ⟨7, 4, 120, 0⟩ 0 10 ⟨true, true, true⟩),
    .kernel (.schedSwitch ⟨0, 0, 120, 0⟩ ⟨7, 4, 120, 0⟩ 0 20 ⟨true, true, true⟩),
    .kernel (.schedCtrl ⟨true, 8, -1, -1⟩),
    .print [] []]

theorem old_target_printed :
    ¬ ∀ (c : SchedCtrl) (tr : List Tick), Throughout Lives (events tr) →
      Throughout (RightRows c) tr := by
  intro h
  have hright := h ⟨true, 7, -1, -1⟩ retargeted (by decide)
  have hrow := hright retargeted.dropLast (.print [] []) (by decide)
    ⟨none, 7, 120, 10, 10, 10, 10, 10, 10⟩ (by decide)
  exact absurd (hrow.1 (by decide) (by decide)) (by decide)

end Rows

end CpuSubsystem.ScheduleImage
