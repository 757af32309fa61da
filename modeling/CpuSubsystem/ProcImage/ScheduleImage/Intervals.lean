import CpuSubsystem.Lib.Latest
import CpuSubsystem.ProcImage.ScheduleImage.Model

/-!
# Waiting intervals

A record keeps its `enter_time` when it is charged.  A task that is put on the CPU again before it
became ready anew is charged once more, for the time since the same ready event.
-/

namespace CpuSubsystem.ScheduleImage

/-- The time at which the event makes the task `k` ready: a wakeup, or a switch that takes it off
the CPU with `prev_state == TASK_RUNNING`. -/
def readies (k : ProcId) : Event → Option UInt64
  | .schedWakeup p cpu now _ | .schedWakeupNew p cpu now _ =>
      if procId p.pid cpu = k then some now else none
  | .schedSwitch prev _ cpu now _ =>
      if prev.state = taskRunning ∧ procId prev.pid cpu = k then some now else none
  | .schedCtrl _ | .schedProcessExit _ _ => none

/-- The event puts the task `k` on the CPU. -/
def runs (k : ProcId) : Event → Bool
  | .schedSwitch _ next cpu _ _ => procId next.pid cpu = k
  | _ => false

/-- Whether the event makes `k` wait for the CPU, or ends its wait. -/
def turn (k : ProcId) (e : Event) : Option Bool :=
  if runs k e then some false else (readies k e).map fun _ => true

/-- `sched_switch` can charge the task: both maps have an element. -/
def hasRecord (s : State) (k : ProcId) : Bool :=
  (s.procSchedule.lookup k).isSome && (s.enableAdd.lookup k).isSome

/-- The state when `sched_switch` turns to `next`. -/
def requeued (s : State) (prev : Task) (cpu : Int) (now : UInt64) (rooms : Rooms) : State :=
  if prev.state = taskRunning then ready s prev cpu now rooms else s

/-- The task that the event charges, and the delay. -/
def charged (s : State) : Event → Option (ProcId × UInt64)
  | .schedSwitch prev next cpu now rooms =>
    let s' := requeued s prev cpu now rooms
    let k := procId next.pid cpu
    if s.schedCtrlMap.schedFunc && hasRecord s' k then
      (s'.procSchedule.lookup k).map fun e => (k, now - e.enterTime)
    else none
  | _ => none

/-- All that a switch does to the statistics follows from what it charges. -/
theorem schedSwitch_charged (s : State) (prev next : Task) (cpu : Int) (now : UInt64)
    (rooms : Rooms) (hact : s.schedCtrlMap.schedFunc = true) :
    match charged s (.schedSwitch prev next cpu now rooms) with
    | none => schedSwitch s prev next cpu now rooms = requeued s prev cpu now rooms
    | some (k, d) => ∃ e added,
        (requeued s prev cpu now rooms).procSchedule.lookup k = some e ∧
        (schedSwitch s prev next cpu now rooms).procSchedule =
          (requeued s prev cpu now rooms).procSchedule.store k (e.charge added next.prio d) ∧
        (schedSwitch s prev next cpu now rooms).sysSchedule =
          (requeued s prev cpu now rooms).sysSchedule.charge d := by
  have hsw : schedSwitch s prev next cpu now rooms =
      charge (requeued s prev cpu now rooms) next cpu now rooms := by
    rw [schedSwitch, if_pos hact]
    rfl
  rw [hsw]
  simp only [charged, hact, Bool.true_and, hasRecord]
  generalize requeued s prev cpu now rooms = s'
  rcases charge_cases s' next cpu now rooms with ⟨hsame, hl | ha⟩ | ⟨e, added, hl, ha⟩
  · simpa only [hl, Option.isSome_none, Bool.false_and, Bool.false_eq_true, if_false] using hsame
  · simpa only [ha, Option.isSome_none, Bool.and_false, Bool.false_eq_true, if_false] using hsame
  · simp only [hl, ha, Option.isSome_some, Bool.and_self, if_true, Option.map_some]
    refine ⟨e, added, rfl, ?_⟩
    rw [charge_of_some s' next cpu now rooms hl ha]
    exact ⟨rfl, rfl⟩

section Lookups

variable {s : State} {k : ProcId} {p : Task} {cpu : Int} {now : UInt64} {rooms : Rooms}

theorem ready_lookup_of_ne (h : procId p.pid cpu ≠ k) :
    (ready s p cpu now rooms).procSchedule.lookup k = s.procSchedule.lookup k ∧
    (ready s p cpu now rooms).enableAdd.lookup k = s.enableAdd.lookup k := by
  cases hl : s.procSchedule.lookup (procId p.pid cpu) with
  | none =>
    rw [ready_of_none s p cpu now rooms hl]
    exact ⟨BpfMap.lookup_update_of_ne _ _ _ h.symm, BpfMap.lookup_update_of_ne _ _ _ h.symm⟩
  | some e =>
    rw [ready_of_some s p cpu now rooms hl]
    exact ⟨BpfMap.lookup_store_of_ne _ _ h.symm, rfl⟩

theorem ready_enterTime {e : ScheduleEvent}
    (h : (ready s p cpu now rooms).procSchedule.lookup (procId p.pid cpu) = some e) :
    e.enterTime = now := by
  cases hl : s.procSchedule.lookup (procId p.pid cpu) with
  | none =>
    rw [ready_of_none s p cpu now rooms hl, BpfMap.lookup_update_self] at h
    split at h
    · cases h
      rfl
    · cases h
  | some e' =>
    rw [ready_of_some s p cpu now rooms hl, BpfMap.lookup_store_self] at h
    cases h
    rfl

variable (s) in
theorem requeued_lookup {next : Task}
    (h : readies k (.schedSwitch p next cpu now rooms) = none) :
    (requeued s p cpu now rooms).procSchedule.lookup k = s.procSchedule.lookup k ∧
    (requeued s p cpu now rooms).enableAdd.lookup k = s.enableAdd.lookup k := by
  unfold requeued
  by_cases hrun : p.state = taskRunning
  · rw [if_pos hrun]
    apply ready_lookup_of_ne
    intro hk
    rw [readies, if_pos ⟨hrun, hk⟩] at h
    cases h
  · rw [if_neg hrun]
    exact ⟨rfl, rfl⟩

theorem requeued_enterTime {next : Task} {t : UInt64} {e : ScheduleEvent}
    (h : readies k (.schedSwitch p next cpu now rooms) = some t)
    (he : (requeued s p cpu now rooms).procSchedule.lookup k = some e) : e.enterTime = t := by
  simp only [readies] at h
  split at h
  · rename_i hk
    cases h
    rw [requeued, if_pos hk.1, ← hk.2] at he
    exact ready_enterTime he
  · cases h

/-- A charge neither adds nor removes elements. -/
theorem charge_hasRecord : hasRecord (charge s p cpu now rooms) k = hasRecord s k := by
  rcases charge_cases s p cpu now rooms with ⟨hsame, -⟩ | ⟨e, added, hl, ha⟩
  · rw [hsame]
  · rw [charge_of_some s p cpu now rooms hl ha]
    by_cases hk : k = procId p.pid cpu
    · simp only [hasRecord, hk, BpfMap.lookup_store_self, hl, ha, Option.isSome_some]
    · simp only [hasRecord, BpfMap.lookup_store_of_ne _ _ hk]

/-- The time of a record survives a charge. -/
theorem charge_enterTime {e : ScheduleEvent}
    (h : (charge s p cpu now rooms).procSchedule.lookup k = some e) :
    ∃ e', s.procSchedule.lookup k = some e' ∧ e'.enterTime = e.enterTime := by
  rcases charge_cases s p cpu now rooms with ⟨hsame, -⟩ | ⟨e₀, added, hl, ha⟩
  · rw [hsame] at h
    exact ⟨e, h, rfl⟩
  · rw [charge_of_some s p cpu now rooms hl ha] at h
    by_cases hk : k = procId p.pid cpu
    · rw [hk, BpfMap.lookup_store_self] at h
      cases h
      exact ⟨e₀, hk ▸ hl, rfl⟩
    · rw [BpfMap.lookup_store_of_ne _ _ hk] at h
      exact ⟨e, h, rfl⟩

end Lookups

section Steps

variable {s : State} {k : ProcId} {e : Event}

/-- Only a ready event creates a record. -/
theorem hasRecord_of_step (h : hasRecord (step s e) k = true) (hr : readies k e = none) :
    hasRecord s k = true := by
  have hwake : ∀ p cpu now rooms, (if procId p.pid cpu = k then some now else none) = none →
      hasRecord (if s.schedCtrlMap.schedFunc then ready s p cpu now rooms else s) k = true →
      hasRecord s k = true := by
    intro p cpu now rooms hne hrec
    split at hrec
    · have hk : procId p.pid cpu ≠ k := by
        intro hk
        rw [if_pos hk] at hne
        cases hne
      rw [hasRecord, (ready_lookup_of_ne hk).1, (ready_lookup_of_ne hk).2] at hrec
      exact hrec
    · exact hrec
  cases e with
  | schedCtrl c => exact h
  | schedWakeup p cpu now rooms => exact hwake p cpu now rooms hr h
  | schedWakeupNew p cpu now rooms => exact hwake p cpu now rooms hr h
  | schedSwitch prev next cpu now rooms =>
    change hasRecord (schedSwitch s prev next cpu now rooms) k = true at h
    unfold schedSwitch at h
    split at h
    · have hq := requeued_lookup s hr
      rw [charge_hasRecord] at h
      change hasRecord (requeued s prev cpu now rooms) k = true at h
      rw [hasRecord, hq.1, hq.2] at h
      exact h
    · exact h
  | schedProcessExit p cpu =>
    change hasRecord (schedProcessExit s p cpu) k = true at h
    unfold schedProcessExit at h
    split at h
    · by_cases hk : k = procId p.pid cpu
      · simp only [hasRecord, hk, BpfMap.lookup_delete_self] at h
        cases h
      · simp only [hasRecord, BpfMap.lookup_delete_of_ne _ hk] at h
        exact h
    · exact h

theorem charged_of_runs (hact : s.schedCtrlMap.schedFunc = true) (hruns : runs k e = true)
    (h : hasRecord (step s e) k = true) : ∃ d, charged s e = some (k, d) := by
  cases e with
  | schedSwitch prev next cpu now rooms =>
    have hk : procId next.pid cpu = k := of_decide_eq_true hruns
    change hasRecord (schedSwitch s prev next cpu now rooms) k = true at h
    rw [schedSwitch, if_pos hact, charge_hasRecord] at h
    change hasRecord (requeued s prev cpu now rooms) k = true at h
    simp only [charged, hact, hk, h, Bool.and_self, if_true]
    rw [hasRecord, Bool.and_eq_true] at h
    obtain ⟨rec, hrec⟩ := Option.isSome_iff_exists.mp h.1
    rw [hrec]
    exact ⟨_, rfl⟩
  | schedCtrl _ => cases hruns
  | schedWakeup _ _ _ _ => cases hruns
  | schedWakeupNew _ _ _ _ => cases hruns
  | schedProcessExit _ _ => cases hruns

theorem charged_of_record (hact : s.schedCtrlMap.schedFunc = true) (hruns : runs k e = true)
    (hr : readies k e = none) (h : hasRecord s k = true) : ∃ d, charged s e = some (k, d) := by
  cases e with
  | schedSwitch prev next cpu now rooms =>
    apply charged_of_runs hact hruns
    have hq := requeued_lookup s hr
    change hasRecord (schedSwitch s prev next cpu now rooms) k = true
    rw [schedSwitch, if_pos hact, charge_hasRecord]
    change hasRecord (requeued s prev cpu now rooms) k = true
    rw [hasRecord, hq.1, hq.2]
    exact h
  | schedCtrl _ => cases hruns
  | schedWakeup _ _ _ _ => cases hruns
  | schedWakeupNew _ _ _ _ => cases hruns
  | schedProcessExit _ _ => cases hruns

/-- What is charged is put on the CPU, and has a record, before the switch or since `prev` was
requeued by it. -/
theorem runs_of_charged {d : UInt64} (h : charged s e = some (k, d)) :
    runs k e = true ∧ (readies k e = none → hasRecord s k = true) := by
  cases e with
  | schedSwitch prev next cpu now rooms =>
    simp only [charged] at h
    split at h
    · rename_i hrec
      rw [Bool.and_eq_true] at hrec
      obtain ⟨rec, hl, hkd⟩ := Option.map_eq_some_iff.mp h
      cases hkd
      refine ⟨decide_eq_true rfl, fun hr => ?_⟩
      have hq := requeued_lookup s hr
      have hrec' := hrec.2
      rw [hasRecord, hq.1, hq.2] at hrec'
      exact hrec'
    · cases h
  | schedCtrl _ => cases h
  | schedWakeup _ _ _ _ => cases h
  | schedWakeupNew _ _ _ _ => cases h
  | schedProcessExit _ _ => cases h

theorem turn_of_runs (h : runs k e = true) : turn k e = some false := by
  rw [turn, if_pos h]

theorem readies_of_turn (h : turn k e = some true) : (readies k e).isSome = true := by
  unfold turn at h
  split at h
  · cases h
  · obtain ⟨t, ht, _⟩ := Option.map_eq_some_iff.mp h
    rw [ht]
    rfl

theorem runs_of_turn (h : turn k e = some false) : runs k e = true := by
  unfold turn at h
  split at h
  · assumption
  · obtain ⟨t, _, ht⟩ := Option.map_eq_some_iff.mp h
    cases ht

theorem readies_of_turn_none (h : turn k e = none) : readies k e = none := by
  unfold turn at h
  split at h
  · cases h
  · exact Option.map_eq_none_iff.mp h

end Steps

section Run

variable (c : SchedCtrl)

/-- The image stays active. -/
def Active : Event → Prop
  | .schedCtrl c => c.schedFunc = true
  | _ => True

structure ActiveRun (tr : List Event) : Prop where
  initial : c.schedFunc = true
  active : ∀ e ∈ tr, Active e

/-- Between two charges to the same task it became ready anew. -/
def SingleCharge (tr : List Event) : Prop :=
  ∀ pre e₁ mid e₂ k d₁ d₂, pre ++ [e₁] ++ mid ++ [e₂] <+: tr →
    charged ((machine c).exec pre) e₁ = some (k, d₁) →
    charged ((machine c).exec (pre ++ [e₁] ++ mid)) e₂ = some (k, d₂) →
    ∃ e ∈ mid ++ [e₂], (readies k e).isSome = true

/-- A charged delay is the time since the task became ready last. -/
def DelaySinceReady (pre : List Event) : Event → Prop
  | .schedSwitch prev next cpu now rooms =>
      ∀ k d, charged ((machine c).exec pre) (.schedSwitch prev next cpu now rooms) = some (k, d) →
        ∃ t, latest (readies k) (pre ++ [.schedSwitch prev next cpu now rooms]) = some t ∧
          d = now - t
  | _ => True

/-- A task that has a record is put on the CPU after it became ready, and not a second time. -/
def RunsReady (pre : List Event) (e : Event) : Prop :=
  ∀ k, runs k e = true → readies k e = none → hasRecord ((machine c).exec pre) k = true →
    latest (turn k) pre = some true

variable {c} {pre : List Event} {tr : List Event}

theorem ActiveRun.restrict (h : ActiveRun c tr) (hp : pre <+: tr) : ActiveRun c pre :=
  ⟨h.initial, fun e he => h.active e (hp.subset he)⟩

theorem ActiveRun.schedFunc (h : ActiveRun c tr) :
    ((machine c).exec tr).schedCtrlMap.schedFunc = true := by
  induction tr using List.reverseRecOn with
  | nil => exact h.initial
  | append_singleton pre e ih =>
    have hpre := ih (h.restrict (List.prefix_append pre [e]))
    have he := h.active e (List.mem_append_right _ (List.mem_singleton_self e))
    rw [Machine.exec_snoc]
    generalize (machine c).exec pre = s at hpre ⊢
    change (step s e).schedCtrlMap.schedFunc = true
    cases e with
    | schedCtrl c' => exact he
    | schedWakeup p cpu now rooms =>
      rw [step, schedWakeup, if_pos hpre, ready_ctrl, hpre]
    | schedWakeupNew p cpu now rooms =>
      rw [step, schedWakeupNew, if_pos hpre, ready_ctrl, hpre]
    | schedSwitch prev next cpu now rooms =>
      rw [step, schedSwitch, if_pos hpre, charge_ctrl]
      split
      · rw [ready_ctrl, hpre]
      · exact hpre
    | schedProcessExit p cpu =>
      rw [step, schedProcessExit, if_pos hpre]
      exact hpre

/-- A record holds the time of the latest ready event. -/
def HoldsLatest (s : State) (tr : List Event) : Prop :=
  ∀ k e, s.procSchedule.lookup k = some e → latest (readies k) tr = some e.enterTime

theorem HoldsLatest.requeued {s : State} (h : HoldsLatest s pre) (prev next : Task) (cpu : Int)
    (now : UInt64) (rooms : Rooms) :
    HoldsLatest (requeued s prev cpu now rooms)
      (pre ++ [Event.schedSwitch prev next cpu now rooms]) := by
  intro k e he
  cases hr : readies k (.schedSwitch prev next cpu now rooms) with
  | none =>
    rw [(requeued_lookup s hr).1] at he
    rw [latest_snoc_none pre hr]
    exact h k e he
  | some t =>
    rw [latest_snoc_some pre hr, requeued_enterTime hr he]

theorem HoldsLatest.wakeup {s : State} (h : HoldsLatest s pre) {e : Event} {p : Task} {cpu : Int}
    {now : UInt64} (rooms : Rooms)
    (he : ∀ k, readies k e = if procId p.pid cpu = k then some now else none) :
    HoldsLatest (ready s p cpu now rooms) (pre ++ [e]) := by
  intro k rec hl
  by_cases hk : procId p.pid cpu = k
  · rw [latest_snoc_some pre ((he k).trans (if_pos hk))]
    rw [← hk] at hl
    rw [ready_enterTime hl]
  · rw [latest_snoc_none pre ((he k).trans (if_neg hk))]
    rw [(ready_lookup_of_ne hk).1] at hl
    exact h k rec hl

theorem ActiveRun.holdsLatest (h : ActiveRun c tr) : HoldsLatest ((machine c).exec tr) tr := by
  induction tr using List.reverseRecOn with
  | nil =>
    intro k e he
    cases he
  | append_singleton pre e ih =>
    have hp := h.restrict (List.prefix_append pre [e])
    have hact := hp.schedFunc
    have hpre := ih hp
    rw [Machine.exec_snoc]
    generalize (machine c).exec pre = s at hpre hact ⊢
    change HoldsLatest (step s e) (pre ++ [e])
    cases e with
    | schedCtrl c' =>
      intro k e he
      rw [latest_snoc_none pre rfl]
      exact hpre k e he
    | schedWakeup p cpu now rooms =>
      rw [step, schedWakeup, if_pos hact]
      exact hpre.wakeup rooms fun _ => rfl
    | schedWakeupNew p cpu now rooms =>
      rw [step, schedWakeupNew, if_pos hact]
      exact hpre.wakeup rooms fun _ => rfl
    | schedSwitch prev next cpu now rooms =>
      rw [step, schedSwitch, if_pos hact]
      intro k e he
      obtain ⟨e', he', htime⟩ := charge_enterTime he
      rw [← htime]
      exact hpre.requeued prev next cpu now rooms k e' he'
    | schedProcessExit p cpu =>
      rw [step, schedProcessExit, if_pos hact]
      intro k e he
      rw [latest_snoc_none pre rfl]
      rw [BpfMap.lookup_delete] at he
      split at he
      · cases he
      · exact hpre k e he

theorem ActiveRun.delays (h : ActiveRun c tr) : Throughout (DelaySinceReady c) tr := by
  intro pre e hp
  have hpre := (h.restrict ((List.prefix_append pre [e]).trans hp)).holdsLatest
  cases e with
  | schedSwitch prev next cpu now rooms =>
    intro k d hd
    simp only [charged] at hd
    split at hd
    · obtain ⟨rec, hl, hkd⟩ := Option.map_eq_some_iff.mp hd
      cases hkd
      exact ⟨rec.enterTime, hpre.requeued prev next cpu now rooms _ rec hl, rfl⟩
    · cases hd
  | schedCtrl _ => trivial
  | schedWakeup _ _ _ _ => trivial
  | schedWakeupNew _ _ _ _ => trivial
  | schedProcessExit _ _ => trivial

/-- A record that is there after events which do not touch `k` was there before them. -/
theorem hasRecord_of_append (pre : List Event) {k : ProcId} {post : List Event}
    (hpost : ∀ e ∈ post, turn k e = none)
    (h : hasRecord ((machine c).exec (pre ++ post)) k = true) :
    hasRecord ((machine c).exec pre) k = true := by
  induction post using List.reverseRecOn with
  | nil =>
    rw [List.append_nil] at h
    exact h
  | append_singleton post e ih =>
    rw [← List.append_assoc, Machine.exec_snoc] at h
    have he := hpost e (List.mem_append_right _ (List.mem_singleton_self e))
    exact ih (fun x hx => hpost x (List.mem_append_left _ hx))
      (hasRecord_of_step h (readies_of_turn_none he))

/-- A record was created by a ready event. -/
theorem turn_of_hasRecord {k : ProcId} (h : hasRecord ((machine c).exec tr) k = true) :
    latest (turn k) tr ≠ none := by
  intro hnone
  have hnil := hasRecord_of_append [] (latest_eq_none.mp hnone) h
  cases hnil

theorem runsReady_of_single (h : ActiveRun c tr) (hs : SingleCharge c tr) :
    Throughout (RunsReady c) tr := by
  intro pre e hp k hruns hr hrec
  have hpre : pre <+: tr := (List.prefix_append pre [e]).trans hp
  cases hl : latest (turn k) pre with
  | none => exact absurd hl (turn_of_hasRecord hrec)
  | some b =>
    cases b with
    | true => rfl
    | false =>
      -- the previous switch to `k` charged it, and so does this one
      obtain ⟨pre', e', post, rfl, hturn, hpost⟩ := latest_eq_some hl
      have hsplit : pre' ++ e' :: post = pre' ++ [e'] ++ post := List.append_cons pre' e' post
      rw [hsplit] at hp hpre hrec
      have hpre' : pre' <+: tr := by
        rw [List.append_assoc] at hpre
        exact (List.prefix_append pre' _).trans hpre
      have hrec' := hasRecord_of_append (pre' ++ [e']) hpost hrec
      rw [Machine.exec_snoc] at hrec'
      obtain ⟨d₁, hd₁⟩ := charged_of_runs (h.restrict hpre').schedFunc (runs_of_turn hturn) hrec'
      obtain ⟨d₂, hd₂⟩ := charged_of_record (h.restrict hpre).schedFunc hruns hr hrec
      obtain ⟨x, hx, hready⟩ := hs pre' e' post e k d₁ d₂ hp hd₁ hd₂
      have hnone : readies k x = none := by
        rcases List.mem_append.mp hx with hx | hx
        · exact readies_of_turn_none (hpost x hx)
        · rw [List.mem_singleton.mp hx, hr]
      rw [hnone] at hready
      cases hready

theorem single_of_runsReady (h : Throughout (RunsReady c) tr) : SingleCharge c tr := by
  intro pre e₁ mid e₂ k d₁ d₂ hp h₁ h₂
  cases hr : readies k e₂ with
  | some t =>
    refine ⟨e₂, List.mem_append_right _ (List.mem_singleton_self e₂), ?_⟩
    rw [hr]
    rfl
  | none =>
    obtain ⟨hruns₂, hrec₂⟩ := runs_of_charged h₂
    have hturn := h (pre ++ [e₁] ++ mid) e₂ hp k hruns₂ hr (hrec₂ hr)
    have hfirst := turn_of_runs (runs_of_charged h₁).1
    cases hm : latest (turn k) mid with
    | none =>
      rw [latest_append, hm, Option.none_or, latest_snoc_some pre hfirst] at hturn
      cases hturn
    | some b =>
      rw [latest_append, hm, Option.some_or] at hturn
      cases hturn
      obtain ⟨pre', e, post, rfl, he, _⟩ := latest_eq_some hm
      exact ⟨e, by simp, readies_of_turn he⟩

/-- While the image is active, with any failures of the maps, every charged delay is the time since
the task's latest ready event; no two charges follow without a ready event in between exactly in
the runs in which a task with a record is not put on the CPU twice without one. -/
theorem single_charge_iff (c : SchedCtrl) (tr : List Event) (h : ActiveRun c tr) :
    Throughout (DelaySinceReady c) tr ∧
    (SingleCharge c tr ↔ Throughout (RunsReady c) tr) :=
  ⟨h.delays, runsReady_of_single h, single_of_runsReady⟩

end Run

section Preempted

def allOn : SchedCtrl where
  schedFunc := true
  targetPid := -1
  targetCpuId := -1
  targetTgid := -1

/-- Task 5 gets the CPU at 15, is preempted at 20 with the state `state`, and gets it back at 30. -/
def preempted (state : Nat) : List Event :=
  [.schedWakeup ⟨5, 5, 120, 0⟩ 0 10 ⟨true, true, true⟩,
    .schedSwitch ⟨0, 0, 120, 0⟩ ⟨5, 5, 120, 0⟩ 0 15 ⟨true, true, true⟩,
    .schedSwitch ⟨5, 5, 120, state⟩ ⟨6, 6, 120, 0⟩ 0 20 ⟨true, true, true⟩,
    .schedSwitch ⟨6, 6, 120, 0⟩ ⟨5, 5, 120, 0⟩ 0 30 ⟨true, true, true⟩]

theorem preempted_active (state : Nat) : ActiveRun allOn (preempted state) where
  initial := rfl
  active e he := by
    simp only [preempted, List.mem_cons, List.not_mem_nil, or_false] at he
    rcases he with h | h | h | h <;> subst h <;> trivial

theorem single_charge_iff_preempted :
    Throughout (DelaySinceReady allOn) (preempted 0) ∧
    (SingleCharge allOn (preempted 0) ↔ Throughout (RunsReady allOn) (preempted 0)) :=
  single_charge_iff allOn (preempted 0) (preempted_active 0)

/-- Preempted while its state is `TASK_INTERRUPTIBLE` already, the task is charged 5 at 15 and
20 at 30, both from its wakeup at 10. -/
theorem preempted_charged_twice :
    ActiveRun allOn (preempted 1) ∧ ¬SingleCharge allOn (preempted 1) := by
  refine ⟨preempted_active 1, fun hs => ?_⟩
  obtain ⟨e, he, hready⟩ := hs ((preempted 1).take 1) (preempted 1)[1] [(preempted 1)[2]]
    (preempted 1)[3] ⟨5, 0⟩ 5 20 (List.prefix_refl _) (by decide) (by decide)
  simp only [preempted, List.mem_append, List.mem_singleton] at he
  rcases he with he | he <;> subst he <;> revert hready <;> decide

end Preempted

end CpuSubsystem.ScheduleImage
