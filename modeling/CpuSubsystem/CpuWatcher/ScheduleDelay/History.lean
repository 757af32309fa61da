import CpuSubsystem.CpuWatcher.ScheduleDelay.Charges
import CpuSubsystem.Lib.Capacity

/-!
# The process before

Every charge writes `threshold_schedule` and `proc_histories`, but an exit deletes nothing of the
latter: it keeps the first 10240 processes that ever got the CPU, and refuses all others.
-/

namespace CpuSubsystem.ScheduleDelay

/-- The rooms that there are when a map holds `max_entries` elements at most. -/
def State.rooms (s : State) : Rooms where
  hasScheduled := s.hasScheduled.keys.card < maxEntries
  enterSchedule := s.enterSchedule.keys.card < maxEntries
  procHistories := s.procHistories.keys.card < maxEntries

def Event.rooms : Event → Option Rooms
  | .schedWakeup _ _ _ rooms | .schedWakeupNew _ _ _ rooms | .schedSwitch _ _ _ _ rooms =>
    some rooms
  | _ => none

/-- An update of a new key fails exactly when the map is full. -/
def Sized (c : ScheduleCtrl) (pre : List Event) (e : Event) : Prop :=
  ∀ rooms, e.rooms = some rooms → rooms = ((machine c).exec pre).rooms

/-- The task that was charged last is in `threshold_schedule`, and the latest entry of its history
is the task that it replaced. -/
def HistoryRight (c : ScheduleCtrl) (tr : List Event) : Prop :=
  ∀ ch, (charges c tr).getLast? = some ch →
    ∃ info history, ((machine c).exec tr).thresholdSchedule.lookup 0 = some info ∧
      info.id = ch.id ∧ ((machine c).exec tr).procHistories.lookup info.id = some history ∧
      history.last1 = ⟨ch.prev.pid, ch.prev.comm⟩

/-- The task that was charged last is among the first 10240 that were charged. -/
def AmongCharged (c : ScheduleCtrl) (tr : List Event) : Prop :=
  ∀ ch, (charges c tr).getLast? = some ch →
    AmongFirst maxEntries ((charges c tr).map Charge.id) ch.id

section History

variable {c : ScheduleCtrl} {pre tr : List Event} {e : Event} {ch : Charge}

theorem charges_snoc (c : ScheduleCtrl) (pre : List Event) (e : Event) :
    charges c (pre ++ [e]) = charges c pre ++ (((machine c).exec pre).charges e).toList :=
  collect_snoc _ pre e

/-- Rule for what the charges of a run leave in the state. -/
theorem charges_run {P : List Charge → State → Prop} (c : ScheduleCtrl) (tr : List Event)
    (hinit : P [] (initial c))
    (hskip : ∀ chs s e, s.charges e = none → P chs s → P chs (step s e))
    (hcharge : ∀ chs s e ch, s.charges e = some ch → P chs s → P (chs ++ [ch]) (step s e)) :
    P (charges c tr) ((machine c).exec tr) := by
  induction tr using List.reverseRecOn with
  | nil => exact hinit
  | append_singleton pre e ih =>
    rw [Machine.exec_snoc, charges_snoc]
    cases hch : ((machine c).exec pre).charges e with
    | none =>
      rw [Option.toList_none, List.append_nil]
      exact hskip _ _ e hch ih
    | some ch =>
      rw [Option.toList_some]
      exact hcharge _ _ e ch hch ih

/-- Only a switch charges. -/
theorem room_of_sized (h : Sized c pre e) (hch : ((machine c).exec pre).charges e = some ch) :
    e.room = decide (((machine c).exec pre).procHistories.keys.card < maxEntries) := by
  cases e with
  | schedSwitch prev next cpu now rooms => exact congrArg Rooms.procHistories (h rooms rfl)
  | _ => cases hch

theorem holdsFirst (h : Throughout (Sized c) tr) :
    HoldsFirst maxEntries ((charges c tr).map Charge.id) ((machine c).exec tr).procHistories := by
  induction tr using List.reverseRecOn with
  | nil => exact holdsFirst_empty
  | append_singleton pre e ih =>
    have hpre := ih h.of_snoc
    have hstep := step_charges ((machine c).exec pre) e
    rw [Machine.exec_snoc, charges_snoc, List.map_append]
    show HoldsFirst _ _ (step _ e).procHistories
    cases hch : ((machine c).exec pre).charges e with
    | none =>
      rw [hch] at hstep
      rw [hstep.2.2, Option.toList_none, List.map_nil, List.append_nil]
      exact hpre
    | some ch =>
      rw [hch] at hstep
      rw [hstep.2.2, Option.toList_some, List.map_singleton]
      exact hpre.update (room_of_sized h.last hch)

/-- What a charge leaves in the two maps. -/
structure Recorded (s : State) (ch : Charge) : Prop where
  threshold : s.thresholdSchedule.lookup 0 = some ⟨ch.id, ch.delay, ch.next.comm⟩
  history : ∀ h, s.procHistories.lookup ch.id = some h → h.last1 = ⟨ch.prev.pid, ch.prev.comm⟩

theorem recorded_charge (h : (charges c tr).getLast? = some ch) :
    Recorded ((machine c).exec tr) ch := by
  have hrun := charges_run (P := fun chs s => ∀ ch, chs.getLast? = some ch → Recorded s ch) c tr
    (fun ch hnil => nomatch hnil) ?_ ?_
  · exact hrun ch h
  · intro chs s e hch ih ch hlast
    have hstep := step_charges s e
    rw [hch] at hstep
    obtain ⟨hthreshold, hhistory⟩ := ih ch hlast
    exact ⟨by rw [hstep.2.1, hthreshold], by rw [hstep.2.2]; exact hhistory⟩
  · intro chs s e ch' hch _ ch hlast
    have hstep := step_charges s e
    rw [hch] at hstep
    rw [List.getLast?_append, List.getLast?_singleton, Option.some_or] at hlast
    cases hlast
    refine ⟨?_, ?_⟩
    · rw [hstep.2.1, BpfArray.lookup_update_self _ _ (by omega)]
    · intro history
      rw [hstep.2.2, BpfMap.lookup_update_self]
      intro hlookup
      split at hlookup
      · cases hlookup
        rfl
      · cases hlookup

theorem historyRight_iff (h : Throughout (Sized c) tr) :
    HistoryRight c tr ↔ AmongCharged c tr := by
  apply forall_congr'
  intro ch
  apply imp_congr_right
  intro hlast
  have hrec := recorded_charge hlast
  rw [← (holdsFirst h).mem, BpfMap.mem_keys, Option.isSome_iff_exists]
  constructor
  · rintro ⟨info, history, hinfo, hid, hlookup, -⟩
    rw [hid] at hlookup
    exact ⟨history, hlookup⟩
  · rintro ⟨history, hlookup⟩
    exact ⟨_, history, hrec.threshold, rfl, hlookup, hrec.history history hlookup⟩

/-- In a run with maps of 10240 elements, the history of the task in `threshold_schedule` is there
and right exactly when the task is among the first 10240 that were charged. -/
theorem history_kept (c : ScheduleCtrl) (tr : List Event) (h : Throughout (Sized c) tr) :
    HistoryRight c tr ↔ AmongCharged c tr :=
  historyRight_iff h

end History

/-! ## Tasks that come and go -/

/-- `TASK_DEAD`. -/
abbrev taskDead : Nat := 128

/-- The pids of the tasks that were seen and have not exited, idle tasks apart. -/
def alive (pids : Finset Int) : Event → Finset Int
  | .schedWakeup p _ _ _ | .schedWakeupNew p _ _ _ => insert p.pid pids
  | .schedSwitch prev next _ _ _ =>
    insert next.pid (if prev.state = taskDead then pids else insert prev.pid pids)
  | .schedProcessExit p _ => pids.erase p.pid
  | .scheduleCtrl _ => pids

def live (tr : List Event) : Finset Int := (tr.foldl alive ∅).erase 0

def worker (n state : Nat) : Task := ⟨n + 1, state, Comm.none⟩

/-- An event whose rooms are those that there are. -/
def grow (c : ScheduleCtrl) (tr : List Event) (e : Rooms → Event) : List Event :=
  tr ++ [e ((machine c).exec tr).rooms]

def roundTime (n : Nat) : UInt64 := 2000 * UInt64.ofNat n

def arrives (n : Nat) (rooms : Rooms) : Event :=
  .schedWakeupNew (worker (n + 1) taskRunning) 0 (roundTime n) rooms

def replaces (n : Nat) (rooms : Rooms) : Event :=
  .schedSwitch (worker n taskDead) (worker (n + 1) taskRunning) 0 (roundTime n + 1000) rooms

def leaves (n : Nat) (_ : Rooms) : Event := .schedProcessExit (worker (n + 1) taskRunning) 0

/-- Task after task is created, waits for 1 µs, replaces the dead one before it, and exits. -/
def rounds (c : ScheduleCtrl) : Nat → List Event
  | 0 => []
  | n + 1 => grow c (grow c (grow c (rounds c n) (arrives n)) (replaces n)) (leaves n)

/-- The charge of the round `n`. -/
def roundCharge (n : Nat) : Charge := ⟨worker n taskDead, worker (n + 1) taskRunning, 0, 1000⟩

section Rounds

variable {c : ScheduleCtrl}

theorem grow_sized {tr : List Event} {e : Rooms → Event} (h : Throughout (Sized c) tr)
    (he : ∀ rooms r, (e rooms).rooms = some r → r = rooms) :
    Throughout (Sized c) (grow c tr e) :=
  h.snoc fun r hr => he _ r hr

theorem rounds_sized (c : ScheduleCtrl) (n : Nat) : Throughout (Sized c) (rounds c n) := by
  induction n with
  | zero => exact throughout_nil
  | succ n ih =>
    refine grow_sized (grow_sized (grow_sized ih ?_) ?_) ?_
    · intro rooms r hr
      cases hr
      rfl
    · intro rooms r hr
      cases hr
      rfl
    · intro rooms r hr
      cases hr

/-- At most one task is alive at any time. -/
theorem rounds_live (c : ScheduleCtrl) (n : Nat) :
    (rounds c n).foldl alive ∅ = ∅ ∧
      Throughout (fun pre e => (live (pre ++ [e])).card ≤ 1) (rounds c n) := by
  induction n with
  | zero => exact ⟨rfl, throughout_nil⟩
  | succ n ih =>
    obtain ⟨hnone, hlive⟩ := ih
    refine ⟨?_, ((hlive.snoc ?_).snoc ?_).snoc ?_⟩
    · simp only [rounds, grow, List.foldl_append, List.foldl_cons, List.foldl_nil, hnone, alive,
        arrives, replaces, leaves, worker, if_true]
      simp
    all_goals
      simp only [live, grow, List.foldl_append, List.foldl_cons, List.foldl_nil, hnone, alive,
        arrives, replaces, leaves, worker, if_true]
      refine Finset.card_erase_le.trans ?_
      simp

def roundId (n : Nat) : ProcId := ⟨n + 2, 0⟩

theorem roundCharge_id (n : Nat) : (roundCharge n).id = roundId n := by
  have hpid : ((n + 1 : Nat) + 1 : Int) = n + 2 := by omega
  have hne : (n + 2 : Int) ≠ 0 := by omega
  simp only [Charge.id, roundCharge, procId, worker, hpid, if_neg hne, roundId]

theorem step_arrives {s : State} (hactive : s.scheduleCtrlMap.scheduleFunc = true)
    (hhas : s.hasScheduled.keys = ∅) (henter : s.enterSchedule.keys = ∅) (n : Nat) :
    step s (arrives n s.rooms) =
      { s with
        hasScheduled := s.hasScheduled.store (roundId n) false
        enterSchedule := s.enterSchedule.store (roundId n) ⟨n + 2, 1, roundTime n⟩ } := by
  have hrooms : s.rooms = ⟨true, true, s.rooms.procHistories⟩ := by
    simp [State.rooms, hhas, henter]
  have hid : procId (worker (n + 1) taskRunning).pid 0 = roundId n := roundCharge_id n
  have hpid : (worker (n + 1) taskRunning).pid = (n + 2 : Int) := by
    show ((n + 1 : Nat) + 1 : Int) = n + 2
    omega
  show schedWakeupNew s (worker (n + 1) taskRunning) 0 (roundTime n) s.rooms = _
  rw [schedWakeupNew, if_pos hactive, enlist, hid, hpid, hrooms]
  simp only [BpfMap.update_true]

/-- The dead task does not become ready; the new one is charged. -/
theorem step_replaces {s : State} {n : Nat} (rooms : Rooms)
    (hhas : s.hasScheduled.lookup (roundId n) = some false)
    (henter : s.enterSchedule.lookup (roundId n) = some ⟨n + 2, 1, roundTime n⟩) :
    s.charges (replaces n rooms) = some (roundCharge n) ∧
      (step s (replaces n rooms)).scheduleCtrlMap = s.scheduleCtrlMap ∧
      (step s (replaces n rooms)).hasScheduled = s.hasScheduled.store (roundId n) true ∧
      (step s (replaces n rooms)).enterSchedule = s.enterSchedule := by
  have hid : procId (worker (n + 1) taskRunning).pid 0 = roundId n := roundCharge_id n
  have hrequeue : requeue s (worker n taskDead) 0 (roundTime n + 1000) rooms = s :=
    if_neg (show ¬taskDead = taskRunning by decide)
  have hdelay : roundTime n + 1000 - roundTime n = 1000 := add_sub_cancel_left _ _
  have hstep : step s (replaces n rooms) =
      charge s (worker n taskDead) (worker (n + 1) taskRunning) 0 (roundTime n + 1000) rooms := by
    show schedSwitch s _ _ 0 _ rooms = _
    rw [schedSwitch, hrequeue]
  rw [← hid] at hhas henter
  refine ⟨?_, ?_⟩
  · simp only [State.charges, replaces, hrequeue, hhas, henter, Option.isSome_some, if_true,
      Option.map_some, hdelay, roundCharge]
  · rw [hstep, charge_takes _ _ _ _ _ henter hhas, hid]
    exact ⟨rfl, rfl, rfl⟩

/-- Between two rounds the first two maps are empty. -/
structure Between (s : State) : Prop where
  active : s.scheduleCtrlMap.scheduleFunc = true
  has : s.hasScheduled.keys = ∅
  enter : s.enterSchedule.keys = ∅

theorem exec_grow (tr : List Event) (e : Rooms → Event) :
    (machine c).exec (grow c tr e) =
      step ((machine c).exec tr) (e ((machine c).exec tr).rooms) :=
  (machine c).exec_snoc tr _

theorem charges_grow (tr : List Event) (e : Rooms → Event) :
    charges c (grow c tr e) = charges c tr ++
      (((machine c).exec tr).charges (e ((machine c).exec tr).rooms)).toList :=
  charges_snoc c tr _

theorem rounds_between (hc : c.scheduleFunc = true) (n : Nat) :
    Between ((machine c).exec (rounds c n)) ∧
      charges c (rounds c n) = (List.range n).map roundCharge := by
  induction n with
  | zero => exact ⟨⟨hc, BpfMap.keys_empty, BpfMap.keys_empty⟩, rfl⟩
  | succ n ih =>
    obtain ⟨hbetween, hcharges⟩ := ih
    have harrives := step_arrives hbetween.active hbetween.has hbetween.enter n
    have hid : procId (worker (n + 1) taskRunning).pid 0 = roundId n := roundCharge_id n
    rw [rounds, exec_grow, charges_grow, exec_grow, charges_grow, charges_grow, exec_grow, harrives]
    generalize hs : ({ (machine c).exec (rounds c n) with
      hasScheduled := ((machine c).exec (rounds c n)).hasScheduled.store (roundId n) false
      enterSchedule := ((machine c).exec (rounds c n)).enterSchedule.store (roundId n)
        ⟨n + 2, 1, roundTime n⟩ } : State) = s
    obtain ⟨hcharge, hcontrol, hhas, henter⟩ := step_replaces s.rooms
      (by rw [← hs]; exact BpfMap.lookup_store_self _ _ _ : s.hasScheduled.lookup _ = _)
      (by rw [← hs]; exact BpfMap.lookup_store_self _ _ _ : s.enterSchedule.lookup _ = _)
    refine ⟨⟨?_, ?_, ?_⟩, ?_⟩
    · show (step s (replaces n s.rooms)).scheduleCtrlMap.scheduleFunc = true
      rw [hcontrol, ← hs]
      exact hbetween.active
    · show ((step s (replaces n s.rooms)).hasScheduled.delete (procId _ 0)).keys = ∅
      rw [hhas, ← hs, hid, BpfMap.keys_delete, BpfMap.keys_store, BpfMap.keys_store, hbetween.has]
      simp
    · show ((step s (replaces n s.rooms)).enterSchedule.delete (procId _ 0)).keys = ∅
      rw [henter, ← hs, hid, BpfMap.keys_delete, BpfMap.keys_store, hbetween.enter]
      simp
    · rw [hcharge, hcharges, List.range_succ, List.map_append]
      show (_ ++ [] ++ [roundCharge n]) ++ [] = _
      rw [List.append_nil, List.append_nil]
      rfl

end Rounds

theorem oneRound_amongCharged : AmongCharged control (rounds control 1) := by
  intro ch hlast
  rw [(rounds_between rfl 1).2] at hlast ⊢
  cases hlast
  exact ⟨[], [], rfl, List.not_mem_nil, by decide⟩

theorem history_kept_oneRound : HistoryRight control (rounds control 1) :=
  (history_kept control (rounds control 1) (rounds_sized control 1)).mpr oneRound_amongCharged

/-- At most one task is alive at any time, but the history of the 10241st is refused. -/
theorem late_task_without_history : ∃ c tr, Throughout (Sized c) tr ∧
    Throughout (fun pre e => (live (pre ++ [e])).card ≤ maxEntries) tr ∧ ¬HistoryRight c tr := by
  have hsized := rounds_sized control 10241
  have hcharges := (rounds_between (c := control) rfl 10241).2
  refine ⟨control, rounds control 10241, hsized, ?_, ?_⟩
  · intro pre e hp
    exact ((rounds_live control 10241).2 pre e hp).trans (by decide)
  · rw [historyRight_iff hsized]
    intro h
    have hids : (charges control (rounds control 10241)).map Charge.id =
        (List.range 10240).map roundId ++ [roundId 10240] := by
      rw [hcharges, List.map_map, List.range_succ, List.map_append]
      simp only [Function.comp_def, roundCharge_id, List.map_singleton]
    have hinj : Function.Injective roundId := by
      intro i j hij
      have hpid := congrArg ProcId.pid hij
      simp only [roundId] at hpid
      omega
    have hnodup : ((List.range 10240).map roundId).Nodup := List.nodup_range.map hinj
    have hlast := h (roundCharge 10240) (by
      rw [hcharges, List.range_succ, List.map_append]
      exact List.getLast?_concat)
    rw [hids, roundCharge_id, amongFirst_snoc] at hlast
    rcases hlast with hlast | ⟨-, -, hlt⟩
    · obtain ⟨i, hi, heq⟩ := List.mem_map.mp hlast.mem
      rw [hinj heq, List.mem_range] at hi
      omega
    · rw [List.toFinset_card_of_nodup hnodup, List.length_map, List.length_range] at hlt
      exact lt_irrefl _ hlt

end CpuSubsystem.ScheduleDelay
