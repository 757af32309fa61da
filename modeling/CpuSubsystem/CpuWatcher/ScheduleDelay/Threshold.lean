import CpuSubsystem.CpuWatcher.ScheduleDelay.Charges
import CpuSubsystem.CpuWatcher.ScheduleDelay.Printer
import CpuSubsystem.Lib.Endless

/-!
# Delays over the limit

All charges go through the element 0 of `threshold_schedule`, so that a call of `schedule_print`
reads the latest one only, and prints it unless the table has an entry like it.
-/

namespace CpuSubsystem.ScheduleDelay

/-- The control is in threshold mode.  User space rejects a limit that is not positive. -/
structure ThresholdMode (c : ScheduleCtrl) : Prop where
  scheduleFunc : c.scheduleFunc = true
  minUsSet : c.minUsSet = true
  positive : 0 < c.minUs
  int : c.minUs < 2 ^ 31

/-- What is printed of a charge. -/
def Charge.entry (ch : Charge) : OutputEntry := ⟨ch.next.pid, ch.next.comm, ch.delay / 1000⟩

/-- A task other than the idle ones waited for more than the limit. -/
def Over (c : ScheduleCtrl) (ch : Charge) : Prop :=
  ch.next.pid ≠ 0 ∧ c.minUs < ((ch.delay / 1000).toNat : Int)

instance (c : ScheduleCtrl) (ch : Charge) : Decidable (Over c ch) :=
  inferInstanceAs (Decidable (_ ∧ _))

/-- The charge that a probe makes. -/
def made (c : ScheduleCtrl) (pre : List Tick) : Tick → Option Charge
  | .kernel e => ((tool c).exec pre).kernel.charges e
  | .poll => none

/-- What a call finds over the limit: the latest charge, if it is. -/
def found (c : ScheduleCtrl) (pre : List Tick) : Tick → Option OutputEntry
  | .kernel _ => none
  | .poll => (recent (made c) pre).bind fun ch => if Over c ch then some ch.entry else none

/-- The control stays, calls keep occurring, and the table is never full. -/
structure KeepsPolling (c : ScheduleCtrl) (run : ℕ → Tick) : Prop where
  constant : ∀ i c', run i ≠ .kernel (.scheduleCtrl c')
  polls : ∀ i, ∃ j ≥ i, run j = .poll ∧ ((tool c).exec (upto run j)).running = true
  notFull : ∀ i, ((tool c).exec (upto run i)).printer.seenEntries.length < maxSeen

/-- A line with the pid, the name and the delay of the charge is printed after the event `i`. -/
def PrintedAfter (c : ScheduleCtrl) (run : ℕ → Tick) (i : ℕ) (ch : Charge) : Prop :=
  ∃ j > i, ∃ previous, Line.delay ch.entry previous ∈ (tool c).emits (upto run j) (run j)

/-- A call after the event `i` comes while the latest charge has the same pid, name and delay in
microseconds, and no call before did. -/
structure FoundAfter (c : ScheduleCtrl) (run : ℕ → Tick) (i : ℕ) (ch : Charge) : Prop where
  later : ∃ j > i, found c (upto run j) (run j) = some ch.entry
  fresh : ∀ j < i, found c (upto run j) (run j) ≠ some ch.entry

/-- The element 0 of `threshold_schedule` after the latest charge. -/
def recorded : Option Charge → ProcSchedule
  | none => ⟨⟨0, 0⟩, 0, Comm.none⟩
  | some ch => ⟨ch.id, ch.delay, ch.next.comm⟩

section Step

variable {c : ScheduleCtrl} {t : Tool} {e : Event} {pre : List Tick} {ch : Charge}

theorem ThresholdMode.exceeds_iff (h : ThresholdMode c) {c' : ScheduleCtrl}
    (hc : c'.minUs = c.minUs) (latest : Option Charge) (entry : OutputEntry) :
    (exceeds c' (recorded latest) = true ∧ entry = (recorded latest).entry) ↔
      (latest.bind fun ch => if Over c ch then some ch.entry else none) = some entry := by
  cases latest with
  | none => simp [exceeds, recorded]
  | some ch =>
    have hlimit : (UInt64.ofInt c.minUs).toNat = c.minUs.toNat := by
      have hpos := h.positive
      have hint := h.int
      rw [UInt64.ofInt, Int.emod_eq_of_lt (by omega) (by omega)]
      refine UInt64.toNat_ofNat_of_lt' ?_
      rw [UInt64.size]
      omega
    have hover : exceeds c' (recorded (some ch)) = true ↔ Over c ch := by
      have hpos := h.positive
      rw [exceeds, hc, decide_eq_true_eq, Over, gt_iff_lt, UInt64.lt_iff_toNat_lt, hlimit]
      show _ < (ch.delay / 1000).toNat ∧ ch.next.pid ≠ 0 ↔ _
      rw [and_comm]
      refine and_congr_right fun _ => ?_
      omega
    rw [hover, Option.bind_some]
    by_cases ho : Over c ch
    · rw [if_pos ho, Option.some.injEq]
      exact (and_iff_right ho).trans eq_comm
    · simp [ho]

theorem recorded_step (s : State) (e : Event) (latest : Option Charge)
    (h : s.thresholdSchedule.lookup 0 = some (recorded latest)) :
    (step s e).thresholdSchedule.lookup 0 = some (recorded ((s.charges e).or latest)) := by
  have hstep := step_charges s e
  cases hch : s.charges e with
  | none =>
    rw [hch] at hstep
    rw [hstep.2.1]
    exact h
  | some ch =>
    rw [hch] at hstep
    rw [hstep.2.1, BpfArray.lookup_update_self _ _ (by omega)]
    rfl

/-- Only a call that fails ends the loop. -/
theorem running_of_step {tick : Tick} (h : ((tool c).step t tick).1.running = true) :
    t.running = true := by
  cases tick with
  | kernel e => exact h
  | poll =>
    by_contra hnot
    simp only [tool, hnot, if_false] at h

/-- The control in the map, of which a call changes only what asks for the head. -/
structure Agrees (c c' : ScheduleCtrl) : Prop where
  scheduleFunc : c'.scheduleFunc = c.scheduleFunc
  minUsSet : c'.minUsSet = c.minUsSet
  minUs : c'.minUs = c.minUs

theorem header_agrees (c : ScheduleCtrl) : Agrees c (header c).1 := by
  unfold header
  repeat' split
  all_goals exact ⟨rfl, rfl, rfl⟩

theorem header_no_delay (entry : OutputEntry) (previous : List (Nat × ProcInfo)) :
    Line.delay entry previous ∉ (header c).2 := by
  unfold header
  repeat' split
  all_goals simp

/-- A call in threshold mode. -/
theorem poll_step (hc : ThresholdMode c) (hctrl : Agrees c t.kernel.scheduleCtrlMap)
    (hrun : t.running = true) :
    (tool c).step t .poll =
      let head := header t.kernel.scheduleCtrlMap
      let r := printThreshold head.1 t.kernel t.printer
      (⟨{ t.kernel with scheduleCtrlMap := head.1 }, r.1, r.2.2 = .returned 0⟩,
        head.2 ++ r.2.1) := by
  have hfunc : t.kernel.scheduleCtrlMap.scheduleFunc = true :=
    hctrl.scheduleFunc.trans hc.scheduleFunc
  have hset : (header t.kernel.scheduleCtrlMap).1.minUsSet = true :=
    (header_agrees _).minUsSet.trans (hctrl.minUsSet.trans hc.minUsSet)
  simp only [tool, hrun, if_true, schedulePrint, hfunc, hset]

end Step

/-- What the two sides know after the events `pre`. -/
structure Reading (c : ScheduleCtrl) (pre : List Tick) (t : Tool) : Prop where
  control : Agrees c t.kernel.scheduleCtrlMap
  element : t.kernel.thresholdSchedule.lookup 0 = some (recorded (recent (made c) pre))
  table : ∀ entry, entry ∈ t.printer.seenEntries ↔ entry ∈ collect (found c) pre

section Reading

variable {c : ScheduleCtrl} {t : Tool} {e : Event} {pre : List Tick} {entry : OutputEntry}

/-- What a call that succeeds prints, and what it puts into the table. -/
theorem Reading.poll (h : Reading c pre t) (hc : ThresholdMode c) (hrun : t.running = true)
    (hok : ((tool c).step t .poll).1.running = true)
    (hfull : t.printer.seenEntries.length < maxSeen) :
    ((∃ previous, Line.delay entry previous ∈ ((tool c).step t .poll).2) ↔
      found c pre .poll = some entry ∧ entry ∉ collect (found c) pre) ∧
    (entry ∈ ((tool c).step t .poll).1.printer.seenEntries ↔
      entry ∈ collect (found c) pre ∨ found c pre .poll = some entry) := by
  rw [poll_step hc h.control hrun] at hok ⊢
  have hhead := header_agrees t.kernel.scheduleCtrlMap
  have hreads := printThreshold_reads entry h.element (of_decide_eq_true hok) hfull
  have hexceeds := hc.exceeds_iff (hhead.minUs.trans h.control.minUs) (recent (made c) pre)
    entry
  rw [hexceeds, h.table entry] at hreads
  refine ⟨?_, hreads.2⟩
  simp only [List.mem_append, header_no_delay, false_or]
  exact hreads.1

theorem Reading.kernel (h : Reading c pre ((tool c).exec pre))
    (hctrl : ∀ c', e ≠ .scheduleCtrl c') :
    Reading c (pre ++ [Tick.kernel e]) ((tool c).step ((tool c).exec pre) (.kernel e)).1 where
  control := by
    show Agrees c (step _ e).scheduleCtrlMap
    rw [step_control _ hctrl]
    exact h.control
  element := by
    rw [recent_snoc]
    exact recorded_step _ e _ h.element
  table entry := by
    rw [collect_snoc, List.mem_append]
    show _ ↔ _ ∨ entry ∈ (none : Option OutputEntry).toList
    rw [Option.toList_none, or_iff_left List.not_mem_nil]
    exact h.table entry

theorem Reading.after_poll (h : Reading c pre t) (hc : ThresholdMode c) (hrun : t.running = true)
    (hok : ((tool c).step t .poll).1.running = true)
    (hfull : t.printer.seenEntries.length < maxSeen) :
    Reading c (pre ++ [Tick.poll]) ((tool c).step t .poll).1 where
  control := by
    rw [poll_step hc h.control hrun]
    have hhead := header_agrees t.kernel.scheduleCtrlMap
    exact ⟨hhead.scheduleFunc.trans h.control.scheduleFunc,
      hhead.minUsSet.trans h.control.minUsSet, hhead.minUs.trans h.control.minUs⟩
  element := by
    have hmade : made c pre .poll = none := rfl
    rw [poll_step hc h.control hrun, recent_snoc_none hmade]
    exact h.element
  table entry := by
    rw [collect_snoc, List.mem_append, Option.mem_toList]
    exact (h.poll hc hrun hok hfull).2

end Reading

section Endless

variable {c : ScheduleCtrl} {run : ℕ → Tick} {i : ℕ} {ch : Charge}

theorem KeepsPolling.running (h : KeepsPolling c run) (n : ℕ) :
    ((tool c).exec (upto run n)).running = true := by
  obtain ⟨j, hj, -, hrun⟩ := h.polls n
  induction j, hj using Nat.le_induction with
  | base => exact hrun
  | succ j _ ih =>
    rw [upto_succ, (tool c).exec_snoc] at hrun
    exact ih (running_of_step hrun)

theorem reading (hc : ThresholdMode c) (h : KeepsPolling c run) (n : ℕ) :
    Reading c (upto run n) ((tool c).exec (upto run n)) := by
  induction n with
  | zero => exact ⟨⟨rfl, rfl, rfl⟩, rfl, fun entry => Iff.rfl⟩
  | succ n ih =>
    have hok := h.running (n + 1)
    rw [upto_succ, (tool c).exec_snoc] at hok ⊢
    cases htick : run n with
    | kernel e =>
      refine ih.kernel ?_
      rintro c' rfl
      exact h.constant n c' htick
    | poll =>
      rw [htick] at hok
      exact ih.after_poll hc (h.running n) hok (h.notFull n)

/-- A line is printed by the first call that finds what it says. -/
theorem prints_iff (hc : ThresholdMode c) (h : KeepsPolling c run) (j : ℕ) (entry : OutputEntry) :
    (∃ previous, Line.delay entry previous ∈ (tool c).emits (upto run j) (run j)) ↔
      found c (upto run j) (run j) = some entry ∧ entry ∉ collect (found c) (upto run j) := by
  cases htick : run j with
  | kernel e =>
    constructor
    · rintro ⟨previous, hmem⟩
      cases hmem
    · rintro ⟨hfound, -⟩
      cases hfound
  | poll =>
    have hok := h.running (j + 1)
    rw [upto_succ, (tool c).exec_snoc, htick] at hok
    exact ((reading hc h j).poll hc (h.running j) hok (h.notFull j)).1

theorem printedAfter_iff (hc : ThresholdMode c) (h : KeepsPolling c run)
    (hch : made c (upto run i) (run i) = some ch) :
    PrintedAfter c run i ch ↔ FoundAfter c run i ch := by
  have hfirst : PrintedAfter c run i ch ↔
      ∃ j > i, found c (upto run j) (run j) = some ch.entry ∧
        ch.entry ∉ collect (found c) (upto run j) := by
    unfold PrintedAfter
    simp only [prints_iff hc h]
  rw [hfirst, exists_first_after]
  -- the charge itself is no call
  have hself : found c (upto run i) (run i) = none := by
    cases htick : run i with
    | kernel e => rfl
    | poll =>
      rw [htick] at hch
      cases hch
  constructor
  · rintro ⟨hlater, hnone⟩
    exact ⟨hlater, fun j hj => hnone j hj.le⟩
  · rintro ⟨hlater, hfresh⟩
    refine ⟨hlater, ?_⟩
    intro j hj
    rcases hj.lt_or_eq with hj | rfl
    · exact hfresh j hj
    · rw [hself]
      exact (Option.some_ne_none _).symm

/-- A charge is printed exactly when a later call finds it, or one like it, as the latest charge
over the limit, and no call before it did. -/
theorem charge_printed (c : ScheduleCtrl) (hc : ThresholdMode c) (run : ℕ → Tick)
    (h : KeepsPolling c run) (i : ℕ) (ch : Charge)
    (hch : made c (upto run i) (run i) = some ch) :
    PrintedAfter c run i ch ↔ FoundAfter c run i ch :=
  printedAfter_iff hc h hch

end Endless

/-! ## Two runs -/

/-- Some events, and then calls for ever. -/
def thenPolls (tr : List Tick) (n : ℕ) : Tick := tr[n]?.getD .poll

section ThenPolls

variable {c : ScheduleCtrl} {t : Tool} {tr : List Tick}

theorem thenPolls_poll {n : ℕ} (h : tr.length ≤ n) : thenPolls tr n = .poll := by
  rw [thenPolls, List.getElem?_eq_none h, Option.getD_none]

/-- A call that finds the head and the delay printed leaves everything as it is. -/
theorem poll_again (hc : ThresholdMode c) (hctrl : Agrees c t.kernel.scheduleCtrlMap)
    (hrun : t.running = true)
    (hhead : header t.kernel.scheduleCtrlMap = (t.kernel.scheduleCtrlMap, []))
    (hprint : printThreshold t.kernel.scheduleCtrlMap t.kernel t.printer =
      (t.printer, [], .returned 0)) :
    (tool c).step t .poll = (t, []) := by
  rw [poll_step hc hctrl hrun]
  cases t
  simp only [hhead, hprint, List.append_nil, decide_true] at hrun ⊢
  rw [hrun]

/-- Nothing changes after the state that a call leaves as it is. -/
theorem exec_thenPolls {m n : ℕ} (hm : tr.length ≤ m) (hn : m ≤ n)
    (hfix : (tool c).step ((tool c).exec (upto (thenPolls tr) m)) .poll =
      ((tool c).exec (upto (thenPolls tr) m), [])) :
    (tool c).exec (upto (thenPolls tr) n) = (tool c).exec (upto (thenPolls tr) m) := by
  induction n, hn using Nat.le_induction with
  | base => rfl
  | succ n hn ih => rw [upto_succ, (tool c).exec_snoc, ih, thenPolls_poll (hm.trans hn), hfix]

theorem keepsPolling_thenPolls {m : ℕ} (hm : tr.length ≤ m)
    (hctrl : ∀ tick ∈ tr, ∀ c', tick ≠ .kernel (.scheduleCtrl c'))
    (hfix : (tool c).step ((tool c).exec (upto (thenPolls tr) m)) .poll =
      ((tool c).exec (upto (thenPolls tr) m), []))
    (hrun : ((tool c).exec (upto (thenPolls tr) m)).running = true)
    (hfull : ∀ i ≤ m,
      ((tool c).exec (upto (thenPolls tr) i)).printer.seenEntries.length < maxSeen) :
    KeepsPolling c (thenPolls tr) where
  constant i c' := by
    by_cases hi : i < tr.length
    · rw [thenPolls, List.getElem?_eq_getElem hi, Option.getD_some]
      exact hctrl _ (List.getElem_mem hi) c'
    · rw [thenPolls_poll (not_lt.mp hi)]
      exact Tick.noConfusion
  polls i := by
    refine ⟨max i m, le_max_left i m, thenPolls_poll (hm.trans (le_max_right i m)), ?_⟩
    rw [exec_thenPolls hm (le_max_right i m) hfix]
    exact hrun
  notFull i := by
    rcases le_total i m with hi | hi
    · exact hfull i hi
    · rw [exec_thenPolls hm hi hfix]
      exact hfull m le_rfl

end ThenPolls

def limited : ScheduleCtrl := ⟨true, true, 10000, 51⟩

theorem limited_mode : ThresholdMode limited := ⟨rfl, rfl, by decide, by decide⟩

/-- Task 5 waits for 20 ms. -/
def oneWait : List Tick :=
  [.kernel (.schedWakeupNew shell 0 1000 allRooms),
    .kernel (.schedSwitch idleTask shell 0 20001000 allRooms)]

theorem oneWait_keepsPolling : KeepsPolling limited (thenPolls oneWait) := by
  apply @keepsPolling_thenPolls limited oneWait 3 (by decide)
  · intro tick htick c' heq
    subst heq
    simp [oneWait] at htick
  · exact poll_again limited_mode ⟨rfl, rfl, rfl⟩ (by decide) (by decide) (by decide)
  · decide
  · decide

theorem charge_printed_oneWait :
    PrintedAfter limited (thenPolls oneWait) 1 ⟨idleTask, shell, 0, 20000000⟩ :=
  (charge_printed limited limited_mode (thenPolls oneWait) oneWait_keepsPolling 1
    ⟨idleTask, shell, 0, 20000000⟩ (by decide)).mpr ⟨⟨2, by decide, by decide⟩, by decide⟩

/-- Task 6 gets the CPU before a call reads the delay of task 5. -/
def twoWaits : List Tick :=
  [.kernel (.schedWakeupNew shell 0 1000 allRooms),
    .kernel (.schedWakeupNew editor 0 2000 allRooms),
    .kernel (.schedSwitch idleTask shell 0 20001000 allRooms),
    .kernel (.schedSwitch shell editor 0 30001000 allRooms)]

theorem twoWaits_keepsPolling : KeepsPolling limited (thenPolls twoWaits) := by
  apply @keepsPolling_thenPolls limited twoWaits 5 (by decide)
  · intro tick htick c' heq
    subst heq
    simp [twoWaits] at htick
  · exact poll_again limited_mode ⟨rfl, rfl, rfl⟩ (by decide) (by decide) (by decide)
  · decide
  · decide

/-- A delay that another charge overwrites before the next call is never printed. -/
theorem overwritten_delay_lost : ∃ c run i ch, ThresholdMode c ∧ KeepsPolling c run ∧
    made c (upto run i) (run i) = some ch ∧ Over c ch ∧ ¬PrintedAfter c run i ch := by
  refine ⟨limited, thenPolls twoWaits, 2, ⟨idleTask, shell, 0, 20000000⟩, limited_mode,
    twoWaits_keepsPolling, by decide, by decide, ?_⟩
  rw [printedAfter_iff limited_mode twoWaits_keepsPolling (by decide)]
  rintro ⟨⟨j, hj, hfound⟩, -⟩
  have hlatest : ∀ n ≥ 4, recent (made limited) (upto (thenPolls twoWaits) n) =
      some ⟨shell, editor, 0, 29999000⟩ := by
    intro n hn
    induction n, hn using Nat.le_induction with
    | base => decide
    | succ n hn ih =>
      have hpoll : thenPolls twoWaits n = .poll := thenPolls_poll hn
      rw [upto_succ, hpoll, recent_snoc_none rfl]
      exact ih
  by_cases hlast : j = 3
  · subst hlast
    revert hfound
    decide
  · have hj4 : 4 ≤ j := by omega
    rw [thenPolls_poll hj4, found, hlatest j hj4] at hfound
    revert hfound
    decide

end CpuSubsystem.ScheduleDelay
