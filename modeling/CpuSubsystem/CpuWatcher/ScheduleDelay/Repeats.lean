import CpuSubsystem.CpuWatcher.ScheduleDelay.Threshold
import CpuSubsystem.Lib.Repeats

/-!
# Delays that are printed again

Each call of `schedule_print` comes with a content of the maps of its own.  The table of the entries
that were printed has room for `MAX_ENTRIES` of them.
-/

namespace CpuSubsystem.ScheduleDelay

/-- The calls of `schedule_print`, whatever the maps hold at each of them. -/
def calls : Machine Printer State Line where
  init := ⟨false, []⟩
  step p s :=
    let (_, p, lines, _) := schedulePrint s p
    (p, lines)

/-- The pid, the name and the delay on a line. -/
def Line.entry : Line → Option OutputEntry
  | .delay entry _ => some entry
  | _ => none

/-- What a call in threshold mode finds: a delay over the limit, of a task with a history. -/
def finding (s : State) : Option OutputEntry :=
  (s.thresholdSchedule.lookup 0).bind fun info =>
    if s.scheduleCtrlMap.scheduleFunc ∧ s.scheduleCtrlMap.minUsSet ∧
        exceeds s.scheduleCtrlMap info ∧ (s.procHistories.lookup info.id).isSome then
      some info.entry
    else none

/-- No two lines have the same pid, name and delay in microseconds. -/
def PrintsOnce (lines : List Line) : Prop := (lines.filterMap Line.entry).Nodup

section Calls

variable {s : State} {p : Printer} {c : ScheduleCtrl} {e : OutputEntry}

theorem exceeds_congr {c' : ScheduleCtrl} (h : c'.minUs = c.minUs) (info : ProcSchedule) :
    exceeds c' info = exceeds c info := by
  unfold exceeds
  rw [h]

theorem header_entries (c : ScheduleCtrl) : (header c).2.filterMap Line.entry = [] := by
  unfold header
  repeat' split
  all_goals rfl

theorem printAverages_entries (info : SumSchedule) (p : Printer) :
    (printAverages info p).2.1.filterMap Line.entry = [] ∧
      (printAverages info p).1.seenEntries = p.seenEntries := by
  unfold printAverages
  repeat' split
  all_goals exact ⟨rfl, rfl⟩

/-- Without a finding a call prints no delay and leaves the table. -/
theorem call_of_none (h : finding s = none) :
    (calls.step p s).2.filterMap Line.entry = [] ∧
      (calls.step p s).1.seenEntries = p.seenEntries := by
  have hagrees := header_agrees s.scheduleCtrlMap
  simp only [calls, schedulePrint]
  cases hfunc : s.scheduleCtrlMap.scheduleFunc with
  | false => exact ⟨rfl, rfl⟩
  | true =>
    simp only [if_true, List.filterMap_append, header_entries, List.nil_append,
      hagrees.minUsSet]
    cases hset : s.scheduleCtrlMap.minUsSet with
    | false => exact printAverages_entries _ _
    | true =>
      simp only [if_true, printThreshold, exceeds_congr hagrees.minUs]
      cases hinfo : s.thresholdSchedule.lookup 0 with
      | none => exact ⟨rfl, rfl⟩
      | some info =>
        simp only [finding, hinfo, hfunc, hset, Option.bind_some, true_and, ite_eq_right_iff,
          reduceCtorEq, imp_false, not_and] at h
        by_cases hex : exceeds s.scheduleCtrlMap info = true
        · have hhistory : s.procHistories.lookup info.id = none := by
            simpa using h hex
          simp [hex, hhistory]
        · simp [hex]

/-- A finding is printed and goes into the table, unless the table has it. -/
theorem call_of_some (h : finding s = some e) :
    (calls.step p s).2.filterMap Line.entry = (if e ∈ p.seenEntries then [] else [e]) ∧
      (calls.step p s).1.seenEntries =
        if e ∈ p.seenEntries then p.seenEntries else addEntry p.seenEntries e := by
  have hagrees := header_agrees s.scheduleCtrlMap
  obtain ⟨info, hinfo, hfound⟩ := Option.bind_eq_some_iff.mp h
  split at hfound
  · rename_i hcond
    obtain ⟨hfunc, hset, hex, hhistory⟩ := hcond
    obtain ⟨prevInfo, hprev⟩ := Option.isSome_iff_exists.mp hhistory
    cases hfound
    simp only [calls, schedulePrint, hfunc, if_true, hagrees.minUsSet, hset, printThreshold, hinfo,
      exceeds_congr hagrees.minUs, hex, hprev, List.filterMap_append, header_entries,
      List.nil_append, entryExists_iff]
    split
    · exact ⟨rfl, rfl⟩
    · exact ⟨rfl, rfl⟩
  · cases hfound

/-- The table and the lines of a run of calls. -/
theorem calls_shown (ss : List State) :
    ((calls.exec ss).seenEntries, (calls.emitted ss).filterMap Line.entry) =
      shown maxSeen (ss.filterMap finding) := by
  induction ss using List.reverseRecOn with
  | nil => rfl
  | append_singleton ss s ih =>
    obtain ⟨htable, hlines⟩ := Prod.ext_iff.mp ih
    simp only at htable hlines
    rw [calls.exec_snoc, calls.emitted_snoc, List.filterMap_append, List.filterMap_append, hlines,
      Machine.emits]
    cases hf : finding s with
    | none =>
      obtain ⟨hnew, hkept⟩ := call_of_none (p := calls.exec ss) hf
      rw [hnew, hkept, htable, List.filterMap_cons_none hf, List.filterMap_nil, List.append_nil,
        List.append_nil]
    | some e =>
      obtain ⟨hnew, hkept⟩ := call_of_some (p := calls.exec ss) hf
      rw [hnew, hkept, htable, List.filterMap_cons_some hf, List.filterMap_nil, shown_snoc]
      simp only
      split
      · rw [List.append_nil]
      · rfl

theorem lines_shown (ss : List State) :
    (calls.emitted ss).filterMap Line.entry = (shown maxSeen (ss.filterMap finding)).2 :=
  congrArg Prod.snd (calls_shown ss)

/-- No finding is printed twice exactly when each one, except those of the first `MAX_ENTRIES`
different ones, is found by one call only. -/
theorem printsOnce_iff (ss : List State) :
    PrintsOnce (calls.emitted ss) ↔
      ∀ e, e ∉ (firsts (ss.filterMap finding)).take maxSeen →
        (ss.filterMap finding).count e ≤ 1 := by
  rw [PrintsOnce, lines_shown, shown_nodup]

end Calls

/-! ## A full table -/

/-- The task with this pid waited for 20 ms. -/
def waited (pid : Int) : State :=
  { initial ⟨true, true, 10000, 59⟩ with
    thresholdSchedule := BpfArray.replicate ⟨⟨pid, 0⟩, 20000000, Comm.none⟩
    procHistories := BpfMap.empty.store ⟨pid, 0⟩ ⟨⟨0, Comm.none⟩, ⟨0, Comm.none⟩⟩ }

theorem finding_waited {pid : Int} (h : pid ≠ 0) :
    finding (waited pid) = some ⟨pid, Comm.none, 20000000 / 1000⟩ := by
  have hlookup : (waited pid).thresholdSchedule.lookup 0 =
      some ⟨⟨pid, 0⟩, 20000000, Comm.none⟩ :=
    BpfArray.lookup_replicate _ (by decide)
  have hhistory : ((waited pid).procHistories.lookup ⟨pid, 0⟩).isSome = true := by
    simp only [waited, BpfMap.lookup_store_self, Option.isSome_some]
  have hexceeds : exceeds ⟨true, true, 10000, 59⟩ ⟨⟨pid, 0⟩, 20000000, Comm.none⟩ = true := by
    rw [exceeds, decide_eq_true_eq]
    exact ⟨(by decide : (20000000 : UInt64) / 1000 > UInt64.ofInt 10000), h⟩
  rw [finding, hlookup, Option.bind_some, if_pos ⟨rfl, rfl, hexceeds, hhistory⟩]
  rfl

/-- One task more than `cap`, and the last one once more. -/
def oneMore (cap : Nat) : List State :=
  (List.range (cap + 1)).map (fun n : Nat => waited (n + 1)) ++ [waited (cap + 1)]

theorem findings_oneMore (cap : Nat) : (oneMore cap).filterMap finding =
    (List.range (cap + 1)).map (fun n : Nat => ⟨n + 1, Comm.none, 20000000 / 1000⟩) ++
      [⟨cap + 1, Comm.none, 20000000 / 1000⟩] := by
  have hfinding : ∀ n : Nat,
      finding (waited (n + 1)) = some ⟨n + 1, Comm.none, 20000000 / 1000⟩ :=
    fun n => finding_waited (by omega)
  rw [oneMore, List.filterMap_append, List.filterMap_map, List.filterMap_cons_some (hfinding cap),
    List.filterMap_nil, ← List.filterMap_eq_map]
  congr 1
  apply List.filterMap_congr
  intro n _
  exact hfinding n

theorem oneMore_shown (cap : Nat) :
    ¬ (shown cap ((oneMore cap).filterMap finding)).2.Nodup := by
  rw [findings_oneMore]
  apply shown_again (f := fun n : Nat => (⟨n + 1, Comm.none, 20000000 / 1000⟩ : OutputEntry))
  intro n m heq
  have hpid := congrArg OutputEntry.pid heq
  simp only at hpid
  omega

/-- When the table is full, the task that found no room in it is printed twice. -/
theorem fullTable_prints_twice :
    ¬ ∀ ss : List State, (∀ s ∈ ss, s.scheduleCtrlMap.minUsSet = true) →
      PrintsOnce (calls.emitted ss) := by
  intro h
  have hmode : ∀ s ∈ oneMore maxSeen, s.scheduleCtrlMap.minUsSet = true := by
    intro s hs
    rw [oneMore, List.mem_append, List.mem_map, List.mem_singleton] at hs
    rcases hs with ⟨n, -, rfl⟩ | rfl
    · rfl
    · rfl
  have honce := h (oneMore maxSeen) hmode
  rw [PrintsOnce, lines_shown] at honce
  exact oneMore_shown maxSeen honce

end CpuSubsystem.ScheduleDelay
