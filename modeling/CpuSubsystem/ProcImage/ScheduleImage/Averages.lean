import CpuSubsystem.ProcImage.ScheduleImage.Printer

/-!
# Whether the averages are defined

`print_schedule` divides by the `count` of the record that it shows and by the `sum_count` of
`sys_schedule`.  The former is 1 from the creation of the record on, the latter is 0 until the first
delay is charged.
-/

namespace CpuSubsystem.ScheduleImage

/-- How many delays have been charged, in all and to each record of `proc_schedule` since it was
created, and the number that the record of a thread had when it was last copied to
`tg_schedule`. -/
structure Counts where
  sys : Nat
  proc : ProcId → Nat
  group : Int → Nat

namespace Counts

def zero : Counts := ⟨0, fun _ => 0, fun _ => 0⟩

def ready (n : Counts) (s : State) (p : Task) (cpu : Int) : Counts :=
  if (s.procSchedule.lookup (procId p.pid cpu)).isSome then n
  else { n with proc := Function.update n.proc (procId p.pid cpu) 0 }

def charge (n : Counts) (s : State) (next : Task) (cpu : Int) : Counts :=
  let pd := procId next.pid cpu
  if (s.procSchedule.lookup pd).isSome ∧ (s.enableAdd.lookup pd).isSome then
    { sys := n.sys + 1
      proc := Function.update n.proc pd (n.proc pd + 1)
      group :=
        if next.tgid = s.schedCtrlMap.targetTgid then
          Function.update n.group next.pid (n.proc pd + 1)
        else n.group }
  else n

/-- The numbers after an event that finds the state `s`. -/
def after (n : Counts) (s : State) : Event → Counts
  | .schedWakeup p cpu _ _ | .schedWakeupNew p cpu _ _ =>
    if s.schedCtrlMap.schedFunc then n.ready s p cpu else n
  | .schedSwitch prev next cpu now rooms =>
    if s.schedCtrlMap.schedFunc then
      if prev.state = taskRunning then
        (n.ready s prev cpu).charge (ScheduleImage.ready s prev cpu now rooms) next cpu
      else n.charge s next cpu
    else n
  | .schedCtrl _ | .schedProcessExit _ _ => n

end Counts

def counts (c : SchedCtrl) (tr : List Event) : Counts :=
  (machine c).ghost Counts.zero Counts.after tr

/-- A counter of `w` bits that has counted to `n` is back at 0. -/
def Wrapped (w n : Nat) : Prop := 0 < n ∧ n % 2 ^ w = 0

instance (w n : Nat) : Decidable (Wrapped w n) := inferInstanceAs (Decidable (_ ∧ _))

/-- The elements of `proc_schedule` and `enable_add` under one key, of which the record has been
charged `m` times. -/
def CountOf (m : Nat) (e : Option ScheduleEvent) (a : Option Bool) : Prop :=
  ∀ r, e = some r → r.count = toInt (max 1 m : Nat) ∧ ∀ b, a = some b → b = decide (0 < m)

/-- The counters in the maps, against the numbers of charges. -/
structure Counted (s : State) (n : Counts) : Prop where
  sys : s.sysSchedule.sumCount = UInt64.ofNat n.sys
  proc : ∀ k, CountOf (n.proc k) (s.procSchedule.lookup k) (s.enableAdd.lookup k)
  group : ∀ p r, s.tgSchedule.lookup p = some r →
    r.count = toInt (n.group p) ∧ 0 < n.group p ∧ 0 < n.sys
  target : s.targetSchedule.count ≠ 0 →
    (∃ m : Nat, s.targetSchedule.count = toInt m) ∧ 0 < n.sys

theorem countOf_none (m : Nat) (a : Option Bool) : CountOf m none a := by
  intro r hr
  cases hr

/-- A new record, whether or not the flag was accepted. -/
theorem countOf_create (p : Task) (now : UInt64) (room : Bool) :
    CountOf 0 (some (ScheduleEvent.create p now)) (if room then some false else none) := by
  intro r hr
  cases hr
  refine ⟨rfl, fun b hb => ?_⟩
  cases room <;> cases hb
  rfl

/-- The first delay finds the 1 that the record was created with. -/
theorem CountOf.charge {m : Nat} {r : ScheduleEvent} {added : Bool}
    (h : CountOf m (some r) (some added)) (prio : Int) (delay : UInt64) :
    (r.charge added prio delay).count = toInt (m + 1 : Nat) := by
  obtain ⟨hcount, hadded⟩ := h r rfl
  show (if added = true then toInt (r.count + 1) else r.count) = _
  rw [hadded added rfl, hcount]
  by_cases hm : 0 < m
  · rw [if_pos (decide_eq_true hm), toInt_toInt_add_one, Nat.max_eq_right hm]
    rfl
  · -- the flag is still false, and the 1 stands for this delay from now on
    have hzero : m = 0 := by omega
    rw [hzero]
    rfl

section Steps

variable {s : State} {n : Counts}

theorem Counted.ready (h : Counted s n) (p : Task) (cpu : Int) (now : UInt64) (rooms : Rooms) :
    Counted (ready s p cpu now rooms) (n.ready s p cpu) := by
  cases hl : s.procSchedule.lookup (procId p.pid cpu) with
  | none =>
    have hn : n.ready s p cpu = { n with proc := Function.update n.proc (procId p.pid cpu) 0 } :=
      if_neg (by rw [hl]; decide)
    rw [ready_of_none s p cpu now rooms hl, hn]
    refine ⟨h.sys, elements_update h.proc ?_ ?_ ?_, h.group, h.target⟩
    · exact fun k hne => BpfMap.lookup_update_of_ne _ _ _ hne
    · exact fun k hne => BpfMap.lookup_update_of_ne _ _ _ hne
    · rw [BpfMap.lookup_update_self, BpfMap.lookup_update_self]
      split
      · exact countOf_create p now _
      · exact countOf_none 0 _
  | some e =>
    have hn : n.ready s p cpu = n := if_pos (by rw [hl]; rfl)
    have hk := h.proc (procId p.pid cpu)
    rw [ready_of_some s p cpu now rooms hl, hn]
    rw [hl] at hk
    refine ⟨h.sys, fun k => ?_, h.group, h.target⟩
    by_cases heq : k = procId p.pid cpu
    · rw [heq, BpfMap.lookup_store_self]
      intro r hr
      cases hr
      exact hk e rfl
    · rw [BpfMap.lookup_store_of_ne _ _ heq]
      exact h.proc k

theorem Counted.charge (h : Counted s n) (next : Task) (cpu : Int) (now : UInt64)
    (rooms : Rooms) : Counted (charge s next cpu now rooms) (n.charge s next cpu) := by
  obtain ⟨hs, hnone⟩ | ⟨e, added, hl, ha⟩ := charge_cases s next cpu now rooms
  · have hn : n.charge s next cpu = n := by
      apply if_neg
      rcases hnone with hnone | hnone
      · simp [hnone]
      · simp [hnone]
    rw [hs, hn]
    exact h
  · have hn : n.charge s next cpu =
        { sys := n.sys + 1
          proc := Function.update n.proc (procId next.pid cpu) (n.proc (procId next.pid cpu) + 1)
          group :=
            if next.tgid = s.schedCtrlMap.targetTgid then
              Function.update n.group next.pid (n.proc (procId next.pid cpu) + 1)
            else n.group } := by
      apply if_pos
      rw [hl, ha]
      exact ⟨rfl, rfl⟩
    have hk := h.proc (procId next.pid cpu)
    rw [hl, ha] at hk
    -- the count of the record that is stored under the key, and copied to the other maps
    have hcount := hk.charge next.prio (now - e.enterTime)
    rw [charge_of_some s next cpu now rooms hl ha, hn]
    refine ⟨?_, elements_update h.proc ?_ ?_ ?_, ?_, ?_⟩
    · show s.sysSchedule.sumCount + 1 = UInt64.ofNat (n.sys + 1)
      rw [h.sys, UInt64.ofNat_add]
      rfl
    · exact fun k hne => BpfMap.lookup_store_of_ne _ _ hne
    · exact fun k hne => BpfMap.lookup_store_of_ne _ _ hne
    · rw [BpfMap.lookup_store_self, BpfMap.lookup_store_self]
      intro r hr
      cases hr
      refine ⟨?_, fun b hb => ?_⟩
      · rw [hcount, Nat.max_eq_right (Nat.le_add_left 1 _)]
      · cases hb
        exact (decide_eq_true (Nat.succ_pos _)).symm
    · intro p r hr
      by_cases htgid : next.tgid = s.schedCtrlMap.targetTgid
      · simp only [if_pos htgid] at hr ⊢
        by_cases hp : p = next.pid
        · rw [hp, BpfMap.lookup_update_self] at hr
          rw [hp, Function.update_self]
          split at hr
          · cases hr
            exact ⟨hcount, Nat.succ_pos _, Nat.succ_pos _⟩
          · cases hr
        · rw [BpfMap.lookup_update_of_ne _ _ _ hp] at hr
          rw [Function.update_of_ne hp]
          obtain ⟨hold, hpos, -⟩ := h.group p r hr
          exact ⟨hold, hpos, Nat.succ_pos _⟩
      · simp only [if_neg htgid] at hr ⊢
        obtain ⟨hold, hpos, -⟩ := h.group p r hr
        exact ⟨hold, hpos, Nat.succ_pos _⟩
    · -- `target_schedule` is the record itself, or stays as it was
      intro hne
      refine ⟨?_, Nat.succ_pos _⟩
      by_cases ht : targets s.schedCtrlMap next.pid cpu = true
      · refine ⟨n.proc (procId next.pid cpu) + 1, ?_⟩
        simp only [ht, if_true]
        exact hcount
      · simp only [if_neg ht] at hne ⊢
        exact (h.target hne).1

theorem Counted.exit (h : Counted s n) (p : Task) (cpu : Int) :
    Counted (schedProcessExit s p cpu) n := by
  unfold schedProcessExit
  split
  · refine ⟨h.sys, fun k => ?_, ?_, ?_⟩
    · rw [BpfMap.lookup_delete]
      split
      · exact countOf_none _ _
      · rename_i hk
        rw [BpfMap.lookup_delete, if_neg hk]
        exact h.proc k
    · intro q r hr
      apply h.group q r
      dsimp only at hr
      split at hr
      · rw [BpfMap.lookup_delete] at hr
        split at hr
        · cases hr
        · exact hr
      · exact hr
    · -- the exit of the target sets its count to 0
      intro hne
      by_cases ht : targets s.schedCtrlMap p.pid cpu = true
      · simp only [ht, if_true, ne_eq, not_true_eq_false] at hne
      · simp only [if_neg ht] at hne ⊢
        exact h.target hne
  · exact h

theorem Counted.step (h : Counted s n) (e : Event) :
    Counted (step s e) (n.after s e) := by
  cases e with
  | schedCtrl c => exact ⟨h.sys, h.proc, h.group, h.target⟩
  | schedWakeup p cpu now rooms | schedWakeupNew p cpu now rooms =>
    show Counted (if s.schedCtrlMap.schedFunc = true then _ else s) (if _ then _ else n)
    split
    · exact h.ready p cpu now rooms
    · exact h
  | schedSwitch prev next cpu now rooms =>
    show Counted (if s.schedCtrlMap.schedFunc = true then _ else s) (if _ then _ else n)
    split
    · by_cases hrun : prev.state = taskRunning
      · simp only [if_pos hrun]
        exact (h.ready prev cpu now rooms).charge next cpu now rooms
      · simp only [if_neg hrun]
        exact h.charge next cpu now rooms
    · exact h
  | schedProcessExit p cpu => exact h.exit p cpu

end Steps

theorem counted (c : SchedCtrl) (tr : List Event) :
    Counted ((machine c).exec tr) (counts c tr) := by
  induction tr using List.reverseRecOn with
  | nil =>
    refine ⟨rfl, fun k => countOf_none _ _, fun p r hr => ?_, fun hne => absurd rfl hne⟩
    cases hr
  | append_singleton pre e ih =>
    rw [counts, (machine c).ghost_snoc, (machine c).exec_snoc]
    exact ih.step e

/-- No division of a call in the state `s` is by zero.  Without a target a record is shown that may
not have been charged yet; what is shown of a target was charged. -/
def Dividable (s : State) (n : Counts) : Prop :=
  let c := s.schedCtrlMap
  (c.targetPid = -1 ∧ c.targetTgid = -1 → ∀ k ∈ s.procSchedule.keys,
    0 < n.sys ∧ ¬ Wrapped 64 n.sys ∧ ¬ Wrapped 32 (n.proc k)) ∧
  (c.targetPid ≠ -1 ∧ c.targetTgid = -1 → s.targetSchedule.count ≠ 0 → ¬ Wrapped 64 n.sys) ∧
  (c.targetPid = -1 ∧ c.targetTgid ≠ -1 → ∀ p ∈ s.tgSchedule.keys,
    ¬ Wrapped 64 n.sys ∧ ¬ Wrapped 32 (n.group p))

instance (s : State) (n : Counts) : Decidable (Dividable s n) :=
  inferInstanceAs (Decidable (_ ∧ _ ∧ _))

section Rows

variable {s : State} {n : Counts}

theorem ofNat_ne_zero (m : Nat) : UInt64.ofNat m ≠ 0 ↔ m % 2 ^ 64 ≠ 0 := by
  rw [not_iff_not, ← UInt64.toNat_inj]
  rfl

theorem ofInt_ne_zero (x : Int) : UInt64.ofInt x ≠ 0 ↔ x % 2 ^ 64 ≠ 0 := by
  rw [not_iff_not, ← UInt64.toNat_inj]
  have hx : (UInt64.ofInt x).toNat = (x % 2 ^ 64).toNat % 2 ^ 64 := rfl
  have hzero : (0 : UInt64).toNat = 0 := rfl
  rw [hx, hzero]
  omega

/-- An `int` that is not 0 is not 0 as a `u64` either. -/
theorem ofInt_toInt_ne_zero (m : Nat) : UInt64.ofInt (toInt m) ≠ 0 ↔ m % 2 ^ 32 ≠ 0 := by
  have hmod := toInt_emod m
  obtain ⟨hlo, hhi⟩ := toInt_bounds m
  rw [ofInt_ne_zero]
  omega

theorem averaged_iff {sysEvent : SumSchedule} {r : ScheduleEvent} {m k : Nat}
    (hcount : r.count = toInt m) (hsys : sysEvent.sumCount = UInt64.ofNat k) :
    averaged sysEvent r = true ↔ m % 2 ^ 32 ≠ 0 ∧ k % 2 ^ 64 ≠ 0 := by
  rw [← ofInt_toInt_ne_zero, ← ofNat_ne_zero, ← hcount, ← hsys]
  simp [averaged]

theorem rows_divideError {κ : Type*} [DecidableEq κ] {m : BpfMap κ ScheduleEvent}
    {sysEvent : SumSchedule} {withTgid : Bool} {keys : List κ} (h : keys.toFinset ⊆ m.keys) :
    (rows m sysEvent withTgid keys).2 ≠ .divideError ↔
      ∀ k ∈ keys, ∀ r, m.lookup k = some r → averaged sysEvent r = true := by
  induction keys with
  | nil => simp [rows]
  | cons nextKey keys ih =>
    have hfirst : nextKey ∈ m.keys := h (by simp)
    have hrest : keys.toFinset ⊆ m.keys := fun k hk => h (by simp at hk; simp [hk])
    obtain ⟨e, he⟩ := Option.isSome_iff_exists.mp (BpfMap.mem_keys.mp hfirst)
    have havg : (row withTgid e sysEvent).isSome = averaged sysEvent e := row_isSome withTgid
    rw [List.forall_mem_cons, ← ih hrest]
    -- the loop ends at the first record that cannot be averaged
    cases hrow : row withTgid e sysEvent with
    | none =>
      rw [hrow] at havg
      simp [rows, he, hrow, ← havg]
    | some r =>
      rw [hrow] at havg
      simp [rows, he, hrow, ← havg]

theorem targetRow_divideError {procEvent : ScheduleEvent} {sysEvent : SumSchedule} :
    (targetRow procEvent sysEvent).2 ≠ .divideError ↔
      (procEvent.count ≠ 0 → averaged sysEvent procEvent = true) := by
  unfold targetRow
  have havg : (row false procEvent sysEvent).isSome = averaged sysEvent procEvent :=
    row_isSome false
  by_cases hcount : procEvent.count ≠ 0
  · rw [if_pos hcount, ← havg]
    cases hrow : row false procEvent sysEvent with
    | none => simp [hcount]
    | some r => simp
  · simp [hcount]

/-- The loop over a map whose counters are `num`. -/
theorem rows_defined {κ : Type*} [DecidableEq κ] {m : BpfMap κ ScheduleEvent} {keys : List κ}
    (withTgid : Bool) (num : κ → Nat) (hkeys : keys.toFinset = m.keys)
    (hsys : s.sysSchedule.sumCount = UInt64.ofNat n.sys)
    (hnum : ∀ k r, m.lookup k = some r → r.count = toInt (num k)) :
    (rows m s.sysSchedule withTgid keys).2 ≠ .divideError ↔
      ∀ k ∈ m.keys, num k % 2 ^ 32 ≠ 0 ∧ n.sys % 2 ^ 64 ≠ 0 := by
  rw [rows_divideError hkeys.subset, ← hkeys]
  constructor
  · intro h k hk
    obtain ⟨r, hr⟩ := Option.isSome_iff_exists.mp (BpfMap.mem_keys.mp (hkeys ▸ hk))
    exact (averaged_iff (hnum k r hr) hsys).mp (h k (List.mem_toFinset.mp hk) r hr)
  · intro h k hk r hr
    exact (averaged_iff (hnum k r hr) hsys).mpr (h k (List.mem_toFinset.mpr hk))

theorem Counted.body_defined (h : Counted s n) {procKeys : List ProcId} {tgKeys : List Int}
    (hproc : procKeys.toFinset = s.procSchedule.keys) (htg : tgKeys.toFinset = s.tgSchedule.keys) :
    (body s procKeys tgKeys).2 ≠ .divideError ↔ Dividable s n := by
  unfold body Dividable
  by_cases hpid : s.schedCtrlMap.targetPid = -1
  · by_cases htgid : s.schedCtrlMap.targetTgid = -1
    · -- all records
      have hrows := rows_defined false (fun k => max 1 (n.proc k)) hproc h.sys
        (fun k r hr => (h.proc k r hr).1)
      rw [if_pos ⟨hpid, htgid⟩, hrows]
      simp only [hpid, htgid, and_self, true_imp_iff, ne_eq, not_true_eq_false, and_false,
        false_imp_iff, and_true, Wrapped]
      constructor
      · intro hall k hk
        have hk' := hall k hk
        omega
      · intro hall k hk
        have hk' := hall k hk
        omega
    · -- the records of the group
      have hrows := rows_defined true n.group htg h.sys
        (fun p r hr => (h.group p r hr).1)
      rw [if_neg (by simp [htgid]), if_neg (by simp [hpid]), if_pos ⟨hpid, htgid⟩, hrows]
      simp only [hpid, htgid, and_self, true_imp_iff, ne_eq, not_true_eq_false, and_false,
        false_imp_iff, true_and, not_false_eq_true, Wrapped]
      constructor
      · intro hall p hp
        have hp' := hall p hp
        omega
      · intro hall p hp
        obtain ⟨r, hr⟩ := Option.isSome_iff_exists.mp (BpfMap.mem_keys.mp hp)
        obtain ⟨-, hgroup, hpos⟩ := h.group p r hr
        have hp' := hall p hp
        omega
  · by_cases htgid : s.schedCtrlMap.targetTgid = -1
    · -- the record of the target, which is not shown while its count is 0
      rw [if_neg (by simp [hpid]), if_pos ⟨hpid, htgid⟩, targetRow_divideError]
      simp only [hpid, htgid, and_self, true_imp_iff, ne_eq, not_true_eq_false,
        false_imp_iff, and_true, true_and, not_false_eq_true, Wrapped]
      constructor
      · intro havg hne
        obtain ⟨⟨m, hm⟩, hpos⟩ := h.target hne
        have hboth := (averaged_iff hm h.sys).mp (havg hne)
        omega
      · intro hwrap hne
        obtain ⟨⟨m, hm⟩, hpos⟩ := h.target hne
        have hmod := toInt_emod m
        obtain ⟨hlo, hhi⟩ := toInt_bounds m
        have hwrap' := hwrap hne
        rw [hm] at hne
        apply (averaged_iff hm h.sys).mpr
        omega
    · -- with both targets nothing is shown
      rw [if_neg (by simp [hpid]), if_neg (by simp [htgid]), if_neg (by simp [hpid])]
      simp [hpid, htgid]

end Rows

section Calls

variable (c : SchedCtrl)

/-- The keys that a call gets from the maps are all of them. -/
def AllKeys (pre : List Tick) : Tick → Prop
  | .kernel _ => True
  | .print procKeys tgKeys =>
    let s := ((tool c).exec pre).kernel
    procKeys.toFinset = s.procSchedule.keys ∧ tgKeys.toFinset = s.tgSchedule.keys

/-- The call does not divide by zero. -/
def Defined (pre : List Tick) : Tick → Prop
  | .kernel _ => True
  | .print procKeys tgKeys =>
    let t := (tool c).exec pre
    (printSchedule t.kernel t.shown procKeys tgKeys).2.2 ≠ .divideError

/-- The call comes at a moment at which what it divides by has been counted. -/
def Prepared (pre : List Tick) : Tick → Prop
  | .kernel _ => True
  | .print _ _ =>
    let s := ((tool c).exec pre).kernel
    s.schedCtrlMap.schedFunc = true → Dividable s (counts c (pre.filterMap Tick.event))

instance (pre : List Tick) : (t : Tick) → Decidable (AllKeys c pre t)
  | .kernel _ => inferInstanceAs (Decidable True)
  | .print _ _ => inferInstanceAs (Decidable (_ ∧ _))

instance (pre : List Tick) : (t : Tick) → Decidable (Defined c pre t)
  | .kernel _ => inferInstanceAs (Decidable True)
  | .print _ _ => inferInstanceAs (Decidable (_ ≠ _))

instance (pre : List Tick) : (t : Tick) → Decidable (Prepared c pre t)
  | .kernel _ => inferInstanceAs (Decidable True)
  | .print _ _ => inferInstanceAs (Decidable (_ → _))

theorem defined_iff {pre : List Tick} {t : Tick} (h : AllKeys c pre t) :
    Defined c pre t ↔ Prepared c pre t := by
  cases t with
  | kernel e => exact Iff.rfl
  | print procKeys tgKeys =>
    have hcounted := counted c (pre.filterMap Tick.event)
    rw [← tool_kernel c pre] at hcounted
    simp only [AllKeys, Defined, Prepared] at h ⊢
    by_cases hact : ((tool c).exec pre).kernel.schedCtrlMap.schedFunc = true
    · rw [← hcounted.body_defined h.1 h.2]
      simp [printSchedule, hact]
    · simp [printSchedule, hact]

/-- In a run of the tool no call of `print_schedule` divides by zero exactly when each comes at a
moment at which what it divides by has been counted: without a target there has been a charge
before a record is shown, and no counter is back at 0. -/
theorem averages_defined (tr : List Tick) (h : Throughout (AllKeys c) tr) :
    Throughout (Defined c) tr ↔ Throughout (Prepared c) tr := by
  have hpre : ∀ pre t, pre ++ [t] <+: tr → (Defined c pre t ↔ Prepared c pre t) :=
    fun pre t hp => defined_iff c (h pre t hp)
  exact ⟨fun hd pre t hp => (hpre pre t hp).mp (hd pre t hp),
    fun hq pre t hp => (hpre pre t hp).mpr (hq pre t hp)⟩

end Calls

/-- Task 5 is woken, gets the CPU and is printed. -/
def chargedFirst : List Tick :=
  [.kernel (.schedWakeup ⟨5, 5, 120, 0⟩ 0 10 ⟨true, true, true⟩),
    .kernel (.schedSwitch ⟨0, 0, 120, 1⟩ ⟨5, 5, 120, 0⟩ 0 20 ⟨true, true, true⟩),
    .print [⟨5, 0⟩] []]

theorem averages_defined_chargedFirst :
    Throughout (Defined ⟨true, -1, -1, -1⟩) chargedFirst :=
  (averages_defined ⟨true, -1, -1, -1⟩ chargedFirst (by decide)).mpr (by decide)

/-- Task 5 is woken and printed before any task gets the CPU. -/
def printedFirst : List Tick :=
  [.kernel (.schedWakeup ⟨5, 5, 120, 0⟩ 0 10 ⟨true, true, true⟩), .print [⟨5, 0⟩] []]

theorem printedFirst_divides :
    Throughout (AllKeys ⟨true, -1, -1, -1⟩) printedFirst ∧
      ¬ Throughout (Defined ⟨true, -1, -1, -1⟩) printedFirst := by
  decide

end CpuSubsystem.ScheduleImage
