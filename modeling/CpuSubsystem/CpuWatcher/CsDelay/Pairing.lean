import CpuSubsystem.CpuWatcher.CsDelay.Model
import CpuSubsystem.Lib.Latest

/-!
# Entries and returns of `schedule`

A record should pair a return with the latest entry on the same CPU, and no entry should serve two
records.  All CPUs share one place for the entry time, and it is not emptied.
-/

namespace CpuSubsystem.CsDelay

/-- The entries on a CPU, in microseconds. -/
def entered (cpu : Nat) : Event → Option UInt64
  | .schedule k now => if k = cpu then some (now / 1000) else none
  | _ => none

/-- The entries on all CPUs. -/
def enteredAny : Event → Option UInt64
  | .schedule _ now => some (now / 1000)
  | _ => none

/-- An entry on a CPU is unused, until a return reports it. -/
def used (cpu : Nat) : Event → Option Bool
  | .schedule k _ => if k = cpu then some false else none
  | .scheduleExit k _ slot => if k = cpu ∧ slot = true then some true else none
  | _ => none

/-- Records come from returns only; each is about the latest entry on the CPU, which no other record
is about. -/
def Paired (c : CsCtrl) (pre : List Event) (e : Event) : Prop :=
  ∀ r ∈ (machine c).emits pre e,
    match e with
    | .scheduleExit cpu now _ => r.t2 = now / 1000 ∧ latest (entered cpu) pre = some r.t1 ∧
        r.delay = r.t2 - r.t1 ∧ latest (used cpu) pre = some false
    | _ => False

/-- A return that reports comes after an entry on its CPU that was not reported, and the latest
entry on any CPU reads the same microsecond. -/
def Undisturbed (pre : List Event) : Event → Prop
  | .scheduleExit cpu _ slot => slot = true →
      latest (used cpu) pre = some false ∧ latest enteredAny pre = latest (entered cpu) pre
  | _ => True

instance (pre : List Event) : DecidablePred (Undisturbed pre)
  | .scheduleExit _ _ slot => inferInstanceAs (Decidable (slot = true → _))
  | .csCtrl _ => inferInstanceAs (Decidable True)
  | .schedule _ _ => inferInstanceAs (Decidable True)

variable {c : CsCtrl} {pre tr : List Event} {e : Event} {cpu : Nat} {now : UInt64}

/-- The place holds the latest entry on any CPU. -/
theorem start_eq (c : CsCtrl) (tr : List Event) :
    ((machine c).exec tr).start = (latest enteredAny tr).getD 0 := by
  induction tr using List.reverseRecOn with
  | nil => rfl
  | append_singleton pre e ih =>
    rw [Machine.exec_snoc]
    cases e with
    | csCtrl c' =>
      rw [latest_snoc_none pre rfl]
      exact ih
    | schedule k now =>
      rw [latest_snoc_some pre (rfl : enteredAny (.schedule k now) = some (now / 1000))]
      rfl
    | scheduleExit k now slot =>
      rw [latest_snoc_none pre rfl]
      exact ih

/-- An entry that is unused is an entry. -/
theorem entered_of_unused (h : latest (used cpu) tr = some false) :
    ∃ t, latest (entered cpu) tr = some t := by
  apply exists_latest h
  intro e he
  cases e with
  | csCtrl c => cases he
  | schedule k now =>
    simp only [used] at he
    split at he
    · rename_i hk
      simp [entered, hk]
    · cases he
  | scheduleExit k now slot =>
    simp only [used] at he
    split at he <;> cases he

theorem enteredAny_of_entered {t : UInt64} (h : latest (entered cpu) tr = some t) :
    ∃ t', latest enteredAny tr = some t' := by
  apply exists_latest h
  intro e he
  cases e with
  | schedule k now => simp [enteredAny]
  | _ => cases he

/-- What a return reports, when there is space for the record. -/
theorem emits_scheduleExit (c : CsCtrl) (pre : List Event) (cpu : Nat) (now : UInt64) :
    (machine c).emits pre (.scheduleExit cpu now true) =
      [⟨(latest enteredAny pre).getD 0, now / 1000,
        now / 1000 - (latest enteredAny pre).getD 0⟩] := by
  rw [← start_eq c pre]
  rfl

theorem paired_scheduleExit :
    Paired c pre (.scheduleExit cpu now true) ↔
      latest (entered cpu) pre = some ((latest enteredAny pre).getD 0) ∧
        latest (used cpu) pre = some false := by
  unfold Paired
  rw [emits_scheduleExit]
  simp

/-- One event keeps the pairing exactly when it is undisturbed. -/
theorem paired_iff : Paired c pre e ↔ Undisturbed pre e := by
  cases e with
  | csCtrl c' => exact ⟨fun _ => trivial, fun _ r hr => by cases hr⟩
  | schedule k now => exact ⟨fun _ => trivial, fun _ r hr => by cases hr⟩
  | scheduleExit k now slot =>
    cases slot with
    | false => exact ⟨fun _ hf => absurd hf Bool.false_ne_true, fun _ r hr => by cases hr⟩
    | true =>
      rw [paired_scheduleExit]
      constructor
      · rintro ⟨hentry, hunused⟩ -
        obtain ⟨t, ht⟩ := enteredAny_of_entered hentry
        rw [ht] at hentry ⊢
        exact ⟨hunused, hentry.symm⟩
      · intro h
        obtain ⟨hunused, hsame⟩ := h rfl
        obtain ⟨t, ht⟩ := entered_of_unused hunused
        rw [hsame, ht]
        exact ⟨rfl, hunused⟩

/-- For every number of CPUs and every interleaving: all records of a run are paired exactly when no
return that reports was disturbed. -/
theorem schedule_paired (c : CsCtrl) (tr : List Event) :
    Throughout (Paired c) tr ↔ Throughout Undisturbed tr :=
  ⟨fun h pre e hp => paired_iff.mp (h pre e hp), fun h pre e hp => paired_iff.mpr (h pre e hp)⟩

/-- Two CPUs are inside `schedule` at once. -/
def overlapping : List Event :=
  [.schedule 0 10000, .schedule 1 20000, .scheduleExit 0 30000 true]

/-- A task that entered `schedule` on another CPU returns from it on CPU 0, where a task was
preempted without a call of `schedule`. -/
def returnsTwice : List Event :=
  [.schedule 0 10000, .scheduleExit 0 30000 true, .scheduleExit 0 50000 true]

theorem overlap_mixes_cpus :
    ¬Throughout (Paired ⟨true, 0⟩) overlapping ∧ ¬Throughout (Paired ⟨true, 0⟩) returnsTwice := by
  constructor
  · intro h
    have hlast := h [.schedule 0 10000, .schedule 1 20000] (.scheduleExit 0 30000 true)
      List.prefix_rfl
    rw [paired_scheduleExit] at hlast
    exact absurd hlast.1 (by decide)
  · intro h
    have hlast := h [.schedule 0 10000, .scheduleExit 0 30000 true] (.scheduleExit 0 50000 true)
      List.prefix_rfl
    rw [paired_scheduleExit] at hlast
    exact absurd hlast.2 (by decide)

end CpuSubsystem.CsDelay
