import CpuSubsystem.CpuWatcher.Preempt.Model
import CpuSubsystem.Lib.Latest

/-!
# Which switch a duration belongs to

The time of a preemption stays in `preempt_time`, under the pid of the task, until a record about
it is emitted. When the ring buffer has no space for the record, a later switch of the same task
finds the old time.
-/

namespace CpuSubsystem.Preempt

/-- A context switch whose `finish_task_switch` is still to come. -/
structure Switch where
  prev : Task
  preempt : Bool
  startTime : UInt64
deriving DecidableEq

/-- The event begins or ends a switch on the CPU. -/
def switching (cpu : Nat) : Event → Option (Option Switch)
  | .schedSwitch k preempt prev _ startTime _ =>
    if k = cpu then some (some ⟨prev, preempt, startTime⟩) else none
  | .finishTaskSwitch k _ _ _ _ => if k = cpu then some none else none
  | .preemptCtrl _ => none

/-- The switch in progress on a CPU. -/
def inProgress (cpu : Nat) (tr : List Event) : Option Switch := (latest (switching cpu) tr).join

/-- How a switch goes on: it is finished on its CPU before the next one begins there, and its
`prev` does not run in between. -/
def Ordered (pre : List Event) : Event → Prop
  | .schedSwitch cpu _ prev next _ _ =>
    prev.pid ≠ 0 ∧ next.pid ≠ 0 ∧ inProgress cpu pre = none ∧
      ∀ k sw, inProgress k pre = some sw → sw.prev.pid ≠ prev.pid ∧ sw.prev.pid ≠ next.pid
  | .finishTaskSwitch cpu prev _ _ _ => (inProgress cpu pre).map Switch.prev = some prev
  | .preemptCtrl _ => True

/-- The record is about the switch that is finished: a preemption that began so long ago. -/
def Fits (pre : List Event) (cpu : Nat) (prev : Task) (endTime : UInt64) (r : PreemptEvent) :
    Prop :=
  ∃ sw, inProgress cpu pre = some sw ∧ sw.preempt = true ∧ r.prevPid = prev.pid ∧
    r.duration = endTime - sw.startTime

/-- The records that an event emits are about its own switch. -/
def DurationsOwn (c : PreemptCtrl) (pre : List Event) (e : Event) : Prop :=
  ∀ r ∈ (step ((machine c).exec pre) e).2, ∃ cpu prev cur endTime slot,
    e = .finishTaskSwitch cpu prev cur endTime slot ∧ Fits pre cpu prev endTime r

/-- Whether the time of a preemption of the task is parked: a preemption that the map has room for
parks it, and a record that there is space for takes it away. -/
def parks (pid : Int) : Event → Option Bool
  | .schedSwitch _ preempt prev _ _ room =>
    if prev.pid = pid ∧ preempt ∧ room then some true else none
  | .finishTaskSwitch _ prev _ _ slot => if prev.pid = pid ∧ slot then some false else none
  | .preemptCtrl _ => none

def parked (pid : Int) (tr : List Event) : Bool := (latest (parks pid) tr).getD false

/-- A voluntary switch that there is space for a record of does not find a time: each preemption of
the task that was stored got its record. -/
def Settled (pre : List Event) : Event → Prop
  | .finishTaskSwitch cpu prev _ _ slot =>
    slot = true → ∀ sw, inProgress cpu pre = some sw → sw.preempt = false →
      parked prev.pid pre = false
  | _ => True

variable {c : PreemptCtrl} {pre tr : List Event} {e : Event} {cpu k : Nat} {pid : Int}
  {prev cur next : Task} {preempt room slot : Bool} {startTime endTime : UInt64} {sw : Switch}

theorem exec_snoc (c : PreemptCtrl) (pre : List Event) (e : Event) :
    (machine c).exec (pre ++ [e]) = (step ((machine c).exec pre) e).1 := (machine c).exec_snoc pre e

theorem inProgress_snoc_skip (h : switching k e = none) :
    inProgress k (pre ++ [e]) = inProgress k pre := by
  unfold inProgress
  rw [latest_snoc_none pre h]

theorem inProgress_snoc_switch :
    inProgress k (pre ++ [Event.schedSwitch cpu preempt prev next startTime room]) =
      if cpu = k then some ⟨prev, preempt, startTime⟩ else inProgress k pre := by
  unfold inProgress
  rw [latest_snoc]
  by_cases hk : cpu = k
  · simp [switching, hk]
  · simp [switching, hk]

theorem inProgress_snoc_finish :
    inProgress k (pre ++ [Event.finishTaskSwitch cpu prev cur endTime slot]) =
      if cpu = k then none else inProgress k pre := by
  unfold inProgress
  rw [latest_snoc]
  by_cases hk : cpu = k
  · simp [switching, hk]
  · simp [switching, hk]

theorem parked_snoc (pid : Int) (pre : List Event) (e : Event) :
    parked pid (pre ++ [e]) = (parks pid e).getD (parked pid pre) := by
  unfold parked
  rw [latest_snoc]
  cases parks pid e <;> rfl

/-- What the map holds: an element for each parked time, and for a preemption in progress no time
but its own. -/
structure Times (m : BpfMap Int UInt64) (tr : List Event) : Prop where
  isSome : ∀ pid, (m.lookup pid).isSome = parked pid tr
  own : ∀ k sw, inProgress k tr = some sw → sw.preempt = true →
    ∀ val, m.lookup sw.prev.pid = some val → val = sw.startTime

theorem times_empty : Times BpfMap.empty [] where
  isSome := fun pid => by
    rw [BpfMap.lookup_empty]
    rfl
  own := fun k sw h => by cases h

variable {m : BpfMap Int UInt64}

/-- A voluntary switch leaves the map as it is. -/
theorem Times.voluntary (h : Times m pre) : Times m
    (pre ++ [Event.schedSwitch cpu false prev next startTime room]) where
  isSome := fun pid => by
    rw [parked_snoc, h.isSome]
    simp [parks]
  own := by
    intro k sw hsw hpre
    rw [inProgress_snoc_switch] at hsw
    split at hsw
    · cases hsw
      cases hpre
    · exact h.own k sw hsw hpre

theorem Times.preempted (h : Times m pre)
    (hother : ∀ k sw, inProgress k pre = some sw → sw.prev.pid ≠ prev.pid) :
    Times (m.update room prev.pid startTime)
      (pre ++ [Event.schedSwitch cpu true prev next startTime room]) where
  isSome := fun pid => by
    rw [parked_snoc, ← h.isSome]
    by_cases hpid : prev.pid = pid
    · rw [← hpid, BpfMap.lookup_update_self]
      cases room with
      | true => simp [parks]
      | false =>
        -- a full map still takes a new value for a key that it has
        cases hl : m.lookup prev.pid <;> simp [BpfMap.accepts, parks, hl]
    · rw [BpfMap.lookup_update_of_ne _ _ _ fun h => hpid h.symm]
      simp [parks, hpid]
  own := by
    intro k sw hsw hpre val hval
    rw [inProgress_snoc_switch] at hsw
    split at hsw
    · cases hsw
      rw [BpfMap.lookup_update_self] at hval
      split at hval
      · exact (Option.some.inj hval).symm
      · cases hval
    · rw [BpfMap.lookup_update_of_ne _ _ _ (hother k sw hsw)] at hval
      exact h.own k sw hsw hpre val hval

/-- A record takes the time away; without space for one the time stays. -/
theorem Times.finish (h : Times m pre) :
    Times (if slot then m.delete prev.pid else m)
      (pre ++ [Event.finishTaskSwitch cpu prev cur endTime slot]) where
  isSome := fun pid => by
    rw [parked_snoc, ← h.isSome]
    cases slot with
    | false => simp [parks]
    | true =>
      rw [if_pos rfl, BpfMap.lookup_delete]
      by_cases hpid : prev.pid = pid
      · simp [parks, hpid]
      · rw [if_neg fun h => hpid h.symm]
        simp [parks, hpid]
  own := by
    intro k sw hsw hpre val hval
    rw [inProgress_snoc_finish] at hsw
    split at hsw
    · cases hsw
    · refine h.own k sw hsw hpre val ?_
      cases slot with
      | false => exact hval
      | true =>
        rw [if_pos rfl, BpfMap.lookup_delete] at hval
        split at hval
        · cases hval
        · exact hval

/-- Deleting an element that is not there changes nothing, so that only the space matters. -/
theorem finishTaskSwitch_map (s : State) :
    (finishTaskSwitch s prev cur endTime slot).1.preemptTime =
      if slot then s.preemptTime.delete prev.pid else s.preemptTime := by
  unfold finishTaskSwitch
  cases hl : s.preemptTime.lookup prev.pid with
  | none =>
    rw [BpfMap.delete_of_absent hl, ite_self]
  | some val => cases slot <;> rfl

/-- One event keeps the meaning of the map. -/
theorem times_step (h : Times ((machine c).exec pre).preemptTime pre) (ho : Ordered pre e) :
    Times ((machine c).exec (pre ++ [e])).preemptTime (pre ++ [e]) := by
  rw [exec_snoc]
  cases e with
  | preemptCtrl c' =>
    exact ⟨fun pid => (h.isSome pid).trans (by rw [parked_snoc]; rfl),
      fun k sw hsw => h.own k sw (by rwa [inProgress_snoc_skip rfl] at hsw)⟩
  | schedSwitch cpu preempt prev next startTime room =>
    cases preempt with
    | false => exact h.voluntary
    | true => exact h.preempted fun k sw hsw => (ho.2.2.2 k sw hsw).1
  | finishTaskSwitch cpu prev cur endTime slot =>
    simp only [step, finishTaskSwitch_map]
    exact h.finish

theorem times (h : Throughout Ordered tr) : Times ((machine c).exec tr).preemptTime tr := by
  induction tr using List.reverseRecOn with
  | nil => exact times_empty
  | append_singleton pre e ih => exact times_step (ih h.of_snoc) h.last

/-- A record is emitted for a time that is there, if there is space for it. -/
theorem mem_finishTaskSwitch (s : State) (r : PreemptEvent) :
    r ∈ (finishTaskSwitch s prev cur endTime slot).2 ↔ slot = true ∧
      ∃ val, s.preemptTime.lookup prev.pid = some val ∧
        r = ⟨prev.pid, cur.tgid, endTime - val, cur.comm⟩ := by
  unfold finishTaskSwitch
  cases hl : s.preemptTime.lookup prev.pid with
  | none => simp
  | some val => cases slot <;> simp

/-- The durations of one event are its own if and only if it is settled. -/
theorem durationsOwn_iff (h : Times ((machine c).exec pre).preemptTime pre) (ho : Ordered pre e) :
    DurationsOwn c pre e ↔ Settled pre e := by
  cases e with
  | preemptCtrl c' => exact ⟨fun _ => trivial, fun _ => nofun⟩
  | schedSwitch cpu preempt prev next startTime room => exact ⟨fun _ => trivial, fun _ => nofun⟩
  | finishTaskSwitch cpu prev cur endTime slot =>
    obtain ⟨sw, hsw, hprev⟩ := Option.map_eq_some_iff.mp ho
    constructor
    · -- a time that is found here would make a record about a voluntary switch
      intro hown hslot sw' hsw' hvoluntary
      cases hsw.symm.trans hsw'
      by_contra hparked
      rw [← h.isSome, Bool.not_eq_false, Option.isSome_iff_exists] at hparked
      obtain ⟨val, hval⟩ := hparked
      obtain ⟨_, _, _, _, _, heq, sw'', hsw'', hpre, -⟩ :=
        hown _ ((mem_finishTaskSwitch _ _).mpr ⟨hslot, val, hval, rfl⟩)
      cases heq
      cases hsw.symm.trans hsw''
      rw [hpre] at hvoluntary
      cases hvoluntary
    · -- the time was found, so the switch was a preemption, and then the time is its own
      intro hsettled r hr
      obtain ⟨hslot, val, hval, rfl⟩ := (mem_finishTaskSwitch _ r).mp hr
      have hpre : sw.preempt = true := by
        by_contra hvoluntary
        have hnone := hsettled hslot sw hsw (Bool.eq_false_iff.mpr hvoluntary)
        rw [← h.isSome, hval] at hnone
        cases hnone
      rw [← hprev] at hval
      exact ⟨_, _, _, _, _, rfl, sw, hsw, hpre, rfl, by rw [h.own cpu sw hsw hpre val hval]⟩

/-- Every record of the run is about its own switch, exactly if every switch is settled. -/
theorem durations_own_iff (h : Throughout Ordered tr) :
    Throughout (DurationsOwn c) tr ↔ Throughout Settled tr := by
  constructor
  · intro hown pre e hp
    have hrun := h.restrict hp
    exact (durationsOwn_iff (times hrun.of_snoc) hrun.last).mp (hown pre e hp)
  · intro hsettled pre e hp
    have hrun := h.restrict hp
    exact (durationsOwn_iff (times hrun.of_snoc) hrun.last).mpr (hsettled pre e hp)

def shell : Task := ⟨5, 5, Comm.none⟩

def editor : Task := ⟨6, 6, Comm.none⟩

/-- One more switch, from beginning to end, on the first CPU. -/
def thenSwitch (pre : List Event) (preempt : Bool) (prev next : Task) (startTime : UInt64)
    (slot : Bool) : List Event :=
  pre ++ [.schedSwitch 0 preempt prev next startTime true] ++
    [.finishTaskSwitch 0 prev next (startTime + 3) slot]

/-- A run in which every switch is finished. -/
def Whole (tr : List Event) : Prop := Throughout Ordered tr ∧ ∀ k, inProgress k tr = none

theorem whole_nil : Whole [] := ⟨throughout_nil, fun _ => rfl⟩

theorem Whole.thenSwitch (h : Whole pre) (hprev : prev.pid ≠ 0) (hnext : next.pid ≠ 0) :
    Whole (thenSwitch pre preempt prev next startTime slot) := by
  obtain ⟨hordered, hidle⟩ := h
  have hfirst : Ordered pre (.schedSwitch 0 preempt prev next startTime true) := by
    refine ⟨hprev, hnext, hidle 0, fun k sw hsw => ?_⟩
    rw [hidle k] at hsw
    cases hsw
  have hsecond : Ordered (pre ++ [.schedSwitch 0 preempt prev next startTime true])
      (.finishTaskSwitch 0 prev next (startTime + 3) slot) := by
    change (inProgress 0 _).map Switch.prev = some prev
    rw [inProgress_snoc_switch, if_pos rfl]
    rfl
  refine ⟨(hordered.snoc hfirst).snoc hsecond, fun k => ?_⟩
  unfold Preempt.thenSwitch
  rw [inProgress_snoc_finish, inProgress_snoc_switch]
  by_cases hk : 0 = k
  · rw [if_pos hk]
  · rw [if_neg hk, if_neg hk, hidle k]

theorem durations_own_iff_preempted :
    Throughout (DurationsOwn ⟨true, 40⟩) (thenSwitch [] true shell editor 100 true) ↔
      Throughout Settled (thenSwitch [] true shell editor 100 true) :=
  durations_own_iff (whole_nil.thenSwitch (by decide) (by decide)).1

/-- The shell is preempted, but there is no space for the record; it runs again and goes to
sleep. -/
def lostThenSleeps : List Event :=
  thenSwitch (thenSwitch (thenSwitch [] true shell editor 100 false) false editor shell 200 true)
    false shell editor 300 true

/-- The voluntary switch is reported as a preemption of 203 nanoseconds. -/
theorem voluntary_switch_reported : Throughout Ordered lostThenSleeps ∧
    (machine ⟨true, 40⟩).emitted lostThenSleeps = [⟨5, 6, 203, Comm.none⟩] ∧
    ¬Throughout (DurationsOwn ⟨true, 40⟩) lostThenSleeps := by
  have hshell : shell.pid ≠ 0 := by decide
  have heditor : editor.pid ≠ 0 := by decide
  refine ⟨?_, rfl, ?_⟩
  · exact (((whole_nil.thenSwitch hshell heditor).thenSwitch heditor hshell).thenSwitch hshell
      heditor).1
  · intro hown
    obtain ⟨_, _, _, _, _, heq, sw, hsw, hpre, -⟩ :=
      hown.last ⟨5, 6, 203, Comm.none⟩ (by decide)
    cases heq
    rw [inProgress_snoc_switch, if_pos rfl] at hsw
    cases hsw
    cases hpre

end CpuSubsystem.Preempt
