import CpuSubsystem.Lib.Calls
import CpuSubsystem.Lib.InFlight
import CpuSubsystem.ProcImage.LifecycleImage.Model

/-!
# Exact intervals

A failed reservation leaves an element of a time that is over.  Before anything is made of it, the
next switch of the other kind overwrites it, because the other map is empty.
-/

namespace CpuSubsystem.LifecycleImage

section Definitions

variable (ro : Rodata)

/-- The switches of the target: it gets a CPU or leaves one, where and when. -/
def turn (e : SchedSwitch) : Option (Probe (Int × UInt64) (Int × UInt64)) :=
  if getsCpu ro e.prev e.next e.cpu then some (.enter (e.cpu, e.now))
  else if leavesCpu ro e.prev e.next e.cpu then some (.exit (e.cpu, e.now))
  else none

/-- The beginnings and the ends of the times on a CPU, or of those off it. -/
def mark (on : Bool) (e : SchedSwitch) : Option (Option (Int × UInt64)) :=
  (turn ro e).map fun q => if q.isEnter = on then some q.value else none

end Definitions

/-- The CPU and the time at which the target got a CPU, or left it. -/
def CpuEvent.at (r : CpuEvent) (on : Bool) : Int × UInt64 :=
  if on then (r.oncpuId, r.oncpuTime) else (r.offcpuId, r.offcpuTime)

/-- The element for the target in the map of one kind. -/
def State.held (s : State) (ro : Rodata) (on : Bool) : Option (Int × UInt64) :=
  if on then (s.oncpu.lookup (procId ro)).map fun v => (v.oncpuId, v.oncpuTime)
  else (s.offcpu.lookup (procId ro)).map fun v => (v.offcpuId, v.offcpuTime)

/-- A record about a time of kind `k` ends with this switch, and begins with the switch of the
target that came last before, at position `i` of the run. -/
def Reports (ro : Rodata) (pre : List SchedSwitch) (e : SchedSwitch) (r : CpuEvent) (k : Bool)
    (i : Nat) : Prop :=
  r.flag = (if k then 1 else 0) ∧
    (∃ a, inFlight (mark ro k) pre = some (i, a) ∧ r.at k = a) ∧
    ∃ q, turn ro e = some q ∧ q.isEnter = !k ∧ r.at (!k) = q.value

section Step

variable {ro : Rodata} {s : State} {e : SchedSwitch} {k : Bool}

/-- What the probe does at a switch of the target of kind `k`, when `s'` and `out` result. -/
inductive Turned (ro : Rodata) (s : State) (e : SchedSwitch) (k : Bool) (b : Int × UInt64) :
    State × List CpuEvent → Prop where
  -- nothing is reserved: the element of the time that ends stays
  | lost (h : (s.held ro (!k)).isSome = true) : Turned ro s e k b (s, [])
  | first (s' : State) (h : s.held ro (!k) = none) (hother : s'.held ro (!k) = none)
      (hown : s'.held ro k = some b ∨ s'.held ro k = none) : Turned ro s e k b (s', [])
  | reported (s' : State) (a : Int × UInt64) (r : CpuEvent) (h : s.held ro (!k) = some a)
      (hother : s'.held ro (!k) = none) (hown : s'.held ro k = some b ∨ s'.held ro k = none)
      (hflag : r.flag = if k then 0 else 1) (hbegin : r.at (!k) = a) (hend : r.at k = b) :
      Turned ro s e k b (s', [r])

theorem held_recordOncpu :
    (recordOncpu ro s e).held ro true = some (e.cpu, e.now) ∨
      (recordOncpu ro s e).held ro true = none := by
  show ((s.oncpu.update _ _ _).lookup _).map _ = _ ∨ ((s.oncpu.update _ _ _).lookup _).map _ = none
  rw [BpfMap.lookup_update_self]
  split
  · exact Or.inl rfl
  · exact Or.inr rfl

theorem held_recordOffcpu :
    (recordOffcpu ro s e).held ro false = some (e.cpu, e.now) ∨
      (recordOffcpu ro s e).held ro false = none := by
  show ((s.offcpu.update _ _ _).lookup _).map _ = _ ∨
    ((s.offcpu.update _ _ _).lookup _).map _ = none
  rw [BpfMap.lookup_update_self]
  split
  · exact Or.inl rfl
  · exact Or.inr rfl

theorem schedSwitch_turned {q : Probe (Int × UInt64) (Int × UInt64)} (h : turn ro e = some q) :
    Turned ro s e q.isEnter q.value (schedSwitch ro s e) := by
  unfold turn at h
  unfold schedSwitch
  by_cases hin : getsCpu ro e.prev e.next e.cpu = true
  · rw [if_pos hin] at h ⊢
    cases h
    cases hl : s.offcpu.lookup (procId ro) with
    | none =>
      have hheld : s.held ro false = none := congrArg (Option.map _) hl
      exact .first _ hheld hheld held_recordOncpu
    | some off =>
      have hheld : s.held ro false = some (off.offcpuId, off.offcpuTime) :=
        congrArg (Option.map _) hl
      cases hslot : e.slot with
      | none => exact .lost (congrArg Option.isSome hheld)
      | some mem =>
        apply Turned.reported _ _ _ hheld _ held_recordOncpu rfl rfl rfl
        exact congrArg (Option.map _) (BpfMap.lookup_delete_self _ _)
  · rw [if_neg hin] at h ⊢
    by_cases hout : leavesCpu ro e.prev e.next e.cpu = true
    · rw [if_pos hout] at h ⊢
      cases h
      cases hl : s.oncpu.lookup (procId ro) with
      | none =>
        have hheld : s.held ro true = none := congrArg (Option.map _) hl
        exact .first _ hheld hheld held_recordOffcpu
      | some on =>
        have hheld : s.held ro true = some (on.oncpuId, on.oncpuTime) :=
          congrArg (Option.map _) hl
        cases hslot : e.slot with
        | none => exact .lost (congrArg Option.isSome hheld)
        | some mem =>
          apply Turned.reported _ _ _ hheld _ held_recordOffcpu rfl rfl rfl
          exact congrArg (Option.map _) (BpfMap.lookup_delete_self _ _)
    · rw [if_neg hout] at h
      cases h

theorem schedSwitch_other (h : turn ro e = none) : schedSwitch ro s e = (s, []) := by
  unfold turn at h
  unfold schedSwitch
  split at h
  · cases h
  · rename_i hin
    rw [if_neg hin]
    split at h
    · cases h
    · rename_i hout
      rw [if_neg hout]

end Step

/-- What the maps hold after a run: at most one element, of the switch of its kind that came last
if that was the last one of all. -/
structure Held (ro : Rodata) (tr : List SchedSwitch) (s : State) : Prop where
  exclusive : ∀ k, s.held ro k = none ∨ s.held ro (!k) = none
  unseen : tr.filterMap (turn ro) = [] → ∀ k, s.held ro k = none
  latest : ∀ k a, s.held ro k = some a → ∀ i b, inFlight (mark ro k) tr = some (i, b) → a = b

section Run

variable {ro : Rodata} {pre tr : List SchedSwitch} {e : SchedSwitch} {s : State} {k : Bool}
  {q : Probe (Int × UInt64) (Int × UInt64)}

theorem mark_of_turn (h : turn ro e = some q) :
    mark ro q.isEnter e = some (some q.value) ∧ mark ro (!q.isEnter) e = some none := by
  unfold mark
  rw [h]
  cases q <;> exact ⟨rfl, rfl⟩

theorem mark_none (h : turn ro e = none) : mark ro k e = none := by
  rw [mark, h, Option.map_none]

/-- A switch of the other kind came last exactly when its interval is in progress. -/
theorem inFlight_mark (h : ((tr.filterMap (turn ro)).map Probe.isEnter).getLast? = some k) :
    (inFlight (mark ro k) tr).isSome = true := by
  induction tr using List.reverseRecOn with
  | nil => cases h
  | append_singleton pre e ih =>
    cases hq : turn ro e with
    | none =>
      rw [inFlight_snoc_skip (mark_none hq)]
      apply ih
      simpa [hq] using h
    | some q =>
      have hk : q.isEnter = k := by simpa [hq] using h
      subst hk
      rw [inFlight_snoc_begin (mark_of_turn hq).1]
      rfl

theorem held_initial (ro : Rodata) : Held ro [] initial where
  exclusive k := by cases k <;> exact Or.inl rfl
  unseen _ k := by cases k <;> rfl
  latest k a h := by cases k <;> cases h

theorem Held.step (h : Held ro pre s) : Held ro (pre ++ [e]) (schedSwitch ro s e).1 := by
  cases hq : turn ro e with
  | none =>
    rw [schedSwitch_other hq]
    refine ⟨h.exclusive, fun hnil => h.unseen ?_, fun k a ha i b hb => ?_⟩
    · simpa [hq] using hnil
    · rw [inFlight_snoc_skip (mark_none hq)] at hb
      exact h.latest k a ha i b hb
  | some q =>
    obtain ⟨hbegin, hend⟩ := mark_of_turn hq
    have hunseen : ∀ s' : State, (pre ++ [e]).filterMap (turn ro) = [] →
        ∀ k, s'.held ro k = none := by
      intro s' hnil
      simp [hq] at hnil
    -- only the time that begins now is in progress
    have hlatest : ∀ s' : State, (s'.held ro q.isEnter = some q.value ∨
        s'.held ro q.isEnter = none) → ∀ k a, s'.held ro k = some a →
        ∀ i b, inFlight (mark ro k) (pre ++ [e]) = some (i, b) → a = b := by
      intro s' hown k a ha i b hb
      by_cases hk : k = q.isEnter
      · subst hk
        rw [inFlight_snoc_begin hbegin] at hb
        rcases hown with hown | hown
        · rw [hown] at ha
          cases ha
          cases hb
          rfl
        · rw [hown] at ha
          cases ha
      · rw [Bool.eq_not_of_ne hk, inFlight_snoc_end hend] at hb
        cases hb
    have hexclusive : ∀ s' : State, s'.held ro (!q.isEnter) = none →
        ∀ k, s'.held ro k = none ∨ s'.held ro (!k) = none := by
      intro s' hother k
      by_cases hk : k = q.isEnter
      · rw [hk]
        exact Or.inr hother
      · rw [Bool.eq_not_of_ne hk]
        exact Or.inl hother
    have hturned := schedSwitch_turned (s := s) hq
    generalize schedSwitch ro s e = res at hturned
    cases hturned with
    | lost hsome =>
      -- what stays is of the other kind, so it is not about the time in progress
      refine ⟨h.exclusive, hunseen s, hlatest s (Or.inr ?_)⟩
      rcases h.exclusive q.isEnter with hown | hother
      · exact hown
      · rw [hother] at hsome
        cases hsome
    | first s' _ hother hown => exact ⟨hexclusive s' hother, hunseen s', hlatest s' hown⟩
    | reported s' a r _ hother hown =>
      exact ⟨hexclusive s' hother, hunseen s', hlatest s' hown⟩

theorem held (ro : Rodata) (tr : List SchedSwitch) : Held ro tr ((machine ro).exec tr) := by
  induction tr using List.reverseRecOn with
  | nil => exact held_initial ro
  | append_singleton pre e ih =>
    rw [Machine.exec_snoc]
    exact ih.step

/-- A switch makes one record at most, about the time that it ends. -/
theorem emits_report (halt : Alternating (turn ro) (pre ++ [e])) :
    (machine ro).emits pre e = [] ∨
      ∃ r k i, (machine ro).emits pre e = [r] ∧ Reports ro pre e r k i := by
  show (schedSwitch ro ((machine ro).exec pre) e).2 = [] ∨
    ∃ r k i, (schedSwitch ro ((machine ro).exec pre) e).2 = [r] ∧ _
  have hheld := held ro pre
  generalize (machine ro).exec pre = s at hheld
  cases hq : turn ro e with
  | none =>
    rw [schedSwitch_other hq]
    exact Or.inl rfl
  | some q =>
    have hturned := schedSwitch_turned (s := s) hq
    generalize schedSwitch ro s e = res at hturned
    cases hturned with
    | lost _ => exact Or.inl rfl
    | first s' _ _ _ => exact Or.inl rfl
    | reported s' a r ha _ _ hflag hbegin hend =>
      right
      -- the target was switched before, in the other direction
      have hlast : ((pre.filterMap (turn ro)).map Probe.isEnter).getLast? =
          some (!q.isEnter) := by
        cases hl : ((pre.filterMap (turn ro)).map Probe.isEnter).getLast? with
        | none =>
          rw [List.getLast?_eq_none_iff, List.map_eq_nil_iff] at hl
          rw [hheld.unseen hl] at ha
          cases ha
        | some k =>
          have hne := halt.last_ne hq hl
          rw [Bool.eq_not_of_ne hne]
      obtain ⟨⟨i, b⟩, hi⟩ := Option.isSome_iff_exists.mp (inFlight_mark hlast)
      refine ⟨r, !q.isEnter, i, rfl, ?_, ⟨b, hi, ?_⟩, q, hq, (Bool.not_not _).symm, ?_⟩
      · rw [hflag]
        cases q <;> rfl
      · rw [hbegin]
        exact hheld.latest _ a ha i b hi
      · rw [Bool.not_not, hend]

/-- The key of the target is the only one. -/
theorem other_keys (ro : Rodata) (tr : List SchedSwitch) (k : ProcId) (hk : k ≠ procId ro) :
    ((machine ro).exec tr).oncpu.lookup k = none ∧
      ((machine ro).exec tr).offcpu.lookup k = none := by
  induction tr using List.reverseRecOn with
  | nil => exact ⟨rfl, rfl⟩
  | append_singleton pre e ih =>
    rw [Machine.exec_snoc]
    obtain ⟨hon, hoff⟩ := ih
    show (schedSwitch ro _ e).1.oncpu.lookup k = none ∧
      (schedSwitch ro _ e).1.offcpu.lookup k = none
    generalize (machine ro).exec pre = s at hon hoff
    unfold schedSwitch
    split
    · split
      · split
        · exact ⟨hon, hoff⟩
        · exact ⟨(BpfMap.lookup_update_of_ne _ _ _ hk).trans hon,
            (BpfMap.lookup_delete_of_ne _ hk).trans hoff⟩
      · exact ⟨(BpfMap.lookup_update_of_ne _ _ _ hk).trans hon, hoff⟩
    · split
      · split
        · split
          · exact ⟨hon, hoff⟩
          · exact ⟨(BpfMap.lookup_delete_of_ne _ hk).trans hon,
              (BpfMap.lookup_update_of_ne _ _ _ hk).trans hoff⟩
        · exact ⟨hon, (BpfMap.lookup_update_of_ne _ _ _ hk).trans hoff⟩
      · exact ⟨hon, hoff⟩

/-- Two records about one time were made by the same switch. -/
theorem Reports.unique {pre' : List SchedSwitch} {e' : SchedSwitch} {r r' : CpuEvent} {i : Nat}
    (hp : pre ++ [e] <+: tr) (hp' : pre' ++ [e'] <+: tr) (h : Reports ro pre e r k i)
    (h' : Reports ro pre' e' r' k i) : pre = pre' := by
  obtain ⟨-, ⟨a, ha, -⟩, q, hq, hk, -⟩ := h
  obtain ⟨-, ⟨a', ha', -⟩, q', hq', hk', -⟩ := h'
  have hend : mark ro k e = some none := by
    have hm := (mark_of_turn hq).2
    rwa [hk, Bool.not_not] at hm
  have hend' : mark ro k e' = some none := by
    have hm := (mark_of_turn hq').2
    rwa [hk', Bool.not_not] at hm
  exact inFlight_unique hp hp' hend hend' ha ha'

/-- A map without the key of the target has no element. -/
theorem keys_of_held_none (ro : Rodata) (tr : List SchedSwitch) :
    (((machine ro).exec tr).held ro true = none → ((machine ro).exec tr).oncpu.keys = ∅) ∧
    (((machine ro).exec tr).held ro false = none → ((machine ro).exec tr).offcpu.keys = ∅) := by
  have hother := other_keys ro tr
  constructor
  all_goals intro hnone
  all_goals apply BpfMap.keys_eq_empty
  all_goals intro k
  all_goals by_cases hk : k = procId ro
  · rw [hk]
    exact Option.map_eq_none_iff.mp hnone
  · exact (hother k hk).1
  · rw [hk]
    exact Option.map_eq_none_iff.mp hnone
  · exact (hother k hk).2

/-- For every run in which the target gets a CPU and leaves it in turn, with every pattern of failed
reservations and refused updates: every record is about the time between the switch of the target
that came last and this one, of its kind; no time is reported twice; and at most one of the maps has
an element. -/
theorem intervals_exact (ro : Rodata) (tr : List SchedSwitch) (halt : Alternating (turn ro) tr) :
    Throughout (fun pre e => ∀ r ∈ (machine ro).emits pre e, ∃ k i, Reports ro pre e r k i) tr ∧
    Throughout (fun pre e => ((machine ro).emits pre e).length ≤ 1) tr ∧
    (∀ pre e r pre' e' r' k i, pre ++ [e] <+: tr → pre' ++ [e'] <+: tr →
      r ∈ (machine ro).emits pre e → r' ∈ (machine ro).emits pre' e' →
      Reports ro pre e r k i → Reports ro pre' e' r' k i → pre = pre') ∧
    ∀ pre, pre <+: tr →
      ((machine ro).exec pre).oncpu.keys = ∅ ∨ ((machine ro).exec pre).offcpu.keys = ∅ := by
  refine ⟨fun pre e hp r hr => ?_, fun pre e hp => ?_, ?_, fun pre hp => ?_⟩
  · rcases emits_report (halt.restrict hp) with hnil | ⟨r', k, i, hout, hrep⟩
    · rw [hnil] at hr
      cases hr
    · rw [hout, List.mem_singleton] at hr
      rw [hr]
      exact ⟨k, i, hrep⟩
  · rcases emits_report (halt.restrict hp) with hnil | ⟨r', k, i, hout, -⟩
    · rw [hnil]
      exact Nat.zero_le 1
    · rw [hout]
      exact Nat.le_refl 1
  · intro pre e r pre' e' r' k i hp hp' _ _ h h'
    exact h.unique hp hp' h'
  · obtain ⟨hon, hoff⟩ := keys_of_held_none ro pre
    exact ((held ro pre).exclusive true).imp hon hoff

end Run

section Sample

def blank : CpuEvent :=
  ⟨0, 0, 0, Comm.none, Comm.none, 0, 0, 0, 0, 0, 0, 0, Vector.replicate 128 0⟩

def other : Task := ⟨7, Comm.none, 120⟩

def target : Task := ⟨5, Comm.none, 120⟩

def comes (cpu : Int) (now : UInt64) (slot : Option CpuEvent) : SchedSwitch :=
  ⟨other, target, cpu, now, ⟨0, Vector.replicate 128 0⟩, true, slot⟩

def goes (cpu : Int) (now : UInt64) (slot : Option CpuEvent) : SchedSwitch :=
  ⟨target, other, cpu, now, ⟨0, Vector.replicate 128 0⟩, true, slot⟩

/-- The record of the first time on a CPU is lost; the next two times are reported. -/
def oneLost : List SchedSwitch :=
  [comes 0 100 (some blank), goes 0 110 none, comes 1 150 (some blank), goes 1 190 (some blank),
    comes 1 200 (some blank)]

theorem intervals_exact_oneLost :
    Throughout (fun pre e => ∀ r ∈ (machine ⟨5, 0⟩).emits pre e, ∃ k i,
      Reports ⟨5, 0⟩ pre e r k i) oneLost ∧
    Throughout (fun pre e => ((machine ⟨5, 0⟩).emits pre e).length ≤ 1) oneLost ∧
    (∀ pre e r pre' e' r' k i, pre ++ [e] <+: oneLost → pre' ++ [e'] <+: oneLost →
      r ∈ (machine ⟨5, 0⟩).emits pre e → r' ∈ (machine ⟨5, 0⟩).emits pre' e' →
      Reports ⟨5, 0⟩ pre e r k i → Reports ⟨5, 0⟩ pre' e' r' k i → pre = pre') ∧
    ∀ pre, pre <+: oneLost →
      ((machine ⟨5, 0⟩).exec pre).oncpu.keys = ∅ ∨ ((machine ⟨5, 0⟩).exec pre).offcpu.keys = ∅ :=
  intervals_exact ⟨5, 0⟩ oneLost (by decide)

end Sample

end CpuSubsystem.LifecycleImage
