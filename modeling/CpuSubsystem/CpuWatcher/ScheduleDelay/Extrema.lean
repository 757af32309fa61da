import CpuSubsystem.CpuWatcher.ScheduleDelay.Charges
import CpuSubsystem.Lib.Extremes

/-!
# Extrema of the charged delays

A charge is compared with the minimum only when it is no new maximum, so that the minimum is that of
what is behind (`Lib/Extremes`); the name of the minimum skips the idle tasks, that of the maximum
does not.  `Summed` says what the summary holds after the charges `l`, right or not, and `Shown`
when that is right.
-/

namespace CpuSubsystem.ScheduleDelay

/-- The charge is behind, and less than all that is behind before it. -/
def Lowers (p : List Charge) (ch : Charge) : Prop :=
  Behind Charge.delay p ch ∧ ∀ y ∈ behind Charge.delay p, ch.delay < y.delay

instance (p : List Charge) (ch : Charge) : Decidable (Lowers p ch) :=
  inferInstanceAs (Decidable (_ ∧ _))

/-- The name of a charge that lowers the minimum, other than that of an idle task. -/
def lowersName (p : List Charge) (ch : Charge) : Option Comm :=
  if Lowers p ch ∧ ch.next.pid ≠ 0 then some ch.next.comm else none

def shownName (l : List Charge) : Comm := (recent lowersName l).getD Comm.none

/-- What the summary has to be after the charges `l`. -/
structure Extremal (l : List Charge) (t : SumSchedule) : Prop where
  count : t.sumCount = UInt64.ofNat l.length
  sum : t.sumDelay = (l.map Charge.delay).sum
  greatest : Greatest (l.map Charge.delay) t.maxDelay
  least : Least (l.map Charge.delay) t.minDelay
  nameMax : ∃ ch ∈ l, ch.delay = t.maxDelay ∧ ch.next.comm = t.procNameMax
  nameMin : ∃ ch ∈ l, ch.delay = t.minDelay ∧ ch.next.comm = t.procNameMin

/-- A charge after the first is not greater than the first, and a task with a least delay has the
name of the latest task, idle tasks apart, that lowered the minimum. -/
structure Shown (l : List Charge) : Prop where
  lowered : ∃ first rest, l = first :: rest ∧ ∃ ch ∈ rest, ch.delay ≤ first.delay
  named : ∃ ch ∈ l, (∀ x ∈ l, ch.delay ≤ x.delay) ∧ ch.next.comm = shownName l

/-- What the summary is. -/
structure Summed (l : List Charge) (t : SumSchedule) : Prop where
  count : t.sumCount = UInt64.ofNat l.length
  sum : t.sumDelay = (l.map Charge.delay).sum
  greatest : Greatest (l.map Charge.delay) t.maxDelay
  least : Least ((behind Charge.delay l).map Charge.delay) t.minDelay
  nameMax : l ≠ [] → ∃ ch ∈ l, ch.delay = t.maxDelay ∧ ch.next.comm = t.procNameMax
  nameMin : t.procNameMin = shownName l

section Summed

variable {l : List Charge} {t : SumSchedule} {ch : Charge}

theorem charge_rises (t : SumSchedule) (next : Task) {delay : UInt64} (h : delay > t.maxDelay) :
    t.charge next delay =
      { t with
        sumCount := t.sumCount + 1
        sumDelay := t.sumDelay + delay
        maxDelay := delay
        procNameMax := next.comm } := if_pos h

theorem charge_behind (t : SumSchedule) (next : Task) {delay : UInt64} (h : ¬delay > t.maxDelay) :
    t.charge next delay =
      { t with
        sumCount := t.sumCount + 1
        sumDelay := t.sumDelay + delay
        minDelay := keepMin t.minDelay delay
        procNameMin := if (t.minDelay == 0 || delay < t.minDelay) ∧ next.pid ≠ 0 then next.comm
          else t.procNameMin } := by
  have hcharge : t.charge next delay =
      if t.minDelay == 0 || delay < t.minDelay then
        { t with
          sumCount := t.sumCount + 1
          sumDelay := t.sumDelay + delay
          minDelay := delay
          procNameMin := if next.pid ≠ 0 then next.comm else t.procNameMin }
      else { t with sumCount := t.sumCount + 1, sumDelay := t.sumDelay + delay } := if_neg h
  rw [hcharge, keepMin]
  by_cases hlow : (t.minDelay == 0 || decide (delay < t.minDelay)) = true
  · simp only [hlow, if_true, true_and]
  · simp only [hlow, false_and, Bool.false_eq_true, if_false]

theorem shownName_snoc_of (h : Lowers l ch ∧ ch.next.pid ≠ 0) :
    shownName (l ++ [ch]) = ch.next.comm := by
  have hname : lowersName l ch = some ch.next.comm := if_pos h
  rw [shownName, recent_snoc_some hname, Option.getD_some]

theorem shownName_snoc_of_not (h : ¬(Lowers l ch ∧ ch.next.pid ≠ 0)) :
    shownName (l ++ [ch]) = shownName l := by
  have hname : lowersName l ch = none := if_neg h
  rw [shownName, recent_snoc_none hname, shownName]

theorem Summed.charge (h : Summed l t) (hpos : ∀ y ∈ l, y.delay ≠ 0) (hch : ch.delay ≠ 0) :
    Summed (l ++ [ch]) (t.charge ch.next ch.delay) := by
  have hcount : t.sumCount + 1 = UInt64.ofNat (l ++ [ch]).length := by
    rw [h.count, List.length_append, UInt64.ofNat_add]
    rfl
  have hsum : t.sumDelay + ch.delay = ((l ++ [ch]).map Charge.delay).sum := by
    rw [h.sum, List.map_append, List.sum_append, List.map_singleton, List.sum_singleton]
  have hgreatest : Greatest ((l ++ [ch]).map Charge.delay) (keepMax t.maxDelay ch.delay) := by
    rw [List.map_append]
    exact h.greatest.add ch.delay
  have hbehind := h.greatest.behind_iff hch
  by_cases hrise : ch.delay > t.maxDelay
  · have hnot : ¬Behind Charge.delay l ch := fun hb => hbehind.mp hb hrise
    rw [charge_rises t ch.next hrise]
    refine ⟨hcount, hsum, ?_, ?_, ?_, ?_⟩
    · rw [keepMax, if_pos hrise] at hgreatest
      exact hgreatest
    · rw [behind_snoc_of_not hnot]
      exact h.least
    · intro _
      exact ⟨ch, List.mem_append_right l (List.mem_singleton_self ch), rfl, rfl⟩
    · rw [shownName_snoc_of_not fun hc => hnot hc.1.1]
      exact h.nameMin
  · have hb : Behind Charge.delay l ch := hbehind.mpr hrise
    have hposb : ∀ y ∈ behind Charge.delay l, y.delay ≠ 0 :=
      fun y hy => hpos y (mem_of_mem_behind hy)
    have hlowers : (t.minDelay == 0 || decide (ch.delay < t.minDelay)) = true ↔ Lowers l ch :=
      (h.least.lowers_iff hposb).trans (and_iff_right hb).symm
    rw [charge_behind t ch.next hrise]
    refine ⟨hcount, hsum, ?_, ?_, ?_, ?_⟩
    · rw [keepMax, if_neg hrise] at hgreatest
      exact hgreatest
    · rw [behind_snoc_of hb, List.map_append]
      refine h.least.add ?_ ch.delay
      intro d hd
      obtain ⟨y, hy, rfl⟩ := List.mem_map.mp hd
      exact hposb y hy
    · intro _
      have hne : l ≠ [] := by
        rintro rfl
        obtain ⟨y, hy, -⟩ := hb
        cases hy
      obtain ⟨x, hx, hmax⟩ := h.nameMax hne
      exact ⟨x, List.mem_append_left [ch] hx, hmax⟩
    · by_cases hname : Lowers l ch ∧ ch.next.pid ≠ 0
      · rw [shownName_snoc_of hname]
        exact if_pos ⟨hlowers.mpr hname.1, hname.2⟩
      · rw [shownName_snoc_of_not hname, ← h.nameMin]
        exact if_neg fun hc => hname ⟨hlowers.mp hc.1, hc.2⟩

theorem Summed.extremal_iff (h : Summed l t) (hpos : ∀ y ∈ l, y.delay ≠ 0) (hne : l ≠ []) :
    Extremal l t ↔ Shown l := by
  obtain ⟨first, rest, rfl⟩ := List.exists_cons_of_ne_nil hne
  have hleast := least_behind_iff h.least hpos
  have hmin : ∀ ch ∈ first :: rest, Least ((first :: rest).map Charge.delay) t.minDelay →
      (ch.delay = t.minDelay ↔ ∀ x ∈ first :: rest, ch.delay ≤ x.delay) := by
    rintro ch hch (⟨hnil, -⟩ | ⟨hmem, hle⟩)
    · cases hnil
    · constructor
      · intro heq x hx
        rw [heq]
        exact hle _ (List.mem_map_of_mem hx)
      · intro hall
        obtain ⟨y, hy, hyd⟩ := List.mem_map.mp hmem
        have hchy := hall y hy
        rw [hyd] at hchy
        exact UInt64.le_antisymm hchy (hle _ (List.mem_map_of_mem hch))
  constructor
  · intro hext
    refine ⟨⟨first, rest, rfl, hleast.mp hext.least⟩, ?_⟩
    obtain ⟨ch, hch, heq, hname⟩ := hext.nameMin
    exact ⟨ch, hch, (hmin ch hch hext.least).mp heq, hname.trans h.nameMin⟩
  · rintro ⟨⟨first', rest', hcons, hlow⟩, ch, hch, hall, hname⟩
    cases hcons
    have hl := hleast.mpr hlow
    exact ⟨h.count, h.sum, h.greatest, hl, h.nameMax hne,
      ch, hch, (hmin ch hch hl).mpr hall, hname.trans h.nameMin.symm⟩

end Summed

/-! ## Runs with strictly increasing times -/

def stamp : Event → Option UInt64
  | .schedWakeup _ _ now _ | .schedWakeupNew _ _ now _ | .schedSwitch _ _ _ now _ => some now
  | _ => none

/-- A switch is between two tasks: a task does not replace itself. -/
def Event.switches : Event → Bool
  | .schedSwitch prev next _ _ _ => prev.pid ≠ next.pid
  | _ => true

structure OrderedRun (c : ScheduleCtrl) (tr : List Event) : Prop extends ActiveRun c tr where
  clock : (tr.filterMap stamp).Pairwise (· < ·)
  switches : ∀ e ∈ tr, e.switches = true

/-- All that is due in a run. -/
def charged (tr : List Event) : List Charge := collect due tr

section Ordered

variable {c : ScheduleCtrl} {pre tr : List Event} {e : Event} {k : ProcId} {t now : UInt64}
  {ch : Charge}

theorem OrderedRun.of_snoc (h : OrderedRun c (pre ++ [e])) : OrderedRun c pre where
  toActiveRun := h.restrict (List.prefix_append pre [e])
  clock := by
    have hclock := h.clock
    rw [List.filterMap_append] at hclock
    exact (List.pairwise_append.mp hclock).1
  switches x hx := h.switches x (List.mem_append_left [e] hx)

theorem OrderedRun.later (h : OrderedRun c (pre ++ [e])) (he : stamp e = some now) :
    ∀ t ∈ pre.filterMap stamp, t < now := by
  intro t ht
  have hclock := h.clock
  rw [List.filterMap_append] at hclock
  refine (List.pairwise_append.mp hclock).2.2 t ht now ?_
  simp [he]

theorem stamp_of_readies (h : readies k e = some (some t)) : stamp e = some t := by
  cases e with
  | scheduleCtrl c => cases h
  | schedWakeup p cpu now rooms =>
    simp only [readies, Option.ite_none_right_eq_some] at h
    rw [← Option.some.inj h.2]
    rfl
  | schedWakeupNew p cpu now rooms =>
    simp only [readies, Option.ite_none_right_eq_some] at h
    rw [← Option.some.inj h.2]
    rfl
  | schedSwitch prev next cpu now rooms =>
    simp only [readies, Option.ite_none_right_eq_some] at h
    rw [← Option.some.inj h.2]
    rfl
  | schedProcessExit p cpu =>
    simp only [readies, Option.ite_none_right_eq_some] at h
    cases h.2

theorem mem_stamps_of_readyTime (h : readyTime k tr = some t) : t ∈ tr.filterMap stamp := by
  obtain ⟨pre, e, post, htr, he, -⟩ := latest_eq_some (Option.join_eq_some_iff.mp h)
  rw [htr, List.mem_filterMap]
  exact ⟨e, by simp, stamp_of_readies he⟩

/-- A task that is not the one replaced became ready before the switch. -/
theorem due_pos (h : OrderedRun c (pre ++ [e])) (hd : due pre e = some ch) : ch.delay ≠ 0 := by
  cases e with
  | schedSwitch prev next cpu now rooms =>
    obtain ⟨t, ht, rfl⟩ := Option.map_eq_some_iff.mp hd
    have hne : prev.pid ≠ next.pid :=
      of_decide_eq_true (h.switches _ (List.mem_append_right pre (List.mem_singleton_self _)))
    have hreadies : readies (procId next.pid cpu) (.schedSwitch prev next cpu now rooms) = none :=
      if_neg fun hc => hne (congrArg ProcId.pid hc.2)
    rw [readyTime_snoc_none hreadies] at ht
    have hlt : t < now := h.later rfl t (mem_stamps_of_readyTime ht)
    exact fun hz => UInt64.ne_of_lt hlt (sub_eq_zero.mp hz).symm
  | _ => cases hd

theorem charged_pos (h : OrderedRun c tr) : ∀ ch ∈ charged tr, ch.delay ≠ 0 := by
  induction tr using List.reverseRecOn with
  | nil => exact fun ch hch => by cases hch
  | append_singleton pre e ih =>
    intro ch hch
    rw [charged, collect_snoc, List.mem_append, Option.mem_toList] at hch
    rcases hch with hch | hch
    · exact ih h.of_snoc ch hch
    · exact due_pos h hch

theorem summed (h : OrderedRun c tr) : Summed (charged tr) ((machine c).exec tr).sysSchedule := by
  induction tr using List.reverseRecOn with
  | nil =>
    exact ⟨rfl, rfl, Or.inl ⟨rfl, rfl⟩, Or.inl ⟨rfl, rfl⟩, fun hne => absurd rfl hne, rfl⟩
  | append_singleton pre e ih =>
    have hpre := ih h.of_snoc
    have hstep := step_charges ((machine c).exec pre) e
    rw [charges_eq_due h.toActiveRun] at hstep
    rw [Machine.exec_snoc, charged, collect_snoc]
    show Summed _ (step _ e).sysSchedule
    cases hd : due pre e with
    | none =>
      rw [hd] at hstep
      rw [hstep.1, Option.toList_none, List.append_nil]
      exact hpre
    | some ch =>
      rw [hd] at hstep
      rw [hstep.1]
      exact hpre.charge (charged_pos h.of_snoc) (due_pos h hd)

/-- After at least one charge the summary is right exactly when the minimum and its name are
shown. -/
theorem extrema_shown (c : ScheduleCtrl) (tr : List Event) (h : OrderedRun c tr)
    (hne : charged tr ≠ []) :
    Extremal (charged tr) ((machine c).exec tr).sysSchedule ↔ Shown (charged tr) :=
  (summed h).extremal_iff (charged_pos h) hne

end Ordered

/-! ## Two runs -/

/-- Task 5 waits for 100 ns and then task 6 for 60 ns. -/
def shorterSecond : List Event :=
  [.schedWakeupNew shell 0 10 allRooms, .schedWakeupNew editor 0 60 allRooms,
    .schedSwitch idleTask shell 0 110 allRooms, .schedSwitch shell editor 0 120 allRooms]

theorem shorterSecond_ordered : OrderedRun control shorterSecond where
  active := rfl
  stays e he c hc := by
    subst hc
    simp [shorterSecond] at he
  served := by decide
  clock := by decide
  switches := by decide

theorem extrema_shown_shorterSecond :
    Extremal (charged shorterSecond) ((machine control).exec shorterSecond).sysSchedule :=
  (extrema_shown control shorterSecond shorterSecond_ordered (by decide)).mpr
    ⟨⟨⟨idleTask, shell, 0, 100⟩, [⟨shell, editor, 0, 60⟩], by decide, by decide⟩, by decide⟩

/-- Task 5 waits for 100 ns and then task 6 for 160 ns. -/
def longerSecond : List Event :=
  [.schedWakeupNew shell 0 10 allRooms, .schedWakeupNew editor 0 60 allRooms,
    .schedSwitch idleTask shell 0 110 allRooms, .schedSwitch shell editor 0 220 allRooms]

theorem longerSecond_ordered : OrderedRun control longerSecond where
  active := rfl
  stays e he c hc := by
    subst hc
    simp [longerSecond] at he
  served := by decide
  clock := by decide
  switches := by decide

/-- Two charges that grow leave the minimum 0. -/
theorem growing_delays_have_no_minimum : ∃ c tr, OrderedRun c tr ∧ charged tr ≠ [] ∧
    ¬Extremal (charged tr) ((machine c).exec tr).sysSchedule := by
  refine ⟨control, longerSecond, longerSecond_ordered, by decide, ?_⟩
  intro h
  have hmin : ((machine control).exec longerSecond).sysSchedule.minDelay = 0 := by decide
  have hleast := h.least
  rw [hmin] at hleast
  revert hleast
  have hdelays : (charged longerSecond).map Charge.delay = [100, 160] := by decide
  rw [hdelays]
  rintro (⟨hnil, -⟩ | ⟨hmem, -⟩)
  · cases hnil
  · revert hmem
    decide

end CpuSubsystem.ScheduleDelay
