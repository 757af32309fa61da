import CpuSubsystem.ProcImage.ScheduleImage.Residue

/-!
# The copies in `tg_schedule`

`sched_switch` copies the record of a thread of the target group from `proc_schedule` to
`tg_schedule`.  What the maps hold for one thread is a `Slot`, and every event does one thing to the
slot of a thread, whatever it does to the others.
-/

namespace CpuSubsystem.ScheduleImage

/-- The elements of `proc_schedule`, `enable_add` and `tg_schedule` for one thread. -/
structure Slot where
  proc : Option ScheduleEvent
  added : Option Bool
  group : Option ScheduleEvent

/-- The key of a thread other than the idle tasks. -/
abbrev threadId (t : Int) : ProcId := ⟨t, 0⟩

def State.slot (s : State) (t : Int) : Slot where
  proc := s.procSchedule.lookup (threadId t)
  added := s.enableAdd.lookup (threadId t)
  group := s.tgSchedule.lookup t

namespace Slot

def ready (x : Slot) (p : Task) (now : UInt64) : Slot :=
  match x.proc with
  | none => { x with added := some false, proc := some (ScheduleEvent.create p now) }
  | some e => { x with proc := some { e with enterTime := now } }

/-- `next` gets the CPU while the group `g` is the target. -/
def charge (x : Slot) (g : Int) (next : Task) (now : UInt64) : Slot :=
  match x.proc, x.added with
  | some e, some added =>
    let e' := e.charge added next.prio (now - e.enterTime)
    { proc := some e', added := some true, group := if next.tgid = g then some e' else x.group }
  | _, _ => x

def exit (x : Slot) (g : Int) (p : Task) : Slot where
  proc := none
  added := none
  group := if p.tgid = g then none else x.group

/-- What an event does to the slot of the thread `t`. -/
def step (g t : Int) (x : Slot) : Event → Slot
  | .schedCtrl _ => x
  | .schedWakeup p _ now _ | .schedWakeupNew p _ now _ => if p.pid = t then x.ready p now else x
  | .schedSwitch prev next _ now _ =>
    let y := if prev.state = taskRunning ∧ prev.pid = t then x.ready prev now else x
    if next.pid = t then y.charge g next now else y
  | .schedProcessExit p _ => if p.pid = t then x.exit g p else x

/-- The copy is there exactly when the original is and has been charged, and the two agree but for
`enter_time`. -/
def Mirrors (x : Slot) : Prop :=
  (x.group.isSome ↔ x.proc.isSome ∧ x.added = some true) ∧
  ∀ r e, x.group = some r → x.proc = some e → r = { e with enterTime := r.enterTime }

end Slot

/-- The updates of the hash maps succeed. -/
def Roomy : Event → Prop
  | .schedWakeup _ _ _ rooms | .schedWakeupNew _ _ _ rooms | .schedSwitch _ _ _ _ rooms =>
    rooms = ⟨true, true, true⟩
  | .schedCtrl _ | .schedProcessExit _ _ => True

instance : (e : Event) → Decidable (Roomy e)
  | .schedWakeup _ _ _ _ | .schedWakeupNew _ _ _ _ | .schedSwitch _ _ _ _ _ =>
    inferInstanceAs (Decidable (_ = _))
  | .schedCtrl _ | .schedProcessExit _ _ => inferInstanceAs (Decidable True)

section Slots

variable {s : State} {t : Int}

theorem procId_eq (ht : t ≠ 0) (cpu : Int) : procId t cpu = threadId t := by
  rw [procId, if_neg ht]

theorem procId_ne_threadId {pid : Int} (h : pid ≠ t) (cpu : Int) : threadId t ≠ procId pid cpu :=
  fun heq => h (congrArg ProcId.pid heq).symm

theorem slot_ready (ht : t ≠ 0) (p : Task) (cpu : Int) (now : UInt64) :
    (ready s p cpu now ⟨true, true, true⟩).slot t =
      if p.pid = t then (s.slot t).ready p now else s.slot t := by
  by_cases hp : p.pid = t
  · subst hp
    have hk := procId_eq ht cpu
    rw [if_pos rfl]
    cases hl : s.procSchedule.lookup (threadId p.pid) with
    | none =>
      rw [ready_of_none s p cpu now _ (by rw [hk, hl])]
      simp [State.slot, Slot.ready, hl, hk]
    | some e =>
      rw [ready_of_some s p cpu now _ (by rw [hk, hl])]
      simp [State.slot, Slot.ready, hl, hk]
  · have hk : procId p.pid cpu ≠ threadId t := (procId_ne_threadId hp cpu).symm
    rw [if_neg hp, State.slot, (ready_lookup_of_ne hk).1, (ready_lookup_of_ne hk).2,
      (ready_targets s p cpu now _).1]
    rfl

theorem slot_charge (ht : t ≠ 0) (next : Task) (cpu : Int) (now : UInt64) :
    (charge s next cpu now ⟨true, true, true⟩).slot t =
      if next.pid = t then (s.slot t).charge s.schedCtrlMap.targetTgid next now else s.slot t := by
  by_cases hp : next.pid = t
  · subst hp
    have hk := procId_eq ht cpu
    rw [if_pos rfl]
    obtain ⟨hs, hnone⟩ | ⟨e, added, hl, ha⟩ := charge_cases s next cpu now ⟨true, true, true⟩
    · rw [hs]
      rw [hk] at hnone
      rcases hnone with hnone | hnone
      · simp [State.slot, Slot.charge, hnone]
      · simp only [State.slot, Slot.charge, hnone]
        cases s.procSchedule.lookup (threadId next.pid) <;> rfl
    · rw [charge_of_some s next cpu now _ hl ha]
      rw [hk] at hl ha
      simp only [State.slot, Slot.charge, hl, ha, hk, BpfMap.lookup_store_self, BpfMap.update_true]
      split
      · rw [BpfMap.lookup_store_self]
      · rfl
  · have hk := procId_ne_threadId hp cpu
    rw [if_neg hp]
    obtain ⟨hs, -⟩ | ⟨e, added, hl, ha⟩ := charge_cases s next cpu now ⟨true, true, true⟩
    · rw [hs]
    · rw [charge_of_some s next cpu now _ hl ha]
      simp only [State.slot, BpfMap.lookup_store_of_ne _ _ hk, BpfMap.update_true]
      split
      · rw [BpfMap.lookup_store_of_ne _ _ (Ne.symm hp)]
      · rfl

theorem slot_exit (hact : s.schedCtrlMap.schedFunc = true) (ht : t ≠ 0) (p : Task) (cpu : Int) :
    (schedProcessExit s p cpu).slot t =
      if p.pid = t then (s.slot t).exit s.schedCtrlMap.targetTgid p else s.slot t := by
  rw [schedProcessExit, if_pos hact]
  by_cases hp : p.pid = t
  · subst hp
    rw [if_pos rfl]
    simp only [State.slot, Slot.exit, procId_eq ht, BpfMap.lookup_delete_self]
    split
    · rw [BpfMap.lookup_delete_self]
    · rfl
  · have hk := procId_ne_threadId hp cpu
    rw [if_neg hp]
    simp only [State.slot, BpfMap.lookup_delete_of_ne _ hk]
    split
    · rw [BpfMap.lookup_delete_of_ne _ (Ne.symm hp)]
    · rfl

/-- An event does to the slot of a thread what `Slot.step` says. -/
theorem slot_step (hact : s.schedCtrlMap.schedFunc = true) (ht : t ≠ 0) {e : Event}
    (hroom : Roomy e) : (step s e).slot t = (s.slot t).step s.schedCtrlMap.targetTgid t e := by
  cases e with
  | schedCtrl c => rfl
  | schedWakeup p cpu now rooms =>
    cases hroom
    show (schedWakeup s p cpu now _).slot t = _
    rw [schedWakeup, if_pos hact, slot_ready ht]
    rfl
  | schedWakeupNew p cpu now rooms =>
    cases hroom
    show (schedWakeupNew s p cpu now _).slot t = _
    rw [schedWakeupNew, if_pos hact, slot_ready ht]
    rfl
  | schedSwitch prev next cpu now rooms =>
    cases hroom
    show (schedSwitch s prev next cpu now _).slot t = _
    rw [schedSwitch, if_pos hact, slot_charge ht]
    by_cases hrun : prev.state = taskRunning
    · rw [if_pos hrun, ready_ctrl, slot_ready ht]
      simp [Slot.step, hrun]
    · simp [Slot.step, hrun]
  | schedProcessExit p cpu => exact slot_exit hact ht p cpu

end Slots

/-- What holds of the slot of a thread that was last seen in the group `owner`, and that has exited
when `dead` holds, while `g` is the target. -/
structure Held (g : Int) (owner : Option Int) (dead : Prop) (x : Slot) : Prop where
  both : x.proc.isSome = x.added.isSome
  unseen : owner = none → ¬ dead ∧ x.group = none ∧ x.added ≠ some true
  mirrors : owner = some g → x.Mirrors
  /-- The copy left by a thread of the target group whose pid was given to another group. -/
  left : ∀ h, owner = some h → h ≠ g → ∀ r, x.group = some r → r.tgid = g
  /-- The exit deletes what there is, so that what there is afterwards is of the exited task. -/
  own : dead → ∀ h, owner = some h →
    (∀ e, x.proc = some e → e.tgid = h) ∧ ∀ r, x.group = some r → r.tgid = g

section Held

variable {g q : Int} {owner : Option Int} {dead : Prop} {x : Slot} {p : Task} {now : UInt64}

theorem held_empty (g : Int) : Held g none False ⟨none, none, none⟩ where
  both := rfl
  unseen _ := ⟨id, rfl, by decide⟩
  mirrors h := by cases h
  left _ h := by cases h
  own h := h.elim

theorem mirrors_of_none (hgroup : x.group = none) (hadded : x.added ≠ some true) : x.Mirrors := by
  refine ⟨?_, fun r e hr => ?_⟩
  · simp [hgroup, hadded]
  · rw [hgroup] at hr
    cases hr

theorem Held.seen (h : Held g owner dead x) (hq : owner = none ∨ owner = some q) :
    Held g (some q) dead x := by
  rcases hq with rfl | rfl
  · obtain ⟨halive, hgroup, hadded⟩ := h.unseen rfl
    refine ⟨h.both, fun hnone => (by cases hnone), fun _ => mirrors_of_none hgroup hadded, ?_,
      fun hdead => absurd hdead halive⟩
    intro _ _ _ r hr
    rw [hgroup] at hr
    cases hr
  · exact h

theorem ready_group (x : Slot) (p : Task) (now : UInt64) : (x.ready p now).group = x.group := by
  unfold Slot.ready
  cases x.proc <;> rfl

/-- A record and its flag are created together. -/
theorem ready_both (hboth : x.proc.isSome = x.added.isSome) :
    (x.ready p now).proc.isSome = (x.ready p now).added.isSome := by
  unfold Slot.ready
  cases hp : x.proc with
  | none => rfl
  | some e =>
    rw [← hboth, hp]
    rfl

theorem mirrors_ready (h : x.Mirrors) :
    (x.ready p now).Mirrors := by
  unfold Slot.ready
  cases hp : x.proc with
  | none =>
    have hgroup : x.group = none := by
      have hiff := h.1
      simpa [hp] using hiff
    exact mirrors_of_none hgroup (by simp)
  | some e =>
    -- only `enter_time` changes, in which the two may differ
    refine ⟨?_, fun r e' hr he' => ?_⟩
    · have hiff := h.1
      simpa [hp] using hiff
    · cases he'
      exact h.2 r e hr hp

theorem Held.ready (h : Held g owner dead x) (hq : owner = none ∨ owner = some p.tgid) :
    Held g owner dead (x.ready p now) where
  both := ready_both h.both
  unseen ho := by
    obtain ⟨halive, hgroup, hadded⟩ := h.unseen ho
    unfold Slot.ready
    cases hp : x.proc with
    | none => exact ⟨halive, hgroup, by simp⟩
    | some e => exact ⟨halive, hgroup, hadded⟩
  mirrors ho := mirrors_ready (h.mirrors ho)
  left := by
    rw [ready_group]
    exact h.left
  own hdead h' ho := by
    obtain ⟨hproc, hgroup⟩ := h.own hdead h' ho
    unfold Slot.ready
    cases hp : x.proc with
    | none =>
      -- the exited task comes back: the new record is its own
      refine ⟨fun e he => ?_, hgroup⟩
      cases he
      rcases hq with hq | hq
      · rw [hq] at ho
        cases ho
      · rw [hq] at ho
        exact Option.some.inj ho
    | some e =>
      refine ⟨fun e' he' => ?_, hgroup⟩
      cases he'
      exact hproc e hp

theorem Held.charge (h : Held g (some p.tgid) dead x) :
    Held g (some p.tgid) dead (x.charge g p now) := by
  unfold Slot.charge
  split
  · rename_i e added he ha
    refine ⟨rfl, fun ho => (by cases ho), fun ho => ?_, fun h' ho hne => ?_, fun hdead h' ho => ?_⟩
    · have htgid : p.tgid = g := Option.some.inj ho
      refine ⟨?_, fun r e' hr he' => ?_⟩
      · simp [htgid]
      · simp only [if_pos htgid] at hr
        cases hr
        cases he'
        rfl
    · cases ho
      simp only [if_neg hne]
      exact h.left p.tgid rfl hne
    · obtain ⟨hproc, hgroup⟩ := h.own hdead h' ho
      refine ⟨fun e' he' => ?_, ?_⟩
      · cases he'
        exact hproc e he
      · by_cases htgid : p.tgid = g
        · simp only [if_pos htgid]
          intro r hr
          cases hr
          cases ho
          exact (hproc e he).trans htgid
        · simp only [if_neg htgid]
          exact hgroup
  · exact h

theorem Held.exit (h : Held g (some p.tgid) dead x) : Held g (some p.tgid) True (x.exit g p) where
  both := rfl
  unseen ho := by cases ho
  mirrors ho := mirrors_of_none (if_pos (Option.some.inj ho)) (by simp [Slot.exit])
  left h' ho hne := by
    cases ho
    simp only [Slot.exit, if_neg hne]
    exact h.left p.tgid rfl hne
  own _ h' ho := by
    refine ⟨fun e he => (by cases he), ?_⟩
    cases ho
    unfold Slot.exit
    by_cases htgid : p.tgid = g
    · simp only [if_pos htgid]
      intro r hr
      cases hr
    · simp only [if_neg htgid]
      exact h.left p.tgid rfl htgid

/-- A pid is given to a new task. -/
theorem Held.born (h : Held g owner dead x) (hdead : dead ∨ owner = none)
    (hclean : p.tgid = g → owner = some g ∨ x.group = none ∧ x.added ≠ some true) :
    Held g (some p.tgid) False (x.ready p now) := by
  refine ⟨ready_both h.both, fun ho => (by cases ho), fun ho => ?_, fun h' ho hne r hr => ?_,
    False.elim⟩
  · apply mirrors_ready
    rcases hclean (Option.some.inj ho) with ho' | ⟨hgroup, hadded⟩
    · exact h.mirrors ho'
    · exact mirrors_of_none hgroup hadded
  · -- only a task of the target group, dead now, can have left a copy
    rw [ready_group] at hr
    cases hown : owner with
    | none =>
      rw [(h.unseen hown).2.1] at hr
      cases hr
    | some h₀ =>
      rcases hdead with hdead | hdead
      · exact (h.own hdead h₀ hown).2 r hr
      · rw [hown] at hdead
        cases hdead

/-- What another group left under the pid shows in the slot of its new task. -/
theorem Held.clean_of_mirrors (h : Held g owner dead x) (hdead : dead) {h₀ : Int}
    (howner : owner = some h₀) (hne : h₀ ≠ g) (hm : (x.ready p now).Mirrors) :
    x.group = none ∧ x.added ≠ some true := by
  obtain ⟨hproc, hgroup⟩ := h.own hdead h₀ howner
  unfold Slot.ready at hm
  cases hp : x.proc with
  | none =>
    have hboth := h.both
    rw [hp] at hm hboth
    have hiff := hm.1
    simp only [Option.isSome_some, true_and, Option.some.injEq, Bool.false_eq_true, iff_false,
      Bool.not_eq_true, Option.isSome_eq_false_iff, Option.isNone_iff_eq_none] at hiff
    refine ⟨hiff, fun hadded => ?_⟩
    rw [hadded] at hboth
    cases hboth
  | some e =>
    rw [hp] at hm
    -- both records would be there, one of each group
    have hboth : ∀ r, x.group = some r → False := by
      intro r hr
      have heq := hm.2 r _ hr rfl
      have htgid : r.tgid = e.tgid := by rw [heq]
      rw [hgroup r hr, hproc e hp] at htgid
      exact hne htgid.symm
    have hnone : x.group = none := Option.eq_none_iff_forall_ne_some.mpr hboth
    refine ⟨hnone, fun hadded => ?_⟩
    have hiff := hm.1.mpr ⟨rfl, hadded⟩
    rw [hnone] at hiff
    cases hiff

end Held

section Run

variable {c : SchedCtrl} {pre : List Event} {e : Event} {t : Int}

/-- A pid comes to the target group without elements that a task of another group left. -/
def ComesClean (c : SchedCtrl) (pre : List Event) : Event → Prop
  | .schedWakeupNew p _ _ _ =>
    p.pid ≠ 0 → p.tgid = c.targetTgid → latest (tgidOf p.pid) pre ≠ some c.targetTgid →
      let s := (machine c).exec pre
      s.tgSchedule.lookup p.pid = none ∧ s.enableAdd.lookup (threadId p.pid) ≠ some true
  | .schedCtrl _ | .schedWakeup _ _ _ _ | .schedSwitch _ _ _ _ _ | .schedProcessExit _ _ => True

instance (c : SchedCtrl) (pre : List Event) : (e : Event) → Decidable (ComesClean c pre e)
  | .schedWakeupNew _ _ _ _ => inferInstanceAs (Decidable (_ → _ → _ → _ ∧ _))
  | .schedCtrl _ | .schedWakeup _ _ _ _ | .schedSwitch _ _ _ _ _ | .schedProcessExit _ _ =>
    inferInstanceAs (Decidable True)

/-- The copies of the threads of the target group; the idle tasks, with pid 0, are of no group. -/
def GroupView (c : SchedCtrl) (tr : List Event) : Prop :=
  ∀ t, t ≠ 0 → latest (tgidOf t) tr = some c.targetTgid → (((machine c).exec tr).slot t).Mirrors

/-- The slots of all threads. -/
def AllHeld (c : SchedCtrl) (tr : List Event) : Prop :=
  ((machine c).exec tr).schedCtrlMap = c ∧
  ∀ t, t ≠ 0 → Held c.targetTgid (latest (tgidOf t) tr) (Exited tr t) (((machine c).exec tr).slot t)

/-- First `prev` becomes ready, then `next` is charged. -/
theorem Held.switch {g : Int} {x : Slot} {prev next : Task} {cpu : Int} {now : UInt64}
    {rooms : Rooms} (h : Held g (latest (tgidOf t) pre) (Exited pre t) x)
    (hl : Lives pre (.schedSwitch prev next cpu now rooms)) :
    Held g (latest (tgidOf t) (pre ++ [Event.schedSwitch prev next cpu now rooms]))
      (Exited (pre ++ [Event.schedSwitch prev next cpu now rooms]) t)
      (x.step g t (.schedSwitch prev next cpu now rooms)) := by
  have hex : Exited (pre ++ [Event.schedSwitch prev next cpu now rooms]) t = Exited pre t :=
    propext (exited_snoc_none rfl)
  have hready : Held g (latest (tgidOf t) pre) (Exited pre t)
      (if prev.state = taskRunning ∧ prev.pid = t then x.ready prev now else x) := by
    split
    · rename_i hrun
      apply h.ready
      rw [← hrun.2]
      exact hl.1
    · exact h
  rw [hex, Slot.step]
  by_cases hnext : next.pid = t
  · rw [latest_snoc_some pre (if_pos hnext)]
    simp only [if_pos hnext]
    apply Held.charge
    apply hready.seen
    rw [← hnext]
    exact hl.2
  · simp only [if_neg hnext]
    by_cases hprev : prev.pid = t
    · have htg : tgidOf t (.schedSwitch prev next cpu now rooms) = some prev.tgid := by
        rw [tgidOf, if_neg hnext, if_pos hprev]
      rw [latest_snoc_some pre htg]
      apply hready.seen
      rw [← hprev]
      exact hl.1
    · have htg : tgidOf t (.schedSwitch prev next cpu now rooms) = none := by
        rw [tgidOf, if_neg hnext, if_neg hprev]
      rw [latest_snoc_none pre htg]
      exact hready

theorem Held.step {g : Int} {x : Slot} (h : Held g (latest (tgidOf t) pre) (Exited pre t) x)
    (hl : Lives pre e)
    (hclean : ∀ p cpu now rooms, e = .schedWakeupNew p cpu now rooms → p.pid = t → p.tgid = g →
      latest (tgidOf t) pre = some g ∨ x.group = none ∧ x.added ≠ some true) :
    Held g (latest (tgidOf t) (pre ++ [e])) (Exited (pre ++ [e]) t) (x.step g t e) := by
  cases e with
  | schedCtrl c' =>
    have hex : Exited (pre ++ [Event.schedCtrl c']) t = Exited pre t :=
      propext (exited_snoc_none rfl)
    rw [latest_snoc_none pre rfl, hex]
    exact h
  | schedWakeup p cpu now rooms =>
    have hex : Exited (pre ++ [Event.schedWakeup p cpu now rooms]) t = Exited pre t :=
      propext (exited_snoc_none rfl)
    rw [hex, Slot.step]
    by_cases hp : p.pid = t
    · subst hp
      rw [latest_snoc_some pre (if_pos rfl), if_pos rfl]
      exact (h.ready hl).seen hl
    · rw [latest_snoc_none pre (if_neg hp), if_neg hp]
      exact h
  | schedWakeupNew p cpu now rooms =>
    rw [Slot.step]
    by_cases hp : p.pid = t
    · have hborn : Held g (some p.tgid) False (x.ready p now) :=
        h.born (by rw [← hp]; exact hl) (hclean p cpu now rooms rfl hp)
      have hex : Exited (pre ++ [Event.schedWakeupNew p cpu now rooms]) t = False := by
        rw [Exited, latest_snoc_some pre (if_pos hp)]
        simp
      rw [latest_snoc_some pre (if_pos hp), if_pos hp, hex]
      exact hborn
    · have hex : Exited (pre ++ [Event.schedWakeupNew p cpu now rooms]) t = Exited pre t :=
        propext (exited_snoc_none (if_neg hp))
      rw [latest_snoc_none pre (if_neg hp), if_neg hp, hex]
      exact h
  | schedSwitch prev next cpu now rooms => exact h.switch hl
  | schedProcessExit p cpu =>
    rw [Slot.step]
    by_cases hp : p.pid = t
    · have hex : Exited (pre ++ [Event.schedProcessExit p cpu]) t = True := by
        rw [Exited, latest_snoc_some pre (if_pos hp)]
        simp
      rw [latest_snoc_some pre (if_pos hp), if_pos hp, hex]
      apply Held.exit
      apply h.seen
      rw [← hp]
      exact hl.2
    · have hex : Exited (pre ++ [Event.schedProcessExit p cpu]) t = Exited pre t :=
        propext (exited_snoc_none (if_neg hp))
      rw [latest_snoc_none pre (if_neg hp), if_neg hp, hex]
      exact h

theorem allHeld_nil (c : SchedCtrl) : AllHeld c [] :=
  ⟨rfl, fun t _ => by
    have hex : Exited [] t = False := by simp [Exited]
    rw [hex]
    exact held_empty c.targetTgid⟩

theorem AllHeld.view (h : AllHeld c pre) : GroupView c pre :=
  fun t ht hmem => (h.2 t ht).mirrors hmem

variable (hact : c.schedFunc = true)

include hact in
theorem AllHeld.step (h : AllHeld c pre) (hk : Constant c e) (hroom : Roomy e) (hl : Lives pre e)
    (hclean : ComesClean c pre e) : AllHeld c (pre ++ [e]) := by
  obtain ⟨hctrl, hslots⟩ := h
  rw [AllHeld, (machine c).exec_snoc]
  refine ⟨step_ctrl hk hctrl, fun t ht => ?_⟩
  show Held _ _ _ ((ScheduleImage.step ((machine c).exec pre) e).slot t)
  rw [slot_step (by rw [hctrl, hact]) ht hroom, hctrl]
  apply (hslots t ht).step hl
  rintro p cpu now rooms rfl rfl htgid
  by_cases howner : latest (tgidOf p.pid) pre = some c.targetTgid
  · exact Or.inl howner
  · exact Or.inr (hclean ht htgid howner)

include hact in
/-- Elements that another group left show in the view of the thread that takes the pid over. -/
theorem AllHeld.clean (h : AllHeld c pre) (hroom : Roomy e) (hl : Lives pre e)
    (hview : GroupView c (pre ++ [e])) : ComesClean c pre e := by
  obtain ⟨hctrl, hslots⟩ := h
  cases e with
  | schedCtrl _ | schedWakeup _ _ _ _ | schedSwitch _ _ _ _ _ | schedProcessExit _ _ => trivial
  | schedWakeupNew p cpu now rooms =>
    intro ht htgid howner
    have hheld := hslots p.pid ht
    cases hown : latest (tgidOf p.pid) pre with
    | none => exact (hheld.unseen hown).2
    | some h₀ =>
      -- the pid is given away, so the task that had it has exited
      have hdead : Exited pre p.pid := by
        rcases hl with hdead | hnone
        · exact hdead
        · rw [hown] at hnone
          cases hnone
      have hne : h₀ ≠ c.targetTgid := by
        rintro rfl
        exact howner hown
      have hm := hview p.pid ht (by rw [latest_snoc_some pre (if_pos rfl), htgid])
      rw [(machine c).exec_snoc] at hm
      change ((ScheduleImage.step ((machine c).exec pre) _).slot p.pid).Mirrors at hm
      rw [slot_step (by rw [hctrl, hact]) ht hroom, Slot.step, if_pos rfl] at hm
      exact hheld.clean_of_mirrors hdead hown hne hm

/-- In every state of a run `tg_schedule` mirrors the records of the threads of the target group
exactly when no pid comes to this group with elements that a task of another group left.  They are
made by a switch or a wakeup of an exited task, or stay when the task that took the pid over is of
another group. -/
theorem group_view_iff (c : SchedCtrl) (tr : List Event) (hact : c.schedFunc = true)
    (hk : ∀ e ∈ tr, Constant c e) (hroom : ∀ e ∈ tr, Roomy e) (hl : Throughout Lives tr) :
    Throughout (fun pre e => GroupView c (pre ++ [e])) tr ↔ Throughout (ComesClean c) tr := by
  have hmem : ∀ {pre : List Event} {e : Event}, pre ++ [e] <+: tr → e ∈ tr :=
    fun hp => hp.subset (List.mem_append_right _ (List.mem_singleton_self _))
  apply (throughout_congr_of (R := AllHeld c) (allHeld_nil c) ?_ ?_).1
  · intro pre e hp hheld hview
    exact hheld.step hact (hk e (hmem hp)) (hroom e (hmem hp)) (hl pre e hp)
      (hheld.clean hact (hroom e (hmem hp)) (hl pre e hp) hview)
  · intro pre e hp hheld
    refine ⟨hheld.clean hact (hroom e (hmem hp)) (hl pre e hp), fun hclean => ?_⟩
    exact (hheld.step hact (hk e (hmem hp)) (hroom e (hmem hp)) (hl pre e hp) hclean).view

/-- The group 9 is the target. -/
def group9 : SchedCtrl := ⟨true, -1, -1, 9⟩

/-- The pid 5 is given to a thread of the group 9, of the group 7 and of the group 9 again; none is
preempted in its exit. -/
def reused : List Event :=
  [.schedWakeupNew ⟨5, 9, 120, 0⟩ 0 10 ⟨true, true, true⟩,
    .schedSwitch ⟨0, 0, 120, 0⟩ ⟨5, 9, 120, 0⟩ 0 20 ⟨true, true, true⟩,
    .schedProcessExit ⟨5, 9, 120, 0⟩ 0,
    .schedSwitch ⟨5, 9, 120, 128⟩ ⟨0, 0, 120, 0⟩ 0 30 ⟨true, true, true⟩,
    .schedWakeupNew ⟨5, 7, 120, 0⟩ 0 40 ⟨true, true, true⟩,
    .schedProcessExit ⟨5, 7, 120, 0⟩ 0,
    .schedWakeupNew ⟨5, 9, 120, 0⟩ 0 50 ⟨true, true, true⟩,
    .schedSwitch ⟨0, 0, 120, 0⟩ ⟨5, 9, 120, 0⟩ 0 60 ⟨true, true, true⟩]

theorem group_view_iff_reused : Throughout (fun pre e => GroupView group9 (pre ++ [e])) reused :=
  (group_view_iff group9 reused rfl (by decide) (by decide) (by decide)).mpr (by decide)

/-- Thread 5 of the group 7 is preempted by task 8 between its exit and its last switch; its pid is
given to a thread of the group 9. -/
def inherited : List Event :=
  [.schedWakeupNew ⟨5, 7, 120, 0⟩ 0 10 ⟨true, true, true⟩,
    .schedSwitch ⟨0, 0, 120, 0⟩ ⟨5, 7, 120, 0⟩ 0 20 ⟨true, true, true⟩,
    .schedProcessExit ⟨5, 7, 120, 0⟩ 0,
    .schedSwitch ⟨5, 7, 120, 0⟩ ⟨8, 8, 110, 0⟩ 0 30 ⟨true, true, true⟩,
    .schedSwitch ⟨8, 8, 110, 1⟩ ⟨5, 7, 120, 0⟩ 0 40 ⟨true, true, true⟩,
    .schedSwitch ⟨5, 7, 120, 128⟩ ⟨0, 0, 120, 0⟩ 0 50 ⟨true, true, true⟩,
    .schedWakeupNew ⟨5, 9, 120, 0⟩ 0 60 ⟨true, true, true⟩]

theorem inherited_not_mirrored :
    ¬ ∀ (c : SchedCtrl) (tr : List Event), c.schedFunc = true → (∀ e ∈ tr, Constant c e) →
      (∀ e ∈ tr, Roomy e) → Throughout Lives tr →
      Throughout (fun pre e => GroupView c (pre ++ [e])) tr := by
  intro h
  have hview := h group9 inherited rfl (by decide) (by decide) (by decide)
  have hmirrors := hview inherited.dropLast (inherited.getLast (by decide)) (by decide) 5
    (by decide) (by decide)
  -- the flag says that the thread was charged, and there is no copy
  have hcopy := hmirrors.1.mpr (by decide)
  revert hcopy
  decide

end Run

end CpuSubsystem.ScheduleImage
