import CpuSubsystem.ProcImage.KeytimeImage.Probes

/-!
# The tool's own process

With `enable_myproc` off, a task of the thread group `ignore_tgid` is never selected.  It is seen
all the same in two ways: `vfork_exit` closes a parenthesis too early, and the exit probes call
`child_exit` for every task.
-/

namespace CpuSubsystem.KeytimeImage

/-- The tasks of a context switch. -/
def Event.switched : Event → Option (Task × Task)
  | .schedSwitch prev next .. => some (prev, next)
  | _ => none

/-- A switch reports `prev` by an off-CPU record and `next` by a key-time record. -/
def Record.isOffcpu : Record → Bool
  | .offcpu _ => true
  | .keytime _ => false

variable (ro : Rodata) (c : KtCtrl)

/-- No record and no change comes from a task of the tool, and no switch record is about one. -/
def Invisible (pre : List Event) (e : Event) : Prop :=
  (∀ cur ∈ e.cur, cur.tgid = ro.ignoreTgid →
    (machine ro c).emits pre e = [] ∧
      (machine ro c).exec (pre ++ [e]) = (machine ro c).exec pre) ∧
  ∀ tasks ∈ e.switched,
    (tasks.1.tgid = ro.ignoreTgid →
      ∀ r ∈ (machine ro c).emits pre e, r.isOffcpu = false) ∧
    (tasks.2.tgid = ro.ignoreTgid →
      ∀ r ∈ (machine ro c).emits pre e, r.isOffcpu = true)

/-- A task of the tool does not return from vfork as a child of the target thread group, nor exit
with an entry under its pid; unless nothing can be stored or reported. -/
def Hidden (s : State) : Event → Prop
  | .vforkExit cur parent room slot =>
    cur.tgid = ro.ignoreTgid → s.ktCtrlMap.ktFunc = true →
      s.ktCtrlMap.targetTgid ≠ -1 → parent.tgid = s.ktCtrlMap.targetTgid →
      s.child.accepts room cur.pid = true →
        slot = none ∧ s.child.lookup cur.pid = some ⟨6, parent.pid, parent.tgid⟩
  | .sysEnterExitGroup cur _ _ slot' | .sysEnterExit cur _ _ slot' =>
    cur.tgid = ro.ignoreTgid → s.ktCtrlMap.ktFunc = true → slot'.isSome = true →
      s.child.lookup cur.pid = none
  | _ => True

variable {ro c} {s : State} {cur : Task}

theorem selected_ignored (hoff : s.ktCtrlMap.enableMyproc = false)
    (hcur : cur.tgid = ro.ignoreTgid) : selected ro s.ktCtrlMap cur = false := by
  simp only [selected, hoff, hcur, bne_self_eq_false, Bool.or_self, Bool.false_and]

/-- All that is left of the selection in `vfork_exit`. -/
theorem selectedVfork_ignored (hoff : s.ktCtrlMap.enableMyproc = false)
    (hcur : cur.tgid = ro.ignoreTgid) (parent : Task) :
    selectedVfork ro s.ktCtrlMap cur parent = true ↔
      s.ktCtrlMap.targetTgid ≠ -1 ∧ parent.tgid = s.ktCtrlMap.targetTgid := by
  simp only [selectedVfork, hoff, hcur, bne_self_eq_false, Bool.or_self, Bool.false_and,
    Bool.false_or, Bool.and_eq_true, bne_iff_ne, beq_iff_eq]

theorem vforkExit_idle {parent : Task} {room : Bool} {slot : Option KeytimeEvent}
    (hoff : s.ktCtrlMap.enableMyproc = false) (hcur : cur.tgid = ro.ignoreTgid) :
    vforkExit ro s cur room slot parent = (s, []) ↔
      Hidden ro s (.vforkExit cur parent room slot) := by
  have hsel := selectedVfork_ignored hoff hcur parent
  unfold vforkExit
  dsimp only
  by_cases hrun : (s.ktCtrlMap.ktFunc && selectedVfork ro s.ktCtrlMap cur parent) = true
  · rw [if_pos hrun, childCreate_idle]
    rw [Bool.and_eq_true, hsel] at hrun
    -- the target thread group is set here, so the entry shows that of the parent
    have hshown : shownTgid s.ktCtrlMap parent.tgid = parent.tgid := by
      rw [shownTgid, if_pos (bne_iff_ne.mpr hrun.2.1)]
    rw [hshown]
    exact ⟨fun h _ _ _ _ => h, fun h => h hcur hrun.1 hrun.2.1 hrun.2.2⟩
  · rw [if_neg hrun]
    rw [Bool.and_eq_true, hsel] at hrun
    exact ⟨fun _ _ hf hset hgroup => absurd ⟨hf, hset, hgroup⟩ hrun, fun _ => rfl⟩

theorem exitProbe_idle {slot slot' : Option KeytimeEvent} {code : UInt64}
    (hoff : s.ktCtrlMap.enableMyproc = false) (hcur : cur.tgid = ro.ignoreTgid) :
    exitProbe ro s cur slot slot' code = (s, []) ↔
      (s.ktCtrlMap.ktFunc = true → slot'.isSome = true → s.child.lookup cur.pid = none) := by
  unfold exitProbe
  dsimp only
  rw [selected_ignored hoff hcur, if_neg Bool.false_ne_true]
  by_cases hf : s.ktCtrlMap.ktFunc = true
  · rw [if_pos hf, childExit_idle]
    exact ⟨fun h _ => h, fun h => h hf⟩
  · rw [if_neg hf]
    exact ⟨fun _ h => absurd h hf, fun _ => rfl⟩

/-- The probes of a task of the tool. -/
theorem step_idle {e : Event} (hoff : s.ktCtrlMap.enableMyproc = false) (he : e.cur = some cur)
    (hcur : cur.tgid = ro.ignoreTgid) : step ro s e = (s, []) ↔ Hidden ro s e := by
  have hsel := selected_ignored hoff hcur
  have hno : (s.ktCtrlMap.ktFunc && selected ro s.ktCtrlMap cur) = false := by
    rw [hsel, Bool.and_false]
  -- a probe that runs nothing unless the task is selected
  have hskip : ∀ r : State × List Record,
      (if (s.ktCtrlMap.ktFunc && selected ro s.ktCtrlMap cur) = true then r else (s, [])) =
        (s, []) := by
    intro r
    rw [hno, if_neg Bool.false_ne_true]
  cases e with
  | ktCtrl c' => cases he
  | schedSwitch prev next off on kstack reservedOff slotOn => cases he
  | sysEnterExecve cur' filename args user slot =>
    cases he
    exact ⟨fun _ => trivial, fun _ => hskip _⟩
  | sysExitExecve cur' ret slot =>
    cases he
    exact ⟨fun _ => trivial, fun _ => hskip _⟩
  | forkExit cur' ret room slot =>
    cases he
    refine ⟨fun _ => trivial, fun _ => ?_⟩
    show forkExit ro s cur room slot ret = (s, [])
    rw [forkExit, hsel, Bool.false_and, Bool.and_false, if_neg Bool.false_ne_true]
  | vforkExit cur' parent room slot =>
    cases he
    exact vforkExit_idle hoff hcur
  | pthreadCreateEnter cur' room =>
    cases he
    refine ⟨fun _ => trivial, fun _ => ?_⟩
    show (pthreadCreateEnter ro s cur room, []) = (s, [])
    rw [pthreadCreateEnter, hno, if_neg Bool.false_ne_true]
  | pthreadCreateExit cur' =>
    cases he
    refine ⟨fun _ => trivial, fun _ => ?_⟩
    show (pthreadCreateExit ro s cur, []) = (s, [])
    rw [pthreadCreateExit, hno, if_neg Bool.false_ne_true]
  | sysExitClone3 cur' ret room slot =>
    cases he
    exact ⟨fun _ => trivial, fun _ => hskip _⟩
  | sysEnterExitGroup cur' code slot slot' =>
    cases he
    exact (exitProbe_idle hoff hcur).trans ⟨fun h _ => h, fun h => h hcur⟩
  | sysEnterExit cur' code slot slot' =>
    cases he
    exact (exitProbe_idle hoff hcur).trans ⟨fun h _ => h, fun h => h hcur⟩

/-- The switch probe checks both of its tasks. -/
theorem schedSwitch_ignored {prev next : Task} {off on : UInt64} {kstack : Kstack}
    {reservedOff : Bool} {slotOn : Option KeytimeEvent} (hoff : s.ktCtrlMap.enableMyproc = false) :
    (prev.tgid = ro.ignoreTgid →
      ∀ r ∈ (schedSwitch ro s slotOn prev next off on kstack reservedOff).2,
        r.isOffcpu = false) ∧
    (next.tgid = ro.ignoreTgid →
      ∀ r ∈ (schedSwitch ro s slotOn prev next off on kstack reservedOff).2,
        r.isOffcpu = true) := by
  unfold schedSwitch
  dsimp only
  constructor
  · intro hprev
    rw [selected_ignored hoff hprev, Bool.and_false, if_neg Bool.false_ne_true]
    intro r hr
    split at hr
    · split at hr
      · cases slotOn with
        | none => cases hr
        | some mem =>
          rw [List.mem_singleton.mp hr]
          rfl
      · cases hr
    · cases hr
  · intro hnext
    rw [selected_ignored hoff hnext, Bool.and_false, if_neg Bool.false_ne_true]
    intro r hr
    split at hr
    · split at hr
      · split at hr
        · rw [List.mem_singleton.mp hr]
          rfl
        · cases hr
      · cases hr
    · cases hr

theorem invisible_step {pre : List Event} {e : Event}
    (hoff : ((machine ro c).exec pre).ktCtrlMap.enableMyproc = false) :
    Invisible ro c pre e ↔ Hidden ro ((machine ro c).exec pre) e := by
  have hexec := Machine.exec_snoc (machine ro c) pre e
  have hswitch : ∀ tasks ∈ e.switched,
      (tasks.1.tgid = ro.ignoreTgid →
        ∀ r ∈ (machine ro c).emits pre e, r.isOffcpu = false) ∧
      (tasks.2.tgid = ro.ignoreTgid →
        ∀ r ∈ (machine ro c).emits pre e, r.isOffcpu = true) := by
    intro tasks htasks
    cases e with
    | schedSwitch prev next off on kstack reservedOff slotOn =>
      cases htasks
      exact schedSwitch_ignored hoff
    | _ => cases htasks
  have hprobe : ∀ cur ∈ e.cur, cur.tgid = ro.ignoreTgid →
      (((machine ro c).emits pre e = [] ∧
        (machine ro c).exec (pre ++ [e]) = (machine ro c).exec pre) ↔
        Hidden ro ((machine ro c).exec pre) e) := by
    intro cur he hcur
    rw [← step_idle hoff he hcur, hexec]
    constructor
    · intro h
      exact Prod.ext h.2 h.1
    · intro h
      have hstate : (step ro ((machine ro c).exec pre) e).1 = (machine ro c).exec pre := by rw [h]
      have hout : (step ro ((machine ro c).exec pre) e).2 = [] := by rw [h]
      exact ⟨hout, hstate⟩
  by_cases hown : ∃ cur ∈ e.cur, cur.tgid = ro.ignoreTgid
  · obtain ⟨cur, he, hcur⟩ := hown
    constructor
    · intro h
      exact (hprobe cur he hcur).mp (h.1 cur he hcur)
    · intro h
      exact ⟨fun cur' he' hcur' => (hprobe cur' he' hcur').mpr h, hswitch⟩
  · constructor
    · intro _
      -- `Hidden` speaks of tasks of the tool only
      cases e with
      | vforkExit cur parent room slot => exact fun hcur => absurd ⟨cur, rfl, hcur⟩ hown
      | sysEnterExitGroup cur code slot slot' => exact fun hcur => absurd ⟨cur, rfl, hcur⟩ hown
      | sysEnterExit cur code slot slot' => exact fun hcur => absurd ⟨cur, rfl, hcur⟩ hown
      | _ => trivial
    · intro _
      exact ⟨fun cur he hcur => absurd ⟨cur, he, hcur⟩ hown, hswitch⟩

/-- In every run with a constant control that leaves the tool's process out. -/
theorem tool_invisible (ro : Rodata) (c : KtCtrl) (tr : List Event)
    (hoff : c.enableMyproc = false) (hconst : ∀ e ∈ tr, e.control = none) :
    Throughout (Invisible ro c) tr ↔
      Throughout (fun pre e => Hidden ro ((machine ro c).exec pre) e) tr := by
  have hstep : ∀ pre e, pre ++ [e] <+: tr →
      (Invisible ro c pre e ↔ Hidden ro ((machine ro c).exec pre) e) := by
    intro pre e hp
    apply invisible_step
    have hpre : ((machine ro c).exec pre).ktCtrlMap = c :=
      ctrl_const fun x hx => hconst x (hp.subset (List.mem_append_left [e] hx))
    rw [hpre]
    exact hoff
  constructor
  · intro h pre e hp
    exact (hstep pre e hp).mp (h pre e hp)
  · intro h pre e hp
    exact (hstep pre e hp).mpr (h pre e hp)

section Runs

instance (e : Event) : Decidable (Hidden ro s e) :=
  match e with
  | .vforkExit .. | .sysEnterExitGroup .. | .sysEnterExit .. => inferInstanceAs (Decidable (_ → _))
  | .ktCtrl _ | .sysEnterExecve .. | .sysExitExecve .. | .forkExit .. | .pthreadCreateEnter ..
  | .pthreadCreateExit .. | .sysExitClone3 .. | .schedSwitch .. => isTrue trivial

/-- The thread group 10 is the target; the tool is left out. -/
def shellTargeted : KtCtrl where
  ktFunc := true
  ktCpuFunc := true
  enableMyproc := false
  targetPid := -1
  targetTgid := 10

/-- The tool and the shell run an exec, and a thread of the tool exits. -/
def toolRuns : List Event :=
  [.sysExitExecve ⟨20, 20⟩ 0 (some .zero), .sysExitExecve ⟨10, 10⟩ 0 (some .zero),
    .forkExit ⟨10, 10⟩ 11 true (some .zero), .sysEnterExit ⟨21, 20⟩ 0 (some .zero) (some .zero)]

theorem tool_invisible_toolRuns : Throughout (Invisible ⟨20, 2⟩ shellTargeted) toolRuns :=
  (tool_invisible ⟨20, 2⟩ shellTargeted toolRuns rfl (by decide)).mpr (by decide +kernel)

/-- The tool, a child of the targeted shell, returns from vfork. -/
theorem tool_vfork_recorded :
    ¬Throughout (Invisible ⟨20, 2⟩ shellTargeted)
      [.vforkExit ⟨20, 20⟩ ⟨10, 10⟩ true (some .zero)] := by
  intro h
  have hlast : Invisible ⟨20, 2⟩ shellTargeted [] _ := @Throughout.last _ _ [] _ h
  have hemits := (hlast.1 ⟨20, 20⟩ rfl rfl).1
  cases hemits

end Runs

end CpuSubsystem.KeytimeImage
