import CpuSubsystem.ProcImage.Controller

/-!
# The tasks that one activation selects

Every image has its own control map and writes out the selection condition in its own way.
-/

namespace CpuSubsystem.ProcController

/-- A task, as the probes of all images see it. -/
structure Task where
  pid : Int
  tgid : Int
  nodename : Option (List Char)
deriving DecidableEq, Repr

/-- Constants that user space sets before loading, the same in every image. -/
structure Rodata where
  ignoreTgid : Int
  hostname : List Char
  maxArgs : Nat

section Conditions

variable (ro : Rodata) (env : Env) (cpu : Int) (cur task : Task)

def resourceSelects : Bool :=
  ResourceImage.selects ro.ignoreTgid (rscCtrl env) task.pid task.tgid cpu

def syscallSelects : Bool :=
  SyscallImage.traced ⟨ro.ignoreTgid, ro.hostname⟩ (scCtrl env)
      ⟨task.pid, task.tgid, task.nodename⟩ &&
    SyscallImage.selected (scCtrl env) task.pid task.tgid

def lockSelects : Bool :=
  LockImage.traced ⟨ro.ignoreTgid⟩ (lockCtrl env) ⟨task.pid, task.tgid⟩

def keytimeSelects : Bool :=
  KeytimeImage.selected ⟨ro.ignoreTgid, ro.maxArgs⟩ (ktCtrl env) ⟨task.pid, task.tgid⟩

/-- The condition at the end of a `vfork` of the task, where `cur` is running. -/
def vforkSelects : Bool :=
  KeytimeImage.selectedVfork ⟨ro.ignoreTgid, ro.maxArgs⟩ (ktCtrl env) ⟨cur.pid, cur.tgid⟩
    ⟨task.pid, task.tgid⟩

/-- What the probes decide for the task. -/
def selections : List Bool :=
  [resourceSelects ro env cpu task, syscallSelects ro env task, lockSelects ro env task,
    keytimeSelects ro env task, vforkSelects ro env cur task]

/-- The group is not the tool's own, or the tool is traced as well. -/
def Traceable (tgid : Int) : Prop := env.enableMyproc = true ∨ tgid ≠ ro.ignoreTgid

/-- There is no target at all, or the thread is the target. -/
def OfTargetPid (pid : Int) : Prop := env.pid = -1 ∧ env.tgid = -1 ∨ pid = env.pid

/-- None of the cases in which the conditions differ: a target thread outside a target group, the
tool itself as the target group, a `vfork` of which one side is the tool's own. -/
structure Undisputed : Prop where
  target : Traceable ro env task.tgid → env.tgid ≠ -1 → task.pid = env.pid → task.tgid = env.tgid
  tool : task.tgid = env.tgid → Traceable ro env task.tgid
  vfork : OfTargetPid env task.pid → task.tgid ≠ env.tgid →
    (Traceable ro env cur.tgid ↔ Traceable ro env task.tgid)

end Conditions

section Shapes

variable (ro : Rodata) (env : Env) (cpu : Int) (cur : Task) {task : Task}

theorem resourceSelects_iff (hpid : 0 < task.pid) :
    resourceSelects ro env cpu task = true ↔
      Traceable ro env task.tgid ∧ (OfTargetPid env task.pid ∨ task.tgid = env.tgid) := by
  simp only [resourceSelects, ResourceImage.selects, rscCtrl, Traceable, OfTargetPid,
    Bool.and_eq_true, Bool.or_eq_true, beq_iff_eq, bne_iff_ne]
  grind

theorem lockSelects_iff (hpid : 0 < task.pid) (htgid : 0 < task.tgid) :
    lockSelects ro env task = true ↔
      Traceable ro env task.tgid ∧ (OfTargetPid env task.pid ∨ task.tgid = env.tgid) := by
  simp only [lockSelects, LockImage.traced, lockCtrl, Traceable, OfTargetPid,
    Bool.and_eq_true, Bool.or_eq_true, beq_iff_eq, bne_iff_ne]
  grind

theorem keytimeSelects_iff (hpid : 0 < task.pid) (htgid : 0 < task.tgid) :
    keytimeSelects ro env task = true ↔
      Traceable ro env task.tgid ∧ (OfTargetPid env task.pid ∨ task.tgid = env.tgid) := by
  simp only [keytimeSelects, KeytimeImage.selected, ktCtrl, Traceable, OfTargetPid,
    Bool.and_eq_true, Bool.or_eq_true, beq_iff_eq, bne_iff_ne]
  grind

/-- A target group makes the syscall probes forget the target thread. -/
theorem syscallSelects_iff (htgid : 0 < task.tgid) (hc : env.isContainer = false) :
    syscallSelects ro env task = true ↔
      Traceable ro env task.tgid ∧
        (env.tgid = -1 ∧ OfTargetPid env task.pid ∨ task.tgid = env.tgid) := by
  simp only [syscallSelects, SyscallImage.traced, SyscallImage.selected, scCtrl, Traceable,
    OfTargetPid, hc, Bool.and_eq_true, Bool.or_eq_true, beq_iff_eq, bne_iff_ne, Bool.not_false]
  grind

/-- The check for the tool's own group is not made for the target group. -/
theorem vforkSelects_iff (hpid : 0 < task.pid) (htgid : 0 < task.tgid) :
    vforkSelects ro env cur task = true ↔
      Traceable ro env cur.tgid ∧ OfTargetPid env task.pid ∨ task.tgid = env.tgid := by
  simp only [vforkSelects, KeytimeImage.selectedVfork, ktCtrl, Traceable, OfTargetPid,
    Bool.and_eq_true, Bool.or_eq_true, beq_iff_eq, bne_iff_ne]
  grind

end Shapes

/-- One command selects the same tasks in all images, except for the tasks in dispute. -/
theorem selections_alike_iff (ro : Rodata) (env : Env) (cpu : Int) (cur task : Task)
    (hc : env.isContainer = false) (hpid : 0 < task.pid) (htgid : 0 < task.tgid) :
    ((∀ b ∈ selections ro env cpu cur task, b = true) ∨
      ∀ b ∈ selections ro env cpu cur task, b = false) ↔ Undisputed ro env cur task := by
  have hr := resourceSelects_iff ro env cpu hpid
  have hs := syscallSelects_iff ro env htgid hc
  have hl := lockSelects_iff ro env hpid htgid
  have hk := keytimeSelects_iff ro env hpid htgid
  have hv := vforkSelects_iff ro env cur hpid htgid
  have hne : env.tgid = -1 → task.tgid ≠ env.tgid := by omega
  have htarget : env.tgid ≠ -1 → (OfTargetPid env task.pid ↔ task.pid = env.pid) := by
    intro htt
    simp only [OfTargetPid, htt, and_false, false_or]
  simp only [selections, List.forall_mem_cons, List.not_mem_nil, false_imp_iff, implies_true,
    and_true, ← Bool.not_eq_true, hr, hs, hl, hk, hv]
  constructor
  · rintro (⟨⟨ho, htg⟩, ⟨-, hgroup⟩, -, -, hvfork⟩ | ⟨hno, -, -, -, hvfork⟩)
    · -- all conditions are true
      refine ⟨fun _ htt hp => ?_, fun _ => ho, fun hp hg => ?_⟩
      · exact hgroup.resolve_left (fun h => htt h.1)
      · exact iff_of_true (hvfork.resolve_right hg).1 ho
    · -- all are false, that of `vfork_exit` among them, so that the group is not the target
      have hg : task.tgid ≠ env.tgid := fun h => hvfork (.inr h)
      refine ⟨fun ho htt hp => ?_, fun h => absurd h hg, fun hp _ => ?_⟩
      · exact absurd ⟨ho, .inl ((htarget htt).mpr hp)⟩ hno
      · exact iff_of_false (fun hc => hvfork (.inl ⟨hc, hp⟩)) (fun ho => hno ⟨ho, .inl hp⟩)
  · rintro ⟨hthread, htool, hvfork⟩
    by_cases hg : task.tgid = env.tgid
    · have ho := htool hg
      exact .inl ⟨⟨ho, .inr hg⟩, ⟨ho, .inr hg⟩, ⟨ho, .inr hg⟩, ⟨ho, .inr hg⟩, .inr hg⟩
    · by_cases hsel : Traceable ro env task.tgid ∧ OfTargetPid env task.pid
      · obtain ⟨ho, hp⟩ := hsel
        -- a target group would be the task's own
        have htt : env.tgid = -1 := by
          by_contra htt
          exact hg (hthread ho htt ((htarget htt).mp hp))
        exact .inl ⟨⟨ho, .inl hp⟩, ⟨ho, .inl ⟨htt, hp⟩⟩, ⟨ho, .inl hp⟩, ⟨ho, .inl hp⟩,
          .inl ⟨(hvfork hp hg).mpr ho, hp⟩⟩
      · have hno : ¬(Traceable ro env task.tgid ∧
            (OfTargetPid env task.pid ∨ task.tgid = env.tgid)) :=
          fun h => hsel ⟨h.1, h.2.resolve_right hg⟩
        refine .inr ⟨hno, fun h => ?_, hno, hno, fun h => ?_⟩
        · exact hsel ⟨h.1, (h.2.resolve_right hg).2⟩
        · obtain ⟨hc, hp⟩ := h.resolve_right hg
          exact hsel ⟨(hvfork hp hg).mp hc, hp⟩

/-- With `-p 7 -P 3`, thread 7 of group 5 is selected by all images but the syscall image. -/
theorem target_thread_in_dispute :
    ∃ env, [Opt.activate, .pid 7, .tgid 3, .resource, .keytime 0, .lock, .syscall 10].foldlM
        parseArg Env.initial = .ok env ∧
      selections ⟨1, [], 20⟩ env 0 ⟨7, 5, none⟩ ⟨7, 5, none⟩ = [true, false, true, true, true] := by
  refine ⟨_, rfl, ?_⟩
  decide

/-- Thread 7 of group 5 is the target, and no group is. -/
theorem selections_alike_iff_pid :
    Undisputed ⟨1, [], 20⟩ { Env.initial with pid := 7 } ⟨7, 5, none⟩ ⟨7, 5, none⟩ ∧
      ((∀ b ∈ selections ⟨1, [], 20⟩ { Env.initial with pid := 7 } 0 ⟨7, 5, none⟩ ⟨7, 5, none⟩,
          b = true) ∨
        ∀ b ∈ selections ⟨1, [], 20⟩ { Env.initial with pid := 7 } 0 ⟨7, 5, none⟩ ⟨7, 5, none⟩,
          b = false) := by
  have h : Undisputed ⟨1, [], 20⟩ { Env.initial with pid := 7 } ⟨7, 5, none⟩ ⟨7, 5, none⟩ :=
    ⟨fun _ htt => absurd rfl htt, fun _ => .inr (by decide), fun _ _ => Iff.rfl⟩
  exact ⟨h, (selections_alike_iff ⟨1, [], 20⟩ { Env.initial with pid := 7 } 0 ⟨7, 5, none⟩
    ⟨7, 5, none⟩ rfl (by decide) (by decide)).mpr h⟩

end CpuSubsystem.ProcController
