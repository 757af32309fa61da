import CpuSubsystem.CpuWatcher.Sar.Model
import CpuSubsystem.Lib.Handover
import Mathlib.Algebra.BigOperators.Group.Finset.Piecewise
import Mathlib.Data.UInt

/-!
# Time of user tasks and kernel threads

The start times are in a table of 1024 elements under the pids of the tasks, all 0 in the beginning.
A task with a greater pid has no start time; one that was on its CPU before the program was loaded
has the start time 0.
-/

namespace CpuSubsystem.Sar

/-- The tasks are told apart by their pids, the idle tasks by their CPUs. -/
def taskOf (pid cpu : Nat) : Nat × Nat := (pid, if pid = 0 then cpu else 0)

def Event.hand : Event → Option (Hand Nat (Nat × Nat))
  | .schedSwitch cpu prev next _ => some (.turns cpu (taskOf prev cpu) (taskOf next cpu))
  | .finishTaskSwitch cpu prev _ => some (.finishes cpu (taskOf prev.pid cpu))
  | _ => none

def Event.entered : Event → UInt64
  | .schedSwitch _ _ _ time => time
  | _ => 0

def Event.left : Event → Task × UInt64
  | .finishTaskSwitch _ prev time => (prev, time)
  | _ => (⟨0, 0⟩, 0)

/-- The task `p` gets a CPU, or is off it. -/
def onCpu (p : Nat × Nat) : Event → Option (Probe UInt64 (Task × UInt64)) :=
  tenure Event.hand Event.entered Event.left p

def userTask (t : Task) : Bool := !t.kthread && !t.idle

/-- A kernel thread other than the idle task. -/
def kernelThread (t : Task) : Bool := t.kthread && t.pid ≠ 0

section

variable (kind : Task → Bool)

/-- The lengths of the completed intervals of `p` on a CPU, at whose end it was of this kind. -/
def timeOf (tr : List Event) (p : Nat × Nat) : UInt64 :=
  (((calls (onCpu p) tr).completed.filter fun i => kind i.2.1).map fun i => i.2.2 - i.1).sum

/-- What `finish_task_switch` adds for a task of this kind. -/
def gain (s : State) (prev : Task) (time : UInt64) : UInt64 :=
  if kind prev then ((s.procStartTime.lookup prev.pid).map fun val => time - val).getD 0 else 0

/-- The length of the interval that ends, when its beginning was observed. -/
def due (pre : List Event) (cpu : Nat) (prev : Task) (time : UInt64) : UInt64 :=
  if kind prev then
    ((calls (onCpu (taskOf prev.pid cpu)) pre).pending.map fun start => time - start).getD 0
  else 0

end

/-- A property of the end of a switch. -/
def Event.Finishes (P : Nat → Task → UInt64 → Prop) : Event → Prop
  | .finishTaskSwitch cpu prev time => P cpu prev time
  | _ => True

instance (P : Nat → Task → UInt64 → Prop) [∀ cpu prev time, Decidable (P cpu prev time)]
    (e : Event) : Decidable (e.Finishes P) :=
  match e with
  | .finishTaskSwitch cpu prev time => inferInstanceAs (Decidable (P cpu prev time))
  | .sarCtrl _ | .kprobeFinishTaskSwitch _ | .schedSwitch _ _ _ _ | .updateRqClock _
  | .softirqEntry _ _ _ _ | .softirqExit _ _ _ _ | .irqHandlerEntry _ _ _ _
  | .irqHandlerExit _ _ _ | .cpuIdle _ _ _ | .tickUpdate _ _ => inferInstanceAs (Decidable True)

/-- The flags tell the idle tasks. -/
def IdleFlagged (e : Event) : Prop :=
  e.Finishes fun _ prev _ => prev.pid = 0 → prev.idle = true

instance (e : Event) : Decidable (IdleFlagged e) :=
  inferInstanceAs (Decidable (e.Finishes _))

/-- Any number of CPUs, whatever they run in the beginning. -/
structure ValidRun (tr : List Event) : Prop where
  schedule : ValidHandover Event.hand tr
  idle : ∀ e ∈ tr, IdleFlagged e

/-- The tasks of `K` are all that are switched off a CPU. -/
def Covers (K : Finset (Nat × Nat)) (e : Event) : Prop :=
  e.Finishes fun cpu prev _ => taskOf prev.pid cpu ∈ K

instance (K : Finset (Nat × Nat)) (e : Event) : Decidable (Covers K e) :=
  inferInstanceAs (Decidable (e.Finishes _))

section

variable (forksAddr : UInt64) (c : SarCtrl) (K : Finset (Nat × Nat))

/-- Both accumulators are the sums over the tasks of their kind. -/
structure TimesRight (tr : List Event) : Prop where
  user : ((machine forksAddr c).exec tr).utLastTime = ∑ p ∈ K, timeOf userTask tr p
  kernel : ((machine forksAddr c).exec tr).ktLastTime = ∑ p ∈ K, timeOf kernelThread tr p

end

/-- The task has a place in the table when its interval was observed from its beginning, and none
when it was not. -/
def InPlace (pending : Option UInt64) (pid : Nat) (time : UInt64) : Prop :=
  match pending with
  | some start => pid < 1024 ∨ time = start
  | none => 1024 ≤ pid ∨ time = 0

instance (pending : Option UInt64) (pid : Nat) (time : UInt64) :
    Decidable (InPlace pending pid time) :=
  match pending with
  | some _ | none => inferInstanceAs (Decidable (_ ∨ _))

/-- The tasks that are counted are in place. -/
def Measured (pre : List Event) (e : Event) : Prop :=
  e.Finishes fun cpu prev time =>
    userTask prev = true ∨ kernelThread prev = true →
      InPlace (calls (onCpu (taskOf prev.pid cpu)) pre).pending prev.pid time

instance (pre : List Event) (e : Event) : Decidable (Measured pre e) :=
  inferInstanceAs (Decidable (e.Finishes _))

section Finish

variable {kind : Task → Bool} {pre : List Event} {e : Event}

theorem onCpu_finish (cpu : Nat) (prev : Task) (time : UInt64) :
    onCpu (taskOf prev.pid cpu) (.finishTaskSwitch cpu prev time) = some (.exit (prev, time)) :=
  tenure_finishes rfl

theorem timeOf_finish (cpu : Nat) (prev : Task) (time : UInt64) (p : Nat × Nat) :
    timeOf kind (pre ++ [Event.finishTaskSwitch cpu prev time]) p =
      timeOf kind pre p + if taskOf prev.pid cpu = p then due kind pre cpu prev time else 0 := by
  by_cases hp : taskOf prev.pid cpu = p
  · subst hp
    rw [if_pos rfl, timeOf, timeOf, due, calls_snoc (onCpu_finish cpu prev time), Calls.step]
    -- an interval without an observed beginning is not completed
    cases hpend : (calls (onCpu (taskOf prev.pid cpu)) pre).pending with
    | none =>
      simp
    | some start =>
      cases hk : kind prev with
      | true => simp [List.filter_append, hk]
      | false => simp [List.filter_append, hk]
  · have hview : onCpu p (.finishTaskSwitch cpu prev time) = none :=
      tenure_finishes_other rfl hp
    rw [if_neg hp, add_zero, timeOf, timeOf, calls_snoc_skip hview]

/-- Only the end of a switch completes an interval. -/
theorem timeOf_other (p : Nat × Nat) (he : ∀ cpu prev time, e ≠ .finishTaskSwitch cpu prev time) :
    timeOf kind (pre ++ [e]) p = timeOf kind pre p := by
  cases hv : onCpu p e with
  | none => rw [timeOf, timeOf, calls_snoc_skip hv]
  | some q =>
    cases e with
    | schedSwitch cpu prev next time =>
      by_cases hp : taskOf next cpu = p
      · subst hp
        have hview : onCpu (taskOf next cpu) (.schedSwitch cpu prev next time) =
            some (.enter time) := tenure_turns rfl
        rw [timeOf, timeOf, calls_snoc hview]
        rfl
      · have hview : onCpu p (.schedSwitch cpu prev next time) = none :=
          tenure_turns_other rfl hp
        rw [timeOf, timeOf, calls_snoc_skip hview]
    | finishTaskSwitch cpu prev time => exact absurd rfl (he cpu prev time)
    | _ => cases hv

theorem finishTaskSwitch_gain (s : State) (prev : Task) (time : UInt64) :
    (finishTaskSwitch s prev time).utLastTime = s.utLastTime + gain userTask s prev time ∧
    (finishTaskSwitch s prev time).ktLastTime = s.ktLastTime + gain kernelThread s prev time ∧
    (finishTaskSwitch s prev time).procStartTime = s.procStartTime := by
  unfold finishTaskSwitch gain userTask kernelThread
  cases hk : prev.kthread <;> cases hi : prev.idle <;> by_cases hp : prev.pid = 0 <;>
    cases s.procStartTime.lookup prev.pid <;> simp [hp]

end Finish

section Run

variable {forksAddr : UInt64} {c : SarCtrl} {pre tr : List Event} {e : Event} {s : State}
  {K : Finset (Nat × Nat)}

theorem taskOf_of_ne {pid : Nat} (h : pid ≠ 0) (cpu : Nat) : taskOf pid cpu = (pid, 0) := by
  rw [taskOf, if_neg h]

/-- Only the two probes of a switch have a part in the times of the tasks. -/
theorem step_frame (he : e.hand = none) :
    (step forksAddr s e).procStartTime = s.procStartTime ∧
    (step forksAddr s e).utLastTime = s.utLastTime ∧
    (step forksAddr s e).ktLastTime = s.ktLastTime := by
  cases e with
  | schedSwitch _ _ _ _ | finishTaskSwitch _ _ _ => cases he
  | cpuIdle cpuId state time =>
    obtain ⟨start, last, hframe⟩ := traceCpuIdle_frame s cpuId state time
    simp only [step, hframe, and_self]
  | _ =>
    simp only [step, kprobeFinishTaskSwitch, updateRqClock, traceSoftirqEntry, traceSoftirqExit,
      traceIrqHandlerEntry, traceIrqHandlerExit, tickUpdate, and_self]

theorem traceSchedSwitch2_table (s : State) {prev next : Nat} (hne : prev ≠ next)
    (time : UInt64) :
    (traceSchedSwitch2 s prev next time).procStartTime = s.procStartTime.update next time := by
  rw [traceSchedSwitch2, if_pos hne]

theorem traceSchedSwitch2_times (s : State) (prev next : Nat) (time : UInt64) :
    (traceSchedSwitch2 s prev next time).utLastTime = s.utLastTime ∧
    (traceSchedSwitch2 s prev next time).ktLastTime = s.ktLastTime := by
  unfold traceSchedSwitch2
  split <;> exact ⟨rfl, rfl⟩

/-- The place of a task in the table: its latest start, and 0 before it was seen. -/
structure Started (pid : Nat) (s : State) (tr : List Event) : Prop where
  unseen : tr.filterMap (onCpu (pid, 0)) = [] → s.procStartTime.lookup pid = some 0
  begun : ∀ start, (calls (onCpu (pid, 0)) tr).pending = some start →
    s.procStartTime.lookup pid = some start

theorem Started.remembers {pid : Nat} (h : Started pid s tr) :
    Remembers (onCpu (pid, 0)) (some 0) (s.procStartTime.lookup pid) tr :=
  ⟨h.unseen, h.begun⟩

theorem Started.step {pid : Nat} (h : Started pid s pre) (hpid : pid ≠ 0) (hlt : pid < 1024)
    (hdiff : ∀ cpu prev next time, e = .schedSwitch cpu prev next time →
      taskOf prev cpu ≠ taskOf next cpu) :
    Started pid (step forksAddr s e) (pre ++ [e]) := by
  have hremembers : Remembers (onCpu (pid, 0)) (some 0)
      ((Sar.step forksAddr s e).procStartTime.lookup pid) (pre ++ [e]) := by
    cases e with
    | schedSwitch cpu prev next time =>
      have hne : prev ≠ next := by
        rintro rfl
        exact hdiff cpu prev prev time rfl rfl
      have htable : (Sar.step forksAddr s (.schedSwitch cpu prev next time)).procStartTime =
          s.procStartTime.update next time := traceSchedSwitch2_table s hne time
      rw [htable]
      by_cases hnext : next = pid
      · subst hnext
        have hview : onCpu (next, 0) (.schedSwitch cpu prev next time) = some (.enter time) := by
          rw [← taskOf_of_ne hpid cpu]
          exact tenure_turns rfl
        rw [BpfArray.lookup_update_self _ _ hlt]
        exact .enter hview
      · have hother : taskOf next cpu ≠ (pid, 0) := fun htask => hnext (congrArg Prod.fst htask)
        rw [BpfArray.lookup_update_of_ne _ _ (Ne.symm hnext)]
        exact h.remembers.skip (tenure_turns_other rfl hother)
    | finishTaskSwitch cpu prev time =>
      by_cases hprev : taskOf prev.pid cpu = (pid, 0)
      · have hview : onCpu (pid, 0) (.finishTaskSwitch cpu prev time) =
            some (.exit (prev, time)) := by
          rw [← hprev]
          exact onCpu_finish cpu prev time
        exact .exit hview
      · have hsame : (Sar.step forksAddr s (.finishTaskSwitch cpu prev time)).procStartTime =
            s.procStartTime := (finishTaskSwitch_gain s prev time).2.2
        rw [hsame]
        exact h.remembers.skip (tenure_finishes_other rfl hprev)
    | _ =>
      rw [(step_frame rfl).1]
      exact h.remembers.skip rfl
  exact ⟨hremembers.unseen, hremembers.begun⟩

theorem started {pid : Nat} (hpid : pid ≠ 0) (hlt : pid < 1024)
    (h : ValidHandover Event.hand tr) : Started pid ((machine forksAddr c).exec tr) tr := by
  induction tr using List.reverseRecOn with
  | nil =>
    refine ⟨fun _ => BpfArray.lookup_replicate 0 hlt, fun a ha => ?_⟩
    cases ha
  | append_singleton pre e ih =>
    rw [(machine forksAddr c).exec_snoc]
    apply (ih (h.restrict (List.prefix_append pre [e]))).step hpid hlt
    intro cpu prev next time he
    subst he
    exact h.prev_ne_next rfl

/-- What is added is what is due exactly when the task is in place. -/
theorem gain_eq_due {kind : Task → Bool} {cpu : Nat} {prev : Task} {time : UInt64}
    (h : ValidHandover Event.hand (pre ++ [Event.finishTaskSwitch cpu prev time]))
    (hkind : kind prev = true) (hpid : prev.pid ≠ 0) :
    gain kind ((machine forksAddr c).exec pre) prev time = due kind pre cpu prev time ↔
      InPlace (calls (onCpu (taskOf prev.pid cpu)) pre).pending prev.pid time := by
  rw [gain, due, if_pos hkind, if_pos hkind]
  by_cases hlt : prev.pid < 1024
  · have hstart : Started prev.pid ((machine forksAddr c).exec pre) pre :=
      started hpid hlt (h.restrict (List.prefix_append _ _))
    have hview := onCpu_finish cpu prev time
    have halt := h.alternating Event.entered Event.left (taskOf prev.pid cpu)
    rw [taskOf_of_ne hpid] at hview halt ⊢
    rcases hstart.remembers.returns halt hview with ⟨start, hpending, hbegun⟩ | ⟨hidle, hzero⟩
    · rw [hpending, hbegun]
      exact ⟨fun _ => Or.inl hlt, fun _ => rfl⟩
    · rw [hidle, hzero]
      show time - 0 = 0 ↔ 1024 ≤ prev.pid ∨ time = 0
      rw [sub_zero]
      exact ⟨Or.inr, fun hor => hor.resolve_left (Nat.not_le.mpr hlt)⟩
  -- no place in the table: nothing is added
  · have hle : 1024 ≤ prev.pid := Nat.not_lt.mp hlt
    rw [BpfArray.lookup_of_le _ hle]
    cases (calls (onCpu (taskOf prev.pid cpu)) pre).pending with
    | none => exact ⟨fun _ => Or.inl hle, fun _ => rfl⟩
    | some start =>
      show 0 = time - start ↔ prev.pid < 1024 ∨ time = start
      rw [eq_comm, sub_eq_zero]
      exact ⟨Or.inr, fun hor => hor.resolve_left hlt⟩

theorem sum_timeOf_finish {kind : Task → Bool} {cpu : Nat} {prev : Task} {time : UInt64}
    (hK : taskOf prev.pid cpu ∈ K) :
    ∑ p ∈ K, timeOf kind (pre ++ [Event.finishTaskSwitch cpu prev time]) p =
      ∑ p ∈ K, timeOf kind pre p + due kind pre cpu prev time := by
  simp only [timeOf_finish, Finset.sum_add_distrib, Finset.sum_ite_eq, if_pos hK]

/-- The end of a switch keeps the sums right exactly when what it adds is due. -/
theorem timesRight_finish {cpu : Nat} {prev : Task} {time : UInt64}
    (hK : taskOf prev.pid cpu ∈ K) (hright : TimesRight forksAddr c K pre) :
    TimesRight forksAddr c K (pre ++ [Event.finishTaskSwitch cpu prev time]) ↔
      (gain userTask ((machine forksAddr c).exec pre) prev time = due userTask pre cpu prev time ∧
        gain kernelThread ((machine forksAddr c).exec pre) prev time =
          due kernelThread pre cpu prev time) := by
  obtain ⟨huser, hkernel, -⟩ := finishTaskSwitch_gain ((machine forksAddr c).exec pre) prev time
  have hstep : (machine forksAddr c).exec (pre ++ [Event.finishTaskSwitch cpu prev time]) =
      finishTaskSwitch ((machine forksAddr c).exec pre) prev time :=
    (machine forksAddr c).exec_snoc _ _
  constructor
  · intro h
    have hu := h.user
    have hk := h.kernel
    rw [hstep, huser, hright.user, sum_timeOf_finish hK] at hu
    rw [hstep, hkernel, hright.kernel, sum_timeOf_finish hK] at hk
    exact ⟨add_left_cancel hu, add_left_cancel hk⟩
  · rintro ⟨hu, hk⟩
    constructor
    · rw [hstep, huser, hright.user, sum_timeOf_finish hK, hu]
    · rw [hstep, hkernel, hright.kernel, sum_timeOf_finish hK, hk]

theorem timesRight_other (he : ∀ cpu prev time, e ≠ .finishTaskSwitch cpu prev time)
    (hright : TimesRight forksAddr c K pre) : TimesRight forksAddr c K (pre ++ [e]) := by
  have hsame : ((machine forksAddr c).exec (pre ++ [e])).utLastTime =
        ((machine forksAddr c).exec pre).utLastTime ∧
      ((machine forksAddr c).exec (pre ++ [e])).ktLastTime =
        ((machine forksAddr c).exec pre).ktLastTime := by
    rw [(machine forksAddr c).exec_snoc]
    cases e with
    | schedSwitch cpu prev next time => exact traceSchedSwitch2_times _ prev next time
    | finishTaskSwitch cpu prev time => exact absurd rfl (he cpu prev time)
    | _ => exact (step_frame rfl).2
  constructor
  · rw [hsame.1, hright.user]
    exact Finset.sum_congr rfl fun p _ => (timeOf_other p he).symm
  · rw [hsame.2, hright.kernel]
    exact Finset.sum_congr rfl fun p _ => (timeOf_other p he).symm

/-- Along a run, one event keeps the sums right exactly when its task is in place. -/
theorem timesRight_step (h : ValidRun (pre ++ [e])) (hK : Covers K e)
    (hright : TimesRight forksAddr c K pre) :
    TimesRight forksAddr c K (pre ++ [e]) ↔ Measured pre e := by
  cases e with
  | finishTaskSwitch cpu prev time =>
    have hidle : prev.pid = 0 → prev.idle = true :=
      h.idle _ (List.mem_append_right pre (List.mem_singleton_self _))
    rw [timesRight_finish hK hright]
    show _ ↔ (_ → InPlace _ prev.pid time)
    -- a task is of one kind at most, and the other accumulator does not change
    by_cases hu : userTask prev = true
    · have hkernel : kernelThread prev = false := by
        simp only [userTask, Bool.and_eq_true, Bool.not_eq_true'] at hu
        rw [kernelThread, hu.1, Bool.false_and]
      have hpid : prev.pid ≠ 0 := by
        intro hzero
        simp [userTask, hidle hzero] at hu
      rw [gain_eq_due h.schedule hu hpid]
      simp [gain, due, hkernel, hu]
    · by_cases hk : kernelThread prev = true
      · have hpid : prev.pid ≠ 0 := by
          simp only [kernelThread, Bool.and_eq_true, decide_eq_true_eq] at hk
          exact hk.2
        rw [gain_eq_due h.schedule hk hpid]
        simp [gain, due, hk, hu]
      · simp [gain, due, hk, hu]
  | _ => exact ⟨fun _ => trivial, fun _ => timesRight_other (fun _ _ _ hf => by cases hf) hright⟩

theorem ValidRun.restrict (h : ValidRun tr) (hp : pre <+: tr) : ValidRun pre :=
  ⟨h.schedule.restrict hp, fun e he => h.idle e (hp.subset he)⟩

/-- For every number of CPUs, every migration and every task: the accumulated times are right in all
states of a run exactly when every task that is counted is in place, that is, its pid is below 1024
if its interval was observed, and not if it was not. -/
theorem task_times (forksAddr : UInt64) (c : SarCtrl) (tr : List Event) (h : ValidRun tr)
    (K : Finset (Nat × Nat)) (hK : ∀ e ∈ tr, Covers K e) :
    Throughout (fun pre e => TimesRight forksAddr c K (pre ++ [e])) tr ↔
      Throughout Measured tr := by
  apply throughout_states
  · exact ⟨(Finset.sum_eq_zero fun _ _ => rfl).symm, (Finset.sum_eq_zero fun _ _ => rfl).symm⟩
  · intro pre e hp hright
    have hmem : e ∈ tr := hp.subset (List.mem_append_right pre (List.mem_singleton_self e))
    exact timesRight_step (h.restrict hp) (hK e hmem) hright

/-- The flags of the idle task of a CPU. -/
def swapper : Task := ⟨0, 0x00200002⟩

/-- On CPU 0 the idle task gives way to the user task 7, and this to the kernel thread 12. -/
def observedTasks : List Event :=
  [.schedSwitch 0 0 7 10, .finishTaskSwitch 0 swapper 11,
    .schedSwitch 0 7 12 30, .finishTaskSwitch 0 ⟨7, 0⟩ 31,
    .schedSwitch 0 12 0 50, .finishTaskSwitch 0 ⟨12, pfKthread⟩ 51]

/-- One CPU that runs its idle task. -/
def idleSeats : Seats Nat (Nat × Nat) := ⟨fun cpu => (0, cpu), fun _ => none⟩

theorem idleSeats_apart : idleSeats.Apart [0] where
  unique p k hk k' hk' _ _ := by
    rw [List.mem_singleton.mp hk, List.mem_singleton.mp hk']
  once k _ := by simp [idleSeats]

theorem task_times_observed :
    Throughout (fun pre e => TimesRight 0 ⟨true, false, 0⟩ {(0, 0), (7, 0), (12, 0)} (pre ++ [e]))
      observedTasks :=
  (task_times 0 ⟨true, false, 0⟩ observedTasks ⟨⟨[0], idleSeats, idleSeats_apart, by decide⟩,
    by decide⟩ {(0, 0), (7, 0), (12, 0)} (by decide)).mpr (by decide)

/-- The user task 5000 runs on CPU 0. -/
def greatPid : List Event :=
  [.schedSwitch 0 0 5000 10, .finishTaskSwitch 0 swapper 11,
    .schedSwitch 0 5000 0 30, .finishTaskSwitch 0 ⟨5000, 0⟩ 31]

/-- The user task 7 was on CPU 0 before the first event. -/
def onCpuBefore : List Event :=
  [.schedSwitch 0 7 0 1000, .finishTaskSwitch 0 ⟨7, 0⟩ 1001]

/-- One CPU that runs the task 7. -/
def taskSeats : Seats Nat (Nat × Nat) := ⟨fun _ => (7, 0), fun _ => none⟩

theorem taskSeats_apart : taskSeats.Apart [0] where
  unique p k hk k' hk' _ _ := by
    rw [List.mem_singleton.mp hk, List.mem_singleton.mp hk']
  once k _ := by simp [taskSeats]

/-- The interval of a great pid is not counted, and one that began before is, from the time 0 on. -/
theorem great_pid_not_counted :
    (ValidRun greatPid ∧ (∀ e ∈ greatPid, Covers {(0, 0), (5000, 0)} e) ∧
      ¬TimesRight 0 ⟨true, false, 0⟩ {(0, 0), (5000, 0)} greatPid) ∧
    (ValidRun onCpuBefore ∧ (∀ e ∈ onCpuBefore, Covers {(7, 0)} e) ∧
      ¬TimesRight 0 ⟨true, false, 0⟩ {(7, 0)} onCpuBefore) := by
  refine ⟨⟨⟨⟨[0], idleSeats, idleSeats_apart, by decide⟩, by decide⟩, by decide, ?_⟩,
    ⟨⟨[0], taskSeats, taskSeats_apart, by decide⟩, by decide⟩, by decide, ?_⟩
  · intro hright
    exact absurd hright.user (by decide)
  · intro hright
    exact absurd hright.user (by decide)

end Run

end CpuSubsystem.Sar
