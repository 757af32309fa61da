import CpuSubsystem.Lib.Clock
import CpuSubsystem.Lib.Schedule
import CpuSubsystem.ProcImage.ResourceImage.Model

/-!
# Exact accounting

While the control selects a task, its element of `total` is the sum over the completed stays of the
task on a CPU, wherever they were.
-/

namespace CpuSubsystem.ResourceImage

open ScheduleImage (ProcId procId)

def Event.switch : Event → Option (Switch Int ProcId)
  | .finishTaskSwitch prev next cpu .. => some ⟨cpu, procId prev.pid cpu, procId next.pid cpu⟩
  | .rscCtrl _ | .deleteTotal _ => none

/-- The clock and the counters of `prev` when it leaves the CPU. -/
def Event.left : Event → StartRsc
  | .finishTaskSwitch prev _ _ _ off _ _ => ⟨off, prev.rchar, prev.wchar⟩
  | .rscCtrl _ | .deleteTotal _ => ⟨0, 0, 0⟩

/-- The clock and the counters of `next` when it gets the CPU. -/
def Event.entered : Event → StartRsc
  | .finishTaskSwitch _ next _ _ _ on _ => ⟨on, next.rchar, next.wchar⟩
  | .rscCtrl _ | .deleteTotal _ => ⟨0, 0, 0⟩

/-- The task `p` gets a CPU or leaves it. -/
def stay (p : ProcId) : Event → Option (Probe StartRsc StartRsc) :=
  stays Event.switch Event.left Event.entered p

/-- What is in `total` for a task; nothing when there is no element. -/
def usage (s : State) (p : ProcId) : StartRsc :=
  match s.total.lookup p with
  | some t => ⟨t.time, t.readchar, t.writechar⟩
  | none => ⟨0, 0, 0⟩

/-- Time spent, characters read and written, summed over stays. -/
def used (l : List (StartRsc × StartRsc)) : StartRsc where
  time := (l.map fun i => i.2.time - i.1.time).sum
  readchar := (l.map fun i => i.2.readchar - i.1.readchar).sum
  writechar := (l.map fun i => i.2.writechar - i.1.writechar).sum

section

variable (ignoreTgid : Int) (c : RscCtrl) (p : ProcId)

/-- A switch in which `p` is selected if it takes part, and every update succeeds.  No control is
written and nothing is cleared. -/
def Event.Steady : Event → Prop
  | .finishTaskSwitch prev next cpu _ _ _ rooms =>
    rooms = ⟨true, true⟩ ∧
      (procId prev.pid cpu = p → selects ignoreTgid c prev.pid prev.tgid cpu = true) ∧
      (procId next.pid cpu = p → selects ignoreTgid c next.pid next.tgid cpu = true)
  | .rscCtrl _ | .deleteTotal _ => False

instance (e : Event) : Decidable (e.Steady ignoreTgid c p) :=
  match e with
  | .finishTaskSwitch .. => inferInstanceAs (Decidable (_ ∧ _))
  | .rscCtrl _ | .deleteTotal _ => isFalse id

structure SteadyRun (tr : List Event) : Prop where
  active : c.rscFunc = true
  steady : ∀ e ∈ tr, e.Steady ignoreTgid c p
  schedule : ValidSchedule Event.switch tr

/-- The maps and the stays of `p` agree. -/
structure Accounts (s : State) (tr : List Event) : Prop where
  ctrl : s.rscCtrlMap = c
  unseen : tr.filterMap (stay p) = [] → s.start.lookup p = none
  begun : ∀ a, (calls (stay p) tr).pending = some a → s.start.lookup p = some a
  total : usage s p = used (calls (stay p) tr).completed

end

variable {ignoreTgid : Int} {c : RscCtrl} {p : ProcId} {s : State} {pre tr : List Event}

theorem used_snoc (l : List (StartRsc × StartRsc)) (i : StartRsc × StartRsc) :
    used (l ++ [i]) = ⟨(used l).time + (i.2.time - i.1.time),
      (used l).readchar + (i.2.readchar - i.1.readchar),
      (used l).writechar + (i.2.writechar - i.1.writechar)⟩ := by
  simp only [used, List.map_append, List.map_cons, List.map_nil, List.sum_append, List.sum_cons,
    List.sum_nil, add_zero]

/-- A selected task leaves the CPU after a stay that began with the snapshot `a`. -/
theorem usage_leave {prev : Task} {cpu : Int} {rss : RssStat} {now : UInt64} {a : StartRsc}
    (hsel : selects ignoreTgid s.rscCtrlMap prev.pid prev.tgid cpu = true)
    (ha : s.start.lookup (procId prev.pid cpu) = some a) :
    usage (leave ignoreTgid s prev cpu rss now true) (procId prev.pid cpu) =
      ⟨(usage s (procId prev.pid cpu)).time + (now - a.time),
        (usage s (procId prev.pid cpu)).readchar + (prev.rchar - a.readchar),
        (usage s (procId prev.pid cpu)).writechar + (prev.wchar - a.writechar)⟩ := by
  cases ht : s.total.lookup (procId prev.pid cpu) with
  | none =>
    rw [leave_create hsel ha ht]
    simp only [usage, ht, BpfMap.update_true, BpfMap.lookup_store_self, TotalRsc.create, zero_add]
  | some t =>
    rw [leave_add hsel ha ht]
    simp only [usage, ht, BpfMap.lookup_store_self, TotalRsc.add]

section Step

variable {prev next : Task} {cpu : Int} {rss : RssStat} {off on : UInt64}

/-- The snapshot of `p` follows its stays. -/
theorem Accounts.remembers (ha : Accounts c p s pre) :
    Remembers (stay p) none (s.start.lookup p) pre :=
  ⟨ha.unseen, ha.begun⟩

/-- The task leaves the CPU. -/
theorem Accounts.leaves (ha : Accounts c (procId prev.pid cpu) s pre)
    (hsel : selects ignoreTgid s.rscCtrlMap prev.pid prev.tgid cpu = true)
    (halt : Alternating (stay (procId prev.pid cpu))
      (pre ++ [Event.finishTaskSwitch prev next cpu rss off on ⟨true, true⟩])) :
    Accounts c (procId prev.pid cpu)
      (enter ignoreTgid (leave ignoreTgid s prev cpu rss off true) next cpu on true)
      (pre ++ [Event.finishTaskSwitch prev next cpu rss off on ⟨true, true⟩]) := by
  have hctrl := (leave_frame ignoreTgid s prev cpu rss off true).1
  have husage := fun a => @usage_leave ignoreTgid s prev cpu rss off a hsel
  have hunseen := @leave_unseen ignoreTgid s prev cpu rss off true
  generalize leave ignoreTgid s prev cpu rss off true = s' at hctrl husage hunseen ⊢
  obtain ⟨hctrl', htotal', -⟩ := enter_frame ignoreTgid s' next cpu on true
  have hview : stay (procId prev.pid cpu)
      (.finishTaskSwitch prev next cpu rss off on ⟨true, true⟩) =
        some (.exit ⟨off, prev.rchar, prev.wchar⟩) := stays_prev rfl rfl
  have hremembers : Remembers (stay (procId prev.pid cpu)) none
      ((enter ignoreTgid s' next cpu on true).start.lookup (procId prev.pid cpu))
      (pre ++ [Event.finishTaskSwitch prev next cpu rss off on ⟨true, true⟩]) := .exit hview
  have hsame : usage (enter ignoreTgid s' next cpu on true) (procId prev.pid cpu) =
      usage s' (procId prev.pid cpu) := by
    rw [usage, usage, htotal']
  refine ⟨by rw [hctrl', hctrl, ha.ctrl], hremembers.unseen, hremembers.begun, ?_⟩
  rw [hsame, calls_snoc hview, Calls.step]
  rcases ha.remembers.returns halt hview with ⟨a, hpending, hbegun⟩ | ⟨hidle, hnone⟩
  · rw [hpending, husage a hbegun]
    show _ = used (_ ++ [_])
    rw [used_snoc, ← ha.total]
  · -- the stay began before the run did, so there is no snapshot
    rw [hidle, hunseen hnone]
    exact ha.total

/-- The task gets the CPU. -/
theorem Accounts.enters (ha : Accounts c (procId next.pid cpu) s pre)
    (hne : procId prev.pid cpu ≠ procId next.pid cpu)
    (hsel : selects ignoreTgid s.rscCtrlMap next.pid next.tgid cpu = true) :
    Accounts c (procId next.pid cpu)
      (enter ignoreTgid (leave ignoreTgid s prev cpu rss off true) next cpu on true)
      (pre ++ [Event.finishTaskSwitch prev next cpu rss off on ⟨true, true⟩]) := by
  obtain ⟨hctrl, -, htotal⟩ := leave_frame ignoreTgid s prev cpu rss off true
  generalize leave ignoreTgid s prev cpu rss off true = s' at hctrl htotal ⊢
  obtain ⟨hctrl', htotal', -⟩ := enter_frame ignoreTgid s' next cpu on true
  have hview : stay (procId next.pid cpu)
      (.finishTaskSwitch prev next cpu rss off on ⟨true, true⟩) =
        some (.enter ⟨on, next.rchar, next.wchar⟩) := stays_next rfl hne rfl
  have hstart : (enter ignoreTgid s' next cpu on true).start.lookup (procId next.pid cpu) =
      some ⟨on, next.rchar, next.wchar⟩ := enter_selected (by rw [hctrl]; exact hsel)
  have hremembers : Remembers (stay (procId next.pid cpu)) none
      ((enter ignoreTgid s' next cpu on true).start.lookup (procId next.pid cpu))
      (pre ++ [Event.finishTaskSwitch prev next cpu rss off on ⟨true, true⟩]) := by
    rw [hstart]
    exact .enter hview
  refine ⟨by rw [hctrl', hctrl, ha.ctrl], hremembers.unseen, hremembers.begun, ?_⟩
  rw [usage, htotal', htotal _ hne.symm, calls_snoc hview]
  exact ha.total

/-- Two other tasks are switched. -/
theorem Accounts.aside (ha : Accounts c p s pre) (hprev : procId prev.pid cpu ≠ p)
    (hnext : procId next.pid cpu ≠ p) :
    Accounts c p (enter ignoreTgid (leave ignoreTgid s prev cpu rss off true) next cpu on true)
      (pre ++ [Event.finishTaskSwitch prev next cpu rss off on ⟨true, true⟩]) := by
  obtain ⟨hctrl, hstart, htotal⟩ := leave_frame ignoreTgid s prev cpu rss off true
  generalize leave ignoreTgid s prev cpu rss off true = s' at hctrl hstart htotal ⊢
  obtain ⟨hctrl', htotal', hstart'⟩ := enter_frame ignoreTgid s' next cpu on true
  have hview : stay p (.finishTaskSwitch prev next cpu rss off on ⟨true, true⟩) = none :=
    stays_other rfl hprev hnext
  have hremembers := ha.remembers.skip hview
  have hsame : (enter ignoreTgid s' next cpu on true).start.lookup p = s.start.lookup p := by
    rw [hstart' p hnext.symm, hstart]
  rw [← hsame] at hremembers
  refine ⟨by rw [hctrl', hctrl, ha.ctrl], hremembers.unseen, hremembers.begun, ?_⟩
  rw [usage, htotal', htotal p hprev.symm, calls_snoc_skip hview]
  exact ha.total

end Step

theorem Accounts.step (ha : Accounts c p s pre) {e : Event} (hact : c.rscFunc = true)
    (he : e.Steady ignoreTgid c p) (halt : Alternating (stay p) (pre ++ [e])) :
    Accounts c p (step ignoreTgid s e) (pre ++ [e]) := by
  cases e with
  | rscCtrl c' => exact he.elim
  | deleteTotal k => exact he.elim
  | finishTaskSwitch prev next cpu rss off on rooms =>
    obtain ⟨rfl, hprev, hnext⟩ := he
    rw [← ha.ctrl] at hact hprev hnext
    have hstep : ResourceImage.step ignoreTgid s
        (.finishTaskSwitch prev next cpu rss off on ⟨true, true⟩) =
          enter ignoreTgid (leave ignoreTgid s prev cpu rss off true) next cpu on true :=
      finishTaskSwitch_of_active hact
    rw [hstep]
    by_cases hp : procId prev.pid cpu = p
    · subst hp
      exact ha.leaves (hprev rfl) halt
    · by_cases hp' : procId next.pid cpu = p
      · subst hp'
        exact ha.enters hp (hnext rfl)
      · exact ha.aside hp hp'

theorem SteadyRun.accounts (h : SteadyRun ignoreTgid c p tr) :
    Accounts c p ((machine ignoreTgid c).exec tr) tr := by
  have halt : Alternating (stay p) tr := h.schedule.alternating Event.left Event.entered p
  have hsteady := h.steady
  have hactive := h.active
  clear h
  induction tr using List.reverseRecOn with
  | nil =>
    refine ⟨rfl, fun _ => BpfMap.lookup_empty p, fun a ha => (by cases ha), ?_⟩
    show usage (initial c) p = _
    simp only [usage, initial, BpfMap.lookup_empty]
    rfl
  | append_singleton pre e ih =>
    rw [Machine.exec_snoc]
    have hpre := ih halt.of_snoc fun x hx => hsteady x (List.mem_append_left [e] hx)
    apply hpre.step hactive
    · exact hsteady e (List.mem_append_right pre (List.mem_singleton_self e))
    · exact halt

/-- For every number of CPUs and every migration.  The counters wrap; the time is exact when the
clock does not go backwards. -/
theorem accounting_exact (ignoreTgid : Int) (c : RscCtrl) (p : ProcId) (tr : List Event)
    (h : SteadyRun ignoreTgid c p tr) :
    usage ((machine ignoreTgid c).exec tr) p = used (calls (stay p) tr).completed ∧
      (Monotonic StartRsc.time StartRsc.time (stay p) tr →
        (usage ((machine ignoreTgid c).exec tr) p).time.toNat =
          spent (spans StartRsc.time StartRsc.time (calls (stay p) tr).completed)) := by
  have htotal := h.accounts.total
  refine ⟨htotal, fun hclock => ?_⟩
  have hdelays : (used (calls (stay p) tr).completed).time =
      ((spans StartRsc.time StartRsc.time (calls (stay p) tr).completed).map Span.delay).sum := by
    simp only [used, spans, List.map_map]
    rfl
  rw [htotal, hdelays]
  exact (calls_sequential hclock).sum_toNat

section Runs

def all : RscCtrl where
  rscFunc := true
  targetPid := -1
  targetCpuId := 0
  enableMyproc := true
  targetTgid := -1

def swapper : Task := ⟨0, 0, 0, 0⟩

/-- One page. -/
def onePage : RssStat := ⟨1, 0, 0, 0⟩

/-- Task 5 runs on CPU 0, then on CPU 1. -/
def migration : List Event :=
  [.finishTaskSwitch swapper ⟨5, 5, 100, 7⟩ 0 onePage 9 10 ⟨true, true⟩,
    .finishTaskSwitch ⟨5, 5, 140, 9⟩ swapper 0 onePage 30 31 ⟨true, true⟩,
    .finishTaskSwitch swapper ⟨5, 5, 140, 9⟩ 1 onePage 39 40 ⟨true, true⟩,
    .finishTaskSwitch ⟨5, 5, 150, 9⟩ swapper 1 onePage 45 46 ⟨true, true⟩]

theorem accounting_exact_migration :
    (usage ((machine 1 all).exec migration) ⟨5, 0⟩).time.toNat =
      spent (spans StartRsc.time StartRsc.time (calls (stay ⟨5, 0⟩) migration).completed) :=
  (accounting_exact 1 all ⟨5, 0⟩ migration
    ⟨rfl, by decide, [0, 1], fun cpu => ⟨0, cpu⟩, by unfold Apart; decide, by decide⟩).2
    (by decide)

end Runs

end CpuSubsystem.ResourceImage
