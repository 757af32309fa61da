import CpuSubsystem.Lib.Schedule
import CpuSubsystem.ProcImage.KeytimeImage.Probes

/-!
# Records of the time on a CPU

`sched_switch` makes a record about `prev` and one about `next`.  No other probe makes a record of
type 10, because the types in `child` are those of the three creations.
-/

namespace CpuSubsystem.KeytimeImage

/-- An event and the CPU on which it happens. -/
structure CpuEvent where
  cpu : Int
  event : Event

/-- The idle tasks all have pid 0 and are told apart by their CPU. -/
def taskOn (pid cpu : Int) : Int × Int := (pid, if pid = 0 then cpu else 0)

namespace CpuEvent

def switch : CpuEvent → Option (Switch Int (Int × Int))
  | ⟨cpu, .schedSwitch prev next ..⟩ => some ⟨cpu, taskOn prev.pid cpu, taskOn next.pid cpu⟩
  | _ => none

/-- The clock when `prev` leaves the CPU. -/
def left : CpuEvent → UInt64
  | ⟨_, .schedSwitch _ _ off _ _ _ _⟩ => off
  | _ => 0

/-- The clock when `next` gets the CPU. -/
def entered : CpuEvent → UInt64
  | ⟨_, .schedSwitch _ _ _ on _ _ _⟩ => on
  | _ => 0

/-- The switches of the task `p`. -/
def stay (p : Int) : CpuEvent → Option (Probe UInt64 UInt64) := stays switch left entered (p, 0)

/-- Both reservations of the switch probe succeed. -/
def Served : CpuEvent → Prop
  | ⟨_, .schedSwitch _ _ _ _ _ reservedOff slotOn⟩ => reservedOff = true ∧ slotOn.isSome = true
  | _ => True

instance : DecidablePred Served
  | ⟨_, .schedSwitch ..⟩ => inferInstanceAs (Decidable (_ ∧ _))
  | ⟨_, .ktCtrl _⟩ | ⟨_, .sysEnterExecve ..⟩ | ⟨_, .sysExitExecve ..⟩ | ⟨_, .forkExit ..⟩
  | ⟨_, .vforkExit ..⟩ | ⟨_, .pthreadCreateEnter ..⟩ | ⟨_, .pthreadCreateExit ..⟩
  | ⟨_, .sysExitClone3 ..⟩ | ⟨_, .sysEnterExitGroup ..⟩ | ⟨_, .sysEnterExit ..⟩ => isTrue trivial

/-- The tasks of a switch. -/
def switched : CpuEvent → List Task
  | ⟨_, .schedSwitch prev next ..⟩ => [prev, next]
  | _ => []

end CpuEvent

/-- What a record says about the task `p` and a CPU: an onCPU record has the time at which the
interval begins, an offCPU record that at which it ends. -/
def Record.cpu (p : Int) : Record → Option (Probe UInt64 UInt64)
  | .keytime e => if e.type = 10 ∧ e.pid = p then some (.enter e.info₀) else none
  | .offcpu e => if e.type = 11 ∧ e.pid = p then some (.exit e.offcpuTime) else none

/-- The program on several CPUs. -/
def onCpus (ro : Rodata) (c : KtCtrl) : Machine State CpuEvent Record :=
  (machine ro c).watching fun o => some o.event

/-- A schedule of the CPUs while the records of switches are on. -/
structure SwitchRun (c : KtCtrl) (tr : List CpuEvent) : Prop where
  ktCpuFunc : c.ktCpuFunc = true
  control : ∀ o ∈ tr, o.event.control = none
  served : ∀ o ∈ tr, o.Served
  schedule : ValidSchedule CpuEvent.switch tr

/-- The types in `child`. -/
def Typed (s : State) : Prop :=
  ∀ q info, s.child.lookup q = some info → info.type = 4 ∨ info.type = 6 ∨ info.type = 8

section Types

variable {ro : Rodata} {c : KtCtrl} {s : State} {e : Event} {p : Int}

theorem Typed.step (h : Typed s) : Typed (step ro s e).1 := by
  intro q info hq
  cases hc : creation ro s e with
  | some k =>
    obtain ⟨hs, htype⟩ := step_creation hc
    rw [hs] at hq
    cases hacc : s.child.accepts k.room k.childPid with
    | false =>
      rw [childCreate_refused hacc] at hq
      exact h q info hq
    | true =>
      rw [childCreate_accepted hacc] at hq
      exact BpfMap.forall_store h k.childPid htype q info hq
  | none =>
    cases hx : exiting ro s e with
    | some x =>
      rw [(step_exiting hx).1] at hq
      exact h q info (childExit_lookup hq).1
    | none =>
      rw [(step_neither hc hx).1] at hq
      exact h q info hq

theorem typed (ro : Rodata) (c : KtCtrl) (tr : List CpuEvent) : Typed ((onCpus ro c).exec tr) := by
  induction tr using List.reverseRecOn with
  | nil =>
    intro q info hq
    cases hq
  | append_singleton pre o ih =>
    rw [Machine.exec_snoc]
    exact ih.step

theorem cpu_fill {type : Int} (h : type ≠ 10) (mem : KeytimeEvent) (pid tgid : Int)
    (info : UInt64) : (Record.keytime (mem.fill type pid tgid info)).cpu p = none :=
  if_neg fun hc => h hc.1

/-- The records of an exit probe. -/
theorem exitProbe_mem {cur : Task} {slot slot' : Option KeytimeEvent} {code : UInt64} {r : Record}
    (h : r ∈ (exitProbe ro s cur slot slot' code).2) :
    (∃ mem tgid, r = .keytime (KeytimeEvent.fill mem 3 cur.pid tgid code)) ∨
      r ∈ (childExit s cur slot').2 := by
  simp only [exitProbe] at h
  split at h
  · split at h
    · cases slot with
      | none => cases h
      | some mem =>
        rcases List.mem_cons.mp h with rfl | h
        · exact Or.inl ⟨mem, _, rfl⟩
        · exact Or.inr h
    · exact Or.inr h
  · cases h

theorem exitProbe_cpu (h : Typed s) {cur : Task} {slot slot' : Option KeytimeEvent}
    {code : UInt64} : ∀ r ∈ (exitProbe ro s cur slot slot' code).2, r.cpu p = none := by
  intro r hr
  rcases exitProbe_mem hr with ⟨mem, tgid, rfl⟩ | hr
  · exact cpu_fill (by decide) mem _ _ _
  · obtain ⟨info, mem, hl, -, rfl⟩ := childExit_mem hr
    apply cpu_fill
    rcases h _ _ hl with ht | ht | ht <;> rw [ht] <;> decide

/-- At most one record, which is not of a switch. -/
theorem slot_cpu {slot : Option KeytimeEvent} {f : KeytimeEvent → KeytimeEvent}
    (hf : ∀ mem, (Record.keytime (f mem)).cpu p = none) :
    ∀ r ∈ (slot.map fun mem => Record.keytime (f mem)).toList, r.cpu p = none := by
  intro r hr
  cases slot with
  | none => cases hr
  | some mem =>
    rw [List.mem_singleton.mp hr]
    exact hf mem

theorem creates_cpu (h : e.creates = true) : ∀ r ∈ (step ro s e).2, r.cpu p = none := by
  rw [step_creates h]
  cases hc : creation ro s e with
  | none => exact List.forall_mem_nil _
  | some k =>
    have htype := creation_type hc
    rw [create]
    cases hacc : s.child.accepts k.room k.childPid with
    | false =>
      rw [childCreate_refused hacc]
      exact List.forall_mem_nil _
    | true =>
      rw [childCreate_accepted hacc]
      apply slot_cpu
      intro mem
      apply cpu_fill
      rcases htype with ht | ht | ht <;> rw [ht] <;> decide

/-- Only the switch probe makes records of switches. -/
theorem step_cpu (h : Typed s) (he : ∀ cpu, CpuEvent.switch ⟨cpu, e⟩ = none) :
    ∀ r ∈ (step ro s e).2, r.cpu p = none := by
  cases e with
  | ktCtrl c' => exact List.forall_mem_nil _
  | sysEnterExecve cur filename args user slot =>
    rw [show step ro s _ = sysEnterExecve ro s cur slot filename args user from rfl,
      sysEnterExecve]
    split
    · refine slot_cpu fun mem => if_neg fun hc => ?_
      rw [exec_type] at hc
      exact absurd hc.1 (by decide)
    · exact List.forall_mem_nil _
  | sysExitExecve cur ret slot =>
    rw [show step ro s _ = sysExitExecve ro s cur slot ret from rfl, sysExitExecve]
    split
    · exact slot_cpu fun mem => cpu_fill (by decide) mem _ _ _
    · exact List.forall_mem_nil _
  | forkExit _ _ _ _ | vforkExit _ _ _ _ | sysExitClone3 _ _ _ _ => exact creates_cpu rfl
  | pthreadCreateEnter cur room => exact List.forall_mem_nil _
  | pthreadCreateExit cur => exact List.forall_mem_nil _
  | sysEnterExitGroup cur code slot slot' | sysEnterExit cur code slot slot' =>
    exact exitProbe_cpu h
  | schedSwitch prev next off on kstack reservedOff slotOn => cases he 0

end Types

section Switches

variable {ro : Rodata} {c : KtCtrl} {p : Int} {pre tr : List CpuEvent} {o : CpuEvent}

theorem SwitchRun.of_snoc (h : SwitchRun c (pre ++ [o])) : SwitchRun c pre where
  ktCpuFunc := h.ktCpuFunc
  control x hx := h.control x (List.mem_append_left _ hx)
  served x hx := h.served x (List.mem_append_left _ hx)
  schedule := h.schedule.restrict (List.prefix_append pre [o])

theorem onCpus_ctrl (h : SwitchRun c tr) : ((onCpus ro c).exec tr).ktCtrlMap = c := by
  induction tr using List.reverseRecOn with
  | nil => rfl
  | append_singleton pre o ih =>
    rw [Machine.exec_snoc]
    have hlast := h.control o (List.mem_append_right pre (List.mem_singleton_self o))
    exact (step_ctrl hlast).trans (ih h.of_snoc)

theorem taskOn_eq {pid cpu : Int} (hp : p ≠ 0) : taskOn pid cpu = (p, 0) ↔ pid = p := by
  unfold taskOn
  constructor
  · intro h
    exact congrArg Prod.fst h
  · rintro rfl
    rw [if_neg hp]

/-- The records that the switch probe makes about `p` say what the switch does to it. -/
theorem schedSwitch_cpu {s : State} {cpu : Int} {prev next : Task} {off on : UInt64}
    {kstack : Kstack} {mem : KeytimeEvent} (hs : s.ktCtrlMap.ktCpuFunc = true) (hp : p ≠ 0)
    (hprev : prev.pid = p → selected ro s.ktCtrlMap prev = true)
    (hnext : next.pid = p → selected ro s.ktCtrlMap next = true)
    (hne : taskOn prev.pid cpu ≠ taskOn next.pid cpu) :
    (schedSwitch ro s (some mem) prev next off on kstack true).2.filterMap (Record.cpu p) =
      (CpuEvent.stay p ⟨cpu, .schedSwitch prev next off on kstack true (some mem)⟩).toList := by
  have hsw : CpuEvent.switch ⟨cpu, .schedSwitch prev next off on kstack true (some mem)⟩ =
      some ⟨cpu, taskOn prev.pid cpu, taskOn next.pid cpu⟩ := rfl
  have hon : (if next.pid != 0 && selected ro s.ktCtrlMap next then
      ((some mem).map fun mem => Record.keytime
        (mem.fill 10 next.pid (shownTgid s.ktCtrlMap next.tgid) on)).toList else []).filterMap
      (Record.cpu p) = if next.pid = p then [Probe.enter on] else [] := by
    by_cases hq : next.pid = p
    · have hpos : (next.pid != 0) = true := by simpa [hq] using hp
      rw [hnext hq, hpos, if_pos hq, if_pos (by decide)]
      have hrec : Record.cpu p (.keytime (mem.fill 10 next.pid (shownTgid s.ktCtrlMap next.tgid)
          on)) = some (Probe.enter on) := by
        rw [Record.cpu, fill_info]
        exact if_pos ⟨rfl, hq⟩
      exact List.filterMap_cons_some hrec
    · rw [if_neg hq]
      split
      · exact List.filterMap_cons_none (if_neg fun hc => hq hc.2)
      · rfl
  have hoff : (schedSwitch ro s (some mem) prev next off on kstack true).2.filterMap
      (Record.cpu p) = (if prev.pid = p then [Probe.exit off] else []) ++
        (if next.pid = p then [Probe.enter on] else []) := by
    rw [← hon, schedSwitch, if_pos hs]
    by_cases hq : prev.pid = p
    · have hpos : (prev.pid != 0) = true := by simpa [hq] using hp
      rw [hprev hq, hpos, if_pos hq, if_pos (by decide)]
      exact List.filterMap_cons_some (if_pos ⟨rfl, hq⟩)
    · rw [if_neg hq]
      split
      · exact List.filterMap_cons_none (if_neg fun hc => hq hc.2)
      · rfl
  rw [hoff, CpuEvent.stay]
  -- a switch takes `p` off the CPU, or puts it on, and never does both
  by_cases hq : prev.pid = p
  · have hq' : next.pid ≠ p := by
      intro heq
      apply hne
      rw [(taskOn_eq hp).mpr hq, (taskOn_eq hp).mpr heq]
    rw [stays_prev hsw ((taskOn_eq hp).mpr hq), if_pos hq, if_neg hq']
    rfl
  · have hk : taskOn prev.pid cpu ≠ (p, 0) := mt (taskOn_eq hp).mp hq
    by_cases hq' : next.pid = p
    · rw [stays_next hsw hk ((taskOn_eq hp).mpr hq'), if_neg hq, if_pos hq']
      rfl
    · rw [stays_other hsw hk (mt (taskOn_eq hp).mp hq'), if_neg hq, if_neg hq']
      rfl

/-- The records about a selected task are its switches, in order. -/
theorem records_eq_stays (ro : Rodata) (h : SwitchRun c tr) (hp : p ≠ 0)
    (hsel : ∀ o ∈ tr, ∀ t ∈ o.switched, t.pid = p → selected ro c t = true) :
    ((onCpus ro c).emitted tr).filterMap (Record.cpu p) = tr.filterMap (CpuEvent.stay p) := by
  induction tr using List.reverseRecOn with
  | nil => rfl
  | append_singleton pre o ih =>
    have hmem : o ∈ pre ++ [o] := List.mem_append_right pre (List.mem_singleton_self o)
    have hpre := ih h.of_snoc fun x hx => hsel x (List.mem_append_left _ hx)
    have hctrl : ((onCpus ro c).exec pre).ktCtrlMap = c := onCpus_ctrl h.of_snoc
    have htyped := typed ro c pre
    rw [Machine.emitted_snoc, List.filterMap_append, List.filterMap_append, hpre]
    congr 1
    show ((step ro ((onCpus ro c).exec pre) o.event).2).filterMap (Record.cpu p) = _
    generalize (onCpus ro c).exec pre = s at hctrl htyped
    rw [show [o].filterMap (CpuEvent.stay p) = (CpuEvent.stay p o).toList by
      rw [List.filterMap_cons]
      cases CpuEvent.stay p o <;> rfl]
    -- what is not a switch makes no record of the two kinds
    cases hw : o.switch with
    | none =>
      have hnone : ∀ cpu, CpuEvent.switch ⟨cpu, o.event⟩ = none := by
        intro cpu
        obtain ⟨cpu', e⟩ := o
        cases e <;> first | rfl | cases hw
      rw [CpuEvent.stay, stays_none hw]
      exact List.filterMap_eq_nil_iff.mpr (step_cpu htyped hnone)
    | some w =>
      obtain ⟨cpus, at₀, -, hchain⟩ := h.schedule
      have hne := hchain.last.prev_ne_next hw
      have hserved := h.served o hmem
      have hsel := hsel o hmem
      obtain ⟨cpu, e⟩ := o
      cases e with
      | schedSwitch prev next off on kstack reservedOff slotOn =>
        obtain ⟨hoff, hon⟩ := hserved
        obtain ⟨mem, rfl⟩ := Option.isSome_iff_exists.mp hon
        cases hw
        rw [hoff]
        rw [← hctrl] at hsel
        apply schedSwitch_cpu _ hp _ _ hne
        · rw [hctrl, h.ktCpuFunc]
        · exact hsel prev (by simp [CpuEvent.switched])
        · exact hsel next (by simp [CpuEvent.switched])
      | _ => cases hw

/-- On any number of CPUs, with migrations: the onCPU and offCPU records about a selected task
alternate, and paired up they are the intervals of the task on a CPU, none missing. -/
theorem cpu_records_delimit (ro : Rodata) (c : KtCtrl) (tr : List CpuEvent) (h : SwitchRun c tr)
    (p : Int) (hp : p ≠ 0)
    (hsel : ∀ o ∈ tr, ∀ t ∈ o.switched, t.pid = p → selected ro c t = true) :
    Alternating (Record.cpu p) ((onCpus ro c).emitted tr) ∧
      calls (Record.cpu p) ((onCpus ro c).emitted tr) = calls (CpuEvent.stay p) tr ∧
      ((onCpus ro c).emitted tr).filterMap (Record.cpu p) = tr.filterMap (CpuEvent.stay p) := by
  have heq := records_eq_stays ro h hp hsel
  obtain ⟨hcalls, halt⟩ := calls_congr heq
  exact ⟨halt.mpr (h.schedule.alternating _ _ _), hcalls, heq⟩

end Switches

section Sample

def switches (cpu : Int) (prev next : Task) (now : UInt64) : CpuEvent :=
  ⟨cpu, .schedSwitch prev next now (now + 1) ⟨0, Vector.replicate 128 0⟩ true
    (some KeytimeEvent.zero)⟩

/-- Task 5 migrates from CPU 0 to CPU 1. -/
def migrating : List CpuEvent :=
  [switches 0 ⟨0, 0⟩ ⟨5, 4⟩ 100, switches 1 ⟨0, 0⟩ ⟨6, 6⟩ 110, switches 0 ⟨5, 4⟩ ⟨0, 0⟩ 120,
    switches 1 ⟨6, 6⟩ ⟨5, 4⟩ 150, switches 1 ⟨5, 4⟩ ⟨0, 0⟩ 190]

theorem migrating_run : SwitchRun KtCtrl.all migrating where
  ktCpuFunc := rfl
  control := by decide
  served := by decide
  schedule := ⟨[0, 1], fun cpu => (0, cpu), by unfold Apart; decide, by decide⟩

theorem cpu_records_delimit_migrating :
    Alternating (Record.cpu 5) ((onCpus ⟨1, 0⟩ KtCtrl.all).emitted migrating) ∧
      calls (Record.cpu 5) ((onCpus ⟨1, 0⟩ KtCtrl.all).emitted migrating) =
        calls (CpuEvent.stay 5) migrating ∧
      ((onCpus ⟨1, 0⟩ KtCtrl.all).emitted migrating).filterMap (Record.cpu 5) =
        migrating.filterMap (CpuEvent.stay 5) :=
  cpu_records_delimit ⟨1, 0⟩ KtCtrl.all migrating migrating_run 5 (by decide) (by decide)

end Sample

end CpuSubsystem.KeytimeImage
