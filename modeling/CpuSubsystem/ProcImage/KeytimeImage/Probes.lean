import CpuSubsystem.Lib.Outcome
import CpuSubsystem.ProcImage.KeytimeImage.Model

/-!
# The probes as callers of `child_create` and `child_exit`

Which probes reach the two helpers, with what, and that no other probe touches `child` or reports
the exit of a child.
-/

namespace CpuSubsystem.KeytimeImage

/-- A call of `child_create`. -/
structure Creation where
  type : Int
  childPid : Int
  ppid : Int
  ptgid : Int
  room : Bool
  slot : Option KeytimeEvent

/-- The call that a probe makes. -/
def creation (ro : Rodata) (s : State) : Event → Option Creation
  | .forkExit cur ret room slot =>
    if s.ktCtrlMap.ktFunc && (selected ro s.ktCtrlMap cur && ret != 0) then
      some ⟨4, ret, cur.pid, cur.tgid, room, slot⟩
    else none
  | .vforkExit cur parent room slot =>
    if s.ktCtrlMap.ktFunc && selectedVfork ro s.ktCtrlMap cur parent then
      some ⟨6, cur.pid, parent.pid, parent.tgid, room, slot⟩
    else none
  | .sysExitClone3 cur ret room slot =>
    if s.ktCtrlMap.ktFunc && selected ro s.ktCtrlMap cur &&
        s.pthreadCreateEnable.lookup cur.pid = some true && 0 < toInt ret then
      some ⟨8, toInt ret, cur.pid, cur.tgid, room, slot⟩
    else none
  | _ => none

/-- The task of an exit probe, when `child_exit` is reached, and the memory reserved there. -/
def exiting (ro : Rodata) (s : State) : Event → Option (Task × Option KeytimeEvent)
  | .sysEnterExitGroup cur _ slot slot' | .sysEnterExit cur _ slot slot' =>
    if s.ktCtrlMap.ktFunc && (!selected ro s.ktCtrlMap cur || slot.isSome) then some (cur, slot')
    else none
  | _ => none

/-- The task in which the probe fires.  The switch probe is about two tasks instead. -/
def Event.cur : Event → Option Task
  | .sysEnterExecve cur .. | .sysExitExecve cur .. | .forkExit cur .. | .vforkExit cur .. =>
    some cur
  | .pthreadCreateEnter cur _ | .pthreadCreateExit cur | .sysExitClone3 cur .. => some cur
  | .sysEnterExitGroup cur .. | .sysEnterExit cur .. => some cur
  | .ktCtrl _ | .schedSwitch .. => none

/-- The value that the controller writes. -/
def Event.control : Event → Option KtCtrl
  | .ktCtrl c => some c
  | _ => none

/-- The task of a probe of `pthread_create`. -/
def Event.flagged : Event → Option Task
  | .pthreadCreateEnter cur _ | .pthreadCreateExit cur => some cur
  | _ => none

theorem Event.cur_of_flagged {e : Event} {cur : Task} (h : cur ∈ e.flagged) : e.cur = some cur := by
  cases e <;> first | exact h | cases h

/-- The record of the exit of a child. -/
def Record.isChildExit : Record → Bool
  | .keytime e => e.type == 5 || e.type == 7 || e.type == 9
  | .offcpu _ => false

theorem isChildExit_fill (mem : KeytimeEvent) (type pid tgid : Int) (info : UInt64) :
    (Record.keytime (mem.fill type pid tgid info)).isChildExit =
      (type == 5 || type == 7 || type == 9) := rfl

variable {ro : Rodata} {c : KtCtrl} {s : State} {e : Event}

/-- The probes of the three creations. -/
def Event.creates : Event → Bool
  | .forkExit .. | .vforkExit .. | .sysExitClone3 .. => true
  | _ => false

def create (s : State) : Option Creation → State × List Record
  | some k => childCreate s k.room k.slot k.type k.childPid k.ppid k.ptgid
  | none => (s, [])

/-- All that such a probe does is the call. -/
theorem step_creates (h : e.creates = true) : step ro s e = create s (creation ro s e) := by
  cases e with
  | forkExit cur ret room slot =>
    show forkExit ro s cur room slot ret = _
    unfold forkExit creation
    dsimp only
    split <;> rfl
  | vforkExit cur parent room slot =>
    show vforkExit ro s cur room slot parent = _
    unfold vforkExit creation
    dsimp only
    split <;> rfl
  | sysExitClone3 cur ret room slot =>
    show sysExitClone3 ro s cur room slot ret = _
    simp only [sysExitClone3, creation]
    -- one condition after the other, in the order of the source
    by_cases hsel : (s.ktCtrlMap.ktFunc && selected ro s.ktCtrlMap cur) = true
    · by_cases hflag : s.pthreadCreateEnable.lookup cur.pid = some true
      · by_cases hpos : toInt ret ≤ 0
        · simp [hsel, hflag, hpos, Int.not_lt.mpr hpos, create]
        · simp [hsel, hflag, hpos, Int.not_le.mp hpos, create]
      · simp [hsel, hflag, create]
    · simp [hsel, create]
  | _ => cases h

theorem creates_of_creation {k : Creation} (h : creation ro s e = some k) : e.creates = true := by
  cases e <;> first | rfl | cases h

theorem creation_type {k : Creation} (h : creation ro s e = some k) :
    k.type = 4 ∨ k.type = 6 ∨ k.type = 8 := by
  cases e with
  | forkExit cur ret room slot =>
    obtain ⟨-, hk⟩ := Option.ite_none_right_eq_some.mp h
    cases hk
    exact Or.inl rfl
  | vforkExit cur parent room slot =>
    obtain ⟨-, hk⟩ := Option.ite_none_right_eq_some.mp h
    cases hk
    exact Or.inr (Or.inl rfl)
  | sysExitClone3 cur ret room slot =>
    obtain ⟨-, hk⟩ := Option.ite_none_right_eq_some.mp h
    cases hk
    exact Or.inr (Or.inr rfl)
  | _ => cases h

theorem step_creation {k : Creation} (h : creation ro s e = some k) :
    step ro s e = childCreate s k.room k.slot k.type k.childPid k.ppid k.ptgid ∧
      (k.type = 4 ∨ k.type = 6 ∨ k.type = 8) := by
  rw [step_creates (creates_of_creation h), h]
  exact ⟨rfl, creation_type h⟩

theorem exitProbe_exiting {cur : Task} {slot slot' : Option KeytimeEvent} {code : UInt64}
    (h : (s.ktCtrlMap.ktFunc && (!selected ro s.ktCtrlMap cur || slot.isSome)) = true) :
    (exitProbe ro s cur slot slot' code).1 = (childExit s cur slot').1 ∧
    ∀ r ∈ (exitProbe ro s cur slot slot' code).2, r.isChildExit = true →
      r ∈ (childExit s cur slot').2 := by
  simp only [Bool.and_eq_true] at h
  simp only [exitProbe, if_pos h.1]
  cases hsel : selected ro s.ktCtrlMap cur with
  | false =>
    rw [if_neg Bool.false_ne_true]
    exact ⟨rfl, fun r hr _ => hr⟩
  | true =>
    rw [hsel] at h
    cases slot with
    | none => exact absurd h.2 (by decide)
    | some mem =>
      rw [if_pos rfl]
      refine ⟨rfl, fun r hr hexit => ?_⟩
      rcases List.mem_cons.mp hr with rfl | hr
      · rw [isChildExit_fill] at hexit
        exact absurd hexit (by decide)
      · exact hr

theorem exitProbe_not {cur : Task} {slot slot' : Option KeytimeEvent} {code : UInt64}
    (h : ¬(s.ktCtrlMap.ktFunc && (!selected ro s.ktCtrlMap cur || slot.isSome)) = true) :
    exitProbe ro s cur slot slot' code = (s, []) := by
  simp only [exitProbe]
  cases hf : s.ktCtrlMap.ktFunc with
  | false => rfl
  | true =>
    cases hsel : selected ro s.ktCtrlMap cur with
    | false =>
      rw [hf, hsel] at h
      exact absurd rfl h
    | true =>
      cases slot with
      | none => rfl
      | some mem =>
        rw [hf, hsel] at h
        exact absurd rfl h

theorem step_exiting {cur : Task} {slot' : Option KeytimeEvent}
    (h : exiting ro s e = some (cur, slot')) :
    (step ro s e).1 = (childExit s cur slot').1 ∧
    ∀ r ∈ (step ro s e).2, r.isChildExit = true → r ∈ (childExit s cur slot').2 := by
  cases e with
  | sysEnterExitGroup cur' code slot slot'' | sysEnterExit cur' code slot slot'' =>
    obtain ⟨hrun, hcall⟩ := Option.ite_none_right_eq_some.mp h
    cases hcall
    exact exitProbe_exiting hrun
  | _ => cases h

theorem not_isChildExit_create {type : Int} (h : type = 4 ∨ type = 6 ∨ type = 8)
    (mem : KeytimeEvent) (pid tgid : Int) (info : UInt64) :
    (Record.keytime (mem.fill type pid tgid info)).isChildExit = false := by
  rw [isChildExit_fill]
  rcases h with rfl | rfl | rfl <;> decide

/-- The arguments do not change what kind of record it is. -/
theorem readArgs_type (user : UserMemory) (args : UInt64) (event : KeytimeEvent) :
    (readArgs ro user args event).type = event.type := by
  have hread : ∀ (e : KeytimeEvent) (i : Nat), e.type = event.type →
      Meets (fun e' => e'.type = event.type) (fun e' => e'.type = event.type)
        (readArg user args e i) := by
    intro e i he
    unfold readArg
    split
    · exact he
    · split
      · exact he
      · dsimp only
        split
        · exact he
        · exact he
  have hloop : Meets (fun e' => e'.type = event.type) (fun e' => e'.type = event.type)
      ((List.range' 1 (min totalMaxArgs ro.maxArgs - 1)).foldlM (readArg user args) event) :=
    meets_foldlM (fun e he i _ => hread e i he) rfl
  unfold readArgs
  split
  · rename_i e heq
    rw [heq] at hloop
    exact hloop
  · rename_i e heq
    rw [heq] at hloop
    split <;> exact hloop

theorem exec_type (mem : KeytimeEvent) (pid tgid : Int) (user : UserMemory)
    (filename args : UInt64) : (mem.exec ro pid tgid user filename args).type = 1 := by
  unfold KeytimeEvent.exec
  dsimp only
  split
  · rfl
  · rw [readArgs_type]
    dsimp only
    split <;> rfl

/-- A probe that makes at most one record. -/
theorem not_isChildExit_slot {slot : Option KeytimeEvent} {f : KeytimeEvent → KeytimeEvent}
    (hf : ∀ mem, (Record.keytime (f mem)).isChildExit = false) :
    ∀ r ∈ (slot.map fun mem => Record.keytime (f mem)).toList, r.isChildExit = false := by
  intro r hr
  cases slot with
  | none => cases hr
  | some mem =>
    rw [List.mem_singleton.mp hr]
    exact hf mem

theorem schedSwitch_not_isChildExit {prev next : Task} {off on : UInt64} {kstack : Kstack}
    {reservedOff : Bool} {slotOn : Option KeytimeEvent} :
    ∀ r ∈ (schedSwitch ro s slotOn prev next off on kstack reservedOff).2,
      r.isChildExit = false := by
  have hon : ∀ r ∈ (if next.pid != 0 && selected ro s.ktCtrlMap next then
      (slotOn.map fun mem => Record.keytime
        (mem.fill 10 next.pid (shownTgid s.ktCtrlMap next.tgid) on)).toList else []),
      r.isChildExit = false := by
    split
    · exact not_isChildExit_slot fun mem => rfl
    · exact List.forall_mem_nil _
  rw [schedSwitch]
  split
  · split
    · split
      · exact List.forall_mem_cons.mpr ⟨rfl, hon⟩
      · exact List.forall_mem_nil _
    · exact hon
  · exact List.forall_mem_nil _

theorem schedSwitch_state {prev next : Task} {off on : UInt64} {kstack : Kstack}
    {reservedOff : Bool} {slotOn : Option KeytimeEvent} :
    (schedSwitch ro s slotOn prev next off on kstack reservedOff).1 = s := by
  unfold schedSwitch
  dsimp only
  repeat' split
  all_goals rfl

theorem sysEnterExecve_state {cur : Task} {slot : Option KeytimeEvent} {filename args : UInt64}
    {user : UserMemory} : (sysEnterExecve ro s cur slot filename args user).1 = s := by
  unfold sysEnterExecve
  dsimp only
  split <;> rfl

theorem sysExitExecve_state {cur : Task} {slot : Option KeytimeEvent} {ret : Int} :
    (sysExitExecve ro s cur slot ret).1 = s := by
  unfold sysExitExecve
  dsimp only
  split <;> rfl

/-- The other ways through the probes. -/
theorem step_neither (hc : creation ro s e = none) (hx : exiting ro s e = none) :
    (step ro s e).1.child = s.child ∧ ∀ r ∈ (step ro s e).2, r.isChildExit = false := by
  cases e with
  | ktCtrl c' => exact ⟨rfl, List.forall_mem_nil _⟩
  | sysEnterExecve cur filename args user slot =>
    rw [show step ro s _ = sysEnterExecve ro s cur slot filename args user from rfl,
      sysEnterExecve]
    split
    · refine ⟨rfl, not_isChildExit_slot fun mem => ?_⟩
      simp [Record.isChildExit, exec_type]
    · exact ⟨rfl, List.forall_mem_nil _⟩
  | sysExitExecve cur ret slot =>
    rw [show step ro s _ = sysExitExecve ro s cur slot ret from rfl, sysExitExecve]
    split
    · exact ⟨rfl, not_isChildExit_slot fun mem => rfl⟩
    · exact ⟨rfl, List.forall_mem_nil _⟩
  | forkExit _ _ _ _ | vforkExit _ _ _ _ | sysExitClone3 _ _ _ _ =>
    rw [step_creates rfl, hc]
    exact ⟨rfl, List.forall_mem_nil _⟩
  | pthreadCreateEnter cur room =>
    refine ⟨?_, List.forall_mem_nil _⟩
    show (pthreadCreateEnter ro s cur room).child = s.child
    unfold pthreadCreateEnter
    split <;> rfl
  | pthreadCreateExit cur =>
    refine ⟨?_, List.forall_mem_nil _⟩
    show (pthreadCreateExit ro s cur).child = s.child
    unfold pthreadCreateExit
    split <;> rfl
  | sysEnterExitGroup cur code slot slot' | sysEnterExit cur code slot slot' =>
    have hnot : ¬(s.ktCtrlMap.ktFunc && (!selected ro s.ktCtrlMap cur || slot.isSome)) = true :=
      fun hrun => Option.some_ne_none _ ((if_pos hrun).symm.trans hx)
    rw [show step ro s _ = exitProbe ro s cur slot slot' code from rfl, exitProbe_not hnot]
    exact ⟨rfl, List.forall_mem_nil _⟩
  | schedSwitch prev next off on kstack reservedOff slotOn =>
    exact ⟨congrArg State.child schedSwitch_state, schedSwitch_not_isChildExit⟩

theorem childCreate_frame (s : State) (room : Bool) (slot : Option KeytimeEvent)
    (type childPid pid tgid : Int) :
    ∃ child', (childCreate s room slot type childPid pid tgid).1 = { s with child := child' } := by
  unfold childCreate
  dsimp only
  split
  · exact ⟨_, rfl⟩
  · exact ⟨s.child, rfl⟩

theorem exitProbe_frame (ro : Rodata) (s : State) (cur : Task) (slot slot' : Option KeytimeEvent)
    (code : UInt64) :
    ∃ child', (exitProbe ro s cur slot slot' code).1 = { s with child := child' } := by
  by_cases hx : (s.ktCtrlMap.ktFunc && (!selected ro s.ktCtrlMap cur || slot.isSome)) = true
  · rw [(exitProbe_exiting hx).1, childExit]
    split
    · exact ⟨s.child, rfl⟩
    · split
      · exact ⟨s.child, rfl⟩
      · exact ⟨_, rfl⟩
  · rw [exitProbe_not hx]
    exact ⟨s.child, rfl⟩

/-- Apart from the controller and the probes of `pthread_create`, nothing but `child` changes. -/
theorem step_frame (hc : e.control = none) (hp : e.flagged = none) :
    ∃ child', (step ro s e).1 = { s with child := child' } := by
  cases e with
  | ktCtrl c' => cases hc
  | pthreadCreateEnter cur room => cases hp
  | pthreadCreateExit cur => cases hp
  | sysEnterExecve cur filename args user slot => exact ⟨s.child, sysEnterExecve_state⟩
  | sysExitExecve cur ret slot => exact ⟨s.child, sysExitExecve_state⟩
  | forkExit _ _ _ _ | vforkExit _ _ _ _ | sysExitClone3 _ _ _ _ =>
    rw [step_creates rfl]
    generalize creation ro s _ = k
    cases k with
    | none => exact ⟨s.child, rfl⟩
    | some k => exact childCreate_frame s k.room k.slot _ _ _ _
  | sysEnterExitGroup cur code slot slot' => exact exitProbe_frame ro s cur slot slot' code
  | sysEnterExit cur code slot slot' => exact exitProbe_frame ro s cur slot slot' code
  | schedSwitch prev next off on kstack reservedOff slotOn =>
    exact ⟨s.child, schedSwitch_state⟩

/-- The probes of `pthread_create` write the flag of their own thread. -/
theorem flag_other {p : Int} (h : ∀ cur ∈ e.flagged, cur.pid ≠ p) :
    (step ro s e).1.pthreadCreateEnable.lookup p = s.pthreadCreateEnable.lookup p := by
  have hframe := @step_frame ro s e
  cases e with
  | ktCtrl c' => rfl
  | pthreadCreateEnter cur room =>
    show (pthreadCreateEnter ro s cur room).pthreadCreateEnable.lookup p = _
    unfold pthreadCreateEnter
    split
    · exact BpfMap.lookup_update_of_ne _ room true (Ne.symm (h cur rfl))
    · rfl
  | pthreadCreateExit cur =>
    show (pthreadCreateExit ro s cur).pthreadCreateEnable.lookup p = _
    unfold pthreadCreateExit
    split
    · exact BpfMap.lookup_delete_of_ne _ (Ne.symm (h cur rfl))
    · rfl
  | _ =>
    obtain ⟨child', hs⟩ := hframe rfl rfl
    rw [hs]

/-- No probe writes the control. -/
theorem step_ctrl (h : e.control = none) : (step ro s e).1.ktCtrlMap = s.ktCtrlMap := by
  by_cases hp : e.flagged = none
  · obtain ⟨child', hs⟩ := @step_frame ro s e h hp
    rw [hs]
  · cases e with
    | pthreadCreateEnter cur room =>
      show (pthreadCreateEnter ro s cur room).ktCtrlMap = s.ktCtrlMap
      unfold pthreadCreateEnter
      split <;> rfl
    | pthreadCreateExit cur =>
      show (pthreadCreateExit ro s cur).ktCtrlMap = s.ktCtrlMap
      unfold pthreadCreateExit
      split <;> rfl
    | _ => exact absurd rfl hp

/-- With a control that nobody writes, every probe sees the same value. -/
theorem ctrl_const {tr : List Event} (h : ∀ e ∈ tr, e.control = none) :
    ((machine ro c).exec tr).ktCtrlMap = c := by
  induction tr using List.reverseRecOn with
  | nil => rfl
  | append_singleton pre e ih =>
    rw [Machine.exec_snoc]
    have hlast := h e (List.mem_append_right pre (List.mem_singleton_self e))
    exact (step_ctrl hlast).trans (ih fun x hx => h x (List.mem_append_left [e] hx))

/-! ## The two helpers -/

theorem fill_info (mem : KeytimeEvent) (type pid tgid : Int) (info : UInt64) :
    (mem.fill type pid tgid info).info₀ = info :=
  Vector.getElem_set_self (by decide)

theorem childCreate_accepted {room : Bool} {slot : Option KeytimeEvent}
    {type childPid pid tgid : Int} (h : s.child.accepts room childPid = true) :
    childCreate s room slot type childPid pid tgid =
      ({ s with child := s.child.store childPid ⟨type, pid, shownTgid s.ktCtrlMap tgid⟩ },
        (slot.map fun mem => Record.keytime (mem.fill type pid (shownTgid s.ktCtrlMap tgid)
          (UInt64.ofInt childPid))).toList) :=
  if_pos h

theorem childCreate_refused {room : Bool} {slot : Option KeytimeEvent}
    {type childPid pid tgid : Int} (h : s.child.accepts room childPid = false) :
    childCreate s room slot type childPid pid tgid = (s, []) :=
  if_neg (by rw [h]; exact Bool.false_ne_true)

theorem childCreate_not_isChildExit {room : Bool} {slot : Option KeytimeEvent}
    {type childPid pid tgid : Int} (h : type = 4 ∨ type = 6 ∨ type = 8) :
    ∀ r ∈ (childCreate s room slot type childPid pid tgid).2, r.isChildExit = false := by
  intro r hr
  cases hacc : s.child.accepts room childPid with
  | false =>
    rw [childCreate_refused hacc] at hr
    cases hr
  | true =>
    rw [childCreate_accepted hacc] at hr
    cases slot with
    | none => cases hr
    | some mem =>
      rw [List.mem_singleton.mp hr]
      exact not_isChildExit_create h mem _ _ _

/-- A record of `child_exit` is made from the entry of the task. -/
theorem childExit_mem {cur : Task} {slot : Option KeytimeEvent} {r : Record}
    (h : r ∈ (childExit s cur slot).2) :
    ∃ info mem, s.child.lookup cur.pid = some info ∧ slot = some mem ∧
      r = .keytime (mem.fill (info.type + 1) info.ppid info.ptgid (UInt64.ofInt cur.pid)) := by
  unfold childExit at h
  cases hl : s.child.lookup cur.pid with
  | none =>
    rw [hl] at h
    cases h
  | some info =>
    rw [hl] at h
    cases slot with
    | none => cases h
    | some mem => exact ⟨info, mem, rfl, rfl, List.mem_singleton.mp h⟩

/-- What is left was there before, and for the task itself only if nothing was reported. -/
theorem childExit_lookup {cur : Task} {slot : Option KeytimeEvent} {p : Int} {info : ChildInfo}
    (h : (childExit s cur slot).1.child.lookup p = some info) :
    s.child.lookup p = some info ∧ (p = cur.pid → (childExit s cur slot).2 = []) := by
  unfold childExit at h ⊢
  cases hl : s.child.lookup cur.pid with
  | none =>
    rw [hl] at h
    exact ⟨h, fun _ => rfl⟩
  | some info' =>
    rw [hl] at h
    cases slot with
    | none => exact ⟨h, fun _ => rfl⟩
    | some mem =>
      change (s.child.delete cur.pid).lookup p = some info at h
      rw [BpfMap.lookup_delete] at h
      split at h
      · cases h
      · rename_i hne
        exact ⟨h, fun heq => absurd heq hne⟩

theorem childCreate_idle {room : Bool} {slot : Option KeytimeEvent}
    {type childPid pid tgid : Int} :
    childCreate s room slot type childPid pid tgid = (s, []) ↔
      (s.child.accepts room childPid = true → slot = none ∧
        s.child.lookup childPid = some ⟨type, pid, shownTgid s.ktCtrlMap tgid⟩) := by
  cases hacc : s.child.accepts room childPid with
  | false =>
    rw [childCreate_refused hacc]
    exact ⟨fun _ hf => absurd hf Bool.false_ne_true, fun _ => rfl⟩
  | true =>
    rw [childCreate_accepted hacc, Prod.mk.injEq]
    have hstate : ∀ info : ChildInfo, { s with child := s.child.store childPid info } = s ↔
        s.child.lookup childPid = some info := by
      intro info
      rw [← BpfMap.store_eq_self]
      exact ⟨fun h => congrArg State.child h, fun h => by rw [h]⟩
    rw [hstate]
    cases slot with
    | none => exact ⟨fun h _ => ⟨rfl, h.1⟩, fun h => ⟨(h rfl).2, rfl⟩⟩
    | some mem => exact ⟨fun h => absurd h.2 (by simp), fun h => absurd (h rfl).1 (by simp)⟩

theorem childExit_idle {cur : Task} {slot : Option KeytimeEvent} :
    childExit s cur slot = (s, []) ↔ (slot.isSome = true → s.child.lookup cur.pid = none) := by
  unfold childExit
  cases hl : s.child.lookup cur.pid with
  | none => exact ⟨fun _ _ => rfl, fun _ => rfl⟩
  | some info =>
    cases slot with
    | none => exact ⟨fun _ hf => absurd hf Bool.false_ne_true, fun _ => rfl⟩
    | some mem => exact ⟨fun h => absurd h (by simp), fun h => absurd (h rfl) (by simp)⟩

end CpuSubsystem.KeytimeImage
