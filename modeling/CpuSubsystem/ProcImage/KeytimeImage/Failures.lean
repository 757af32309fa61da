import CpuSubsystem.ProcImage.KeytimeImage.Probes

/-!
# Reservations that fail

Some probes have a second job after a record: another record, or the removal of an entry of `child`.
A reservation that fails should cost its own record and nothing else.
-/

namespace CpuSubsystem.KeytimeImage

/-- A reservation in the ring buffer: the type of the record it is for, and whether it succeeds. -/
structure Reservation where
  type : Int
  reserved : Bool
deriving DecidableEq

def Record.type : Record → Int
  | .keytime e => e.type
  | .offcpu e => e.type

section

variable (ro : Rodata) (s : State)

/-- The switch probe has a record to make for the task. -/
def switchDue (task : Task) : Bool := task.pid != 0 && selected ro s.ktCtrlMap task

/-- `child_create` reserves when the entry could be made. -/
def createAttempts (k : Creation) : List Reservation :=
  if s.child.accepts k.room k.childPid then [⟨k.type, k.slot.isSome⟩] else []

def childExitAttempts (cur : Task) (slot' : Option KeytimeEvent) : List Reservation :=
  match s.child.lookup cur.pid with
  | none => []
  | some childInfo => [⟨childInfo.type + 1, slot'.isSome⟩]

/-- An exit probe gets to `child_exit` only past its own reservation. -/
def exitAttempts (cur : Task) (slot slot' : Option KeytimeEvent) : List Reservation :=
  if s.ktCtrlMap.ktFunc then
    if selected ro s.ktCtrlMap cur then
      ⟨3, slot.isSome⟩ :: if slot.isSome then childExitAttempts s cur slot' else []
    else childExitAttempts s cur slot'
  else []

def switchAttempts (prev next : Task) (reservedOff : Bool) (slotOn : Option KeytimeEvent) :
    List Reservation :=
  let onAttempts : List Reservation := if switchDue ro s next then [⟨10, slotOn.isSome⟩] else []
  if s.ktCtrlMap.ktCpuFunc then
    if switchDue ro s prev then ⟨11, reservedOff⟩ :: if reservedOff then onAttempts else []
    else onAttempts
  else []

/-- The reservations that an event makes, one after the other. -/
def attempts (e : Event) : List Reservation :=
  match e with
  | .sysEnterExecve cur _ _ _ slot =>
    if s.ktCtrlMap.ktFunc && selected ro s.ktCtrlMap cur then [⟨1, slot.isSome⟩] else []
  | .sysExitExecve cur _ slot =>
    if s.ktCtrlMap.ktFunc && selected ro s.ktCtrlMap cur then [⟨2, slot.isSome⟩] else []
  | .forkExit .. | .vforkExit .. | .sysExitClone3 .. =>
    (creation ro s e).toList.flatMap (createAttempts s)
  | .sysEnterExitGroup cur _ slot slot' | .sysEnterExit cur _ slot slot' =>
    exitAttempts ro s cur slot slot'
  | .schedSwitch prev next _ _ _ reservedOff slotOn =>
    switchAttempts ro s prev next reservedOff slotOn
  | .ktCtrl _ | .pthreadCreateEnter .. | .pthreadCreateExit _ => []

/-- Some memory, whatever is in it. -/
def granted (slot : Option KeytimeEvent) : Option KeytimeEvent := some (slot.getD .zero)

/-- The same event, when all its reservations succeed. -/
def Event.granted : Event → Event
  | .sysEnterExecve cur filename args user slot =>
    .sysEnterExecve cur filename args user (KeytimeImage.granted slot)
  | .sysExitExecve cur ret slot => .sysExitExecve cur ret (KeytimeImage.granted slot)
  | .forkExit cur ret room slot => .forkExit cur ret room (KeytimeImage.granted slot)
  | .vforkExit cur parent room slot => .vforkExit cur parent room (KeytimeImage.granted slot)
  | .sysExitClone3 cur ret room slot => .sysExitClone3 cur ret room (KeytimeImage.granted slot)
  | .sysEnterExitGroup cur code slot slot' =>
    .sysEnterExitGroup cur code (KeytimeImage.granted slot) (KeytimeImage.granted slot')
  | .sysEnterExit cur code slot slot' =>
    .sysEnterExit cur code (KeytimeImage.granted slot) (KeytimeImage.granted slot')
  | .schedSwitch prev next off on kstack _ slotOn =>
    .schedSwitch prev next off on kstack true (KeytimeImage.granted slotOn)
  | e => e

/-- The failures of an event change neither which records it attempts nor what it does to the
maps. -/
structure Contained (e : Event) : Prop where
  attempts : (attempts ro s e).map Reservation.type =
    (KeytimeImage.attempts ro s e.granted).map Reservation.type
  maps : (step ro s e).1 = (step ro s e.granted).1

/-- A reservation succeeds when there is something left to be done after it: the record of `next`,
or the report and the removal of the entry of a recorded child. -/
def LastFails : Event → Prop
  | .schedSwitch prev next _ _ _ reservedOff _ =>
    s.ktCtrlMap.ktCpuFunc = true → switchDue ro s prev = true → switchDue ro s next = true →
      reservedOff = true
  | .sysEnterExitGroup cur _ slot slot' | .sysEnterExit cur _ slot slot' =>
    s.ktCtrlMap.ktFunc = true → (s.child.lookup cur.pid).isSome = true →
      (selected ro s.ktCtrlMap cur = true → slot.isSome = true) ∧ slot'.isSome = true
  | _ => True

end

variable {ro : Rodata} {s : State} {e : Event} {cur : Task} {slot slot' : Option KeytimeEvent}

theorem types_of_slot {f : KeytimeEvent → KeytimeEvent} {type : Int}
    (hf : ∀ mem, (f mem).type = type) :
    ((slot.map fun mem => Record.keytime (f mem)).toList).map Record.type =
      ([⟨type, slot.isSome⟩].filter Reservation.reserved).map Reservation.type := by
  cases slot with
  | none => rfl
  | some mem => exact congrArg (fun t => [t]) (hf mem)

theorem childCreate_types (k : Creation) :
    ((childCreate s k.room k.slot k.type k.childPid k.ppid k.ptgid).2).map Record.type =
      ((createAttempts s k).filter Reservation.reserved).map Reservation.type := by
  unfold childCreate createAttempts
  dsimp only
  split
  · exact types_of_slot fun mem => rfl
  · rfl

theorem childExit_types : ((childExit s cur slot').2).map Record.type =
    ((childExitAttempts s cur slot').filter Reservation.reserved).map Reservation.type := by
  unfold childExit childExitAttempts
  cases s.child.lookup cur.pid with
  | none => rfl
  | some childInfo => cases slot' <;> rfl

theorem exitProbe_types (code : UInt64) :
    ((exitProbe ro s cur slot slot' code).2).map Record.type =
      ((exitAttempts ro s cur slot slot').filter Reservation.reserved).map Reservation.type := by
  unfold exitProbe exitAttempts
  dsimp only
  split
  · split
    · cases slot with
      | none => rfl
      | some mem => exact congrArg (List.cons 3) childExit_types
    · exact childExit_types
  · rfl

theorem schedSwitch_types {prev next : Task} {off on : UInt64} {kstack : Kstack}
    {reservedOff : Bool} :
    ((schedSwitch ro s slot prev next off on kstack reservedOff).2).map Record.type =
      ((switchAttempts ro s prev next reservedOff slot).filter Reservation.reserved).map
        Reservation.type := by
  have hon : (if next.pid != 0 && selected ro s.ktCtrlMap next then
      (slot.map fun mem => Record.keytime
        (mem.fill 10 next.pid (shownTgid s.ktCtrlMap next.tgid) on)).toList else []).map
        Record.type =
      ((if switchDue ro s next then [⟨10, slot.isSome⟩] else []).filter
        Reservation.reserved).map Reservation.type := by
    unfold switchDue
    split
    · exact types_of_slot fun mem => rfl
    · rfl
  unfold schedSwitch switchAttempts
  dsimp only
  split
  · have hprev : switchDue ro s prev = (prev.pid != 0 && selected ro s.ktCtrlMap prev) := rfl
    rw [hprev]
    split
    · cases reservedOff with
      | false => rfl
      | true => exact congrArg (List.cons 11) hon
    · exact hon
  · rfl

/-- The records that an event emits are those of its reservations that succeed. -/
theorem step_types : ((step ro s e).2).map Record.type =
    ((attempts ro s e).filter Reservation.reserved).map Reservation.type := by
  cases e with
  | ktCtrl c => rfl
  | sysEnterExecve cur filename args user slot =>
    show ((sysEnterExecve ro s cur slot filename args user).2).map Record.type = _
    unfold sysEnterExecve attempts
    dsimp only
    split
    · exact types_of_slot fun mem => exec_type mem _ _ user filename args
    · rfl
  | sysExitExecve cur ret slot =>
    show ((sysExitExecve ro s cur slot ret).2).map Record.type = _
    unfold sysExitExecve attempts
    dsimp only
    split
    · exact types_of_slot fun mem => rfl
    · rfl
  | forkExit _ _ _ _ | vforkExit _ _ _ _ | sysExitClone3 _ _ _ _ =>
    rw [step_creates rfl]
    unfold attempts
    dsimp only
    cases creation ro s _ with
    | none => rfl
    | some k =>
      simp only [Option.toList_some, List.flatMap_singleton]
      exact childCreate_types k
  | pthreadCreateEnter cur room => rfl
  | pthreadCreateExit cur => rfl
  | sysEnterExitGroup cur code slot slot' | sysEnterExit cur code slot slot' =>
    exact exitProbe_types code
  | schedSwitch prev next off on kstack reservedOff slotOn => exact schedSwitch_types

theorem creation_granted :
    creation ro s e.granted = (creation ro s e).map fun k => { k with slot := granted k.slot } := by
  cases e with
  | forkExit _ _ _ _ | vforkExit _ _ _ _ | sysExitClone3 _ _ _ _ =>
    unfold Event.granted creation
    dsimp only
    split <;> rfl
  | _ => rfl

theorem childCreate_maps (s : State) (room : Bool) (slot slot' : Option KeytimeEvent)
    (type childPid pid tgid : Int) :
    (childCreate s room slot type childPid pid tgid).1 =
      (childCreate s room slot' type childPid pid tgid).1 := by
  unfold childCreate
  dsimp only
  split <;> rfl

/-- `child_create` makes its entry before the reservation. -/
theorem contained_of_creates (h : e.creates = true) : Contained ro s e := by
  have hgranted : e.granted.creates = true := by
    cases e <;> first | rfl | cases h
  have hattempts : ∀ e' : Event, e'.creates = true →
      attempts ro s e' = (creation ro s e').toList.flatMap (createAttempts s) := by
    intro e' h'
    cases e' <;> first | rfl | cases h'
  constructor
  · rw [hattempts e h, hattempts _ hgranted, creation_granted]
    cases creation ro s e with
    | none => rfl
    | some k =>
      simp only [Option.map_some, Option.toList_some, List.flatMap_singleton, createAttempts]
      split <;> rfl
  · rw [step_creates h, step_creates hgranted, creation_granted]
    cases creation ro s e with
    | none => rfl
    | some k => exact childCreate_maps s k.room _ _ _ _ _ _

theorem schedSwitch_contained_iff {prev next : Task} {off on : UInt64} {kstack : Kstack}
    {reservedOff : Bool} :
    Contained ro s (.schedSwitch prev next off on kstack reservedOff slot) ↔
      LastFails ro s (.schedSwitch prev next off on kstack reservedOff slot) := by
  have hmaps : (step ro s (.schedSwitch prev next off on kstack reservedOff slot)).1 =
      (step ro s (Event.schedSwitch prev next off on kstack reservedOff slot).granted).1 :=
    schedSwitch_state.trans schedSwitch_state.symm
  have hiff : Contained ro s (.schedSwitch prev next off on kstack reservedOff slot) ↔
      (switchAttempts ro s prev next reservedOff slot).map Reservation.type =
        (switchAttempts ro s prev next true (granted slot)).map Reservation.type :=
    ⟨fun h => h.attempts, fun h => ⟨h, hmaps⟩⟩
  rw [hiff]
  show _ ↔ (s.ktCtrlMap.ktCpuFunc = true → switchDue ro s prev = true →
    switchDue ro s next = true → reservedOff = true)
  unfold switchAttempts
  cases s.ktCtrlMap.ktCpuFunc with
  | false => simp
  | true =>
    cases switchDue ro s prev with
    | false => cases switchDue ro s next <;> simp
    | true =>
      -- with both tasks due the record of `prev` comes first
      cases switchDue ro s next <;> cases reservedOff <;> simp

theorem childExit_maps_iff : (childExit s cur slot').1 = (childExit s cur (granted slot')).1 ↔
    ((s.child.lookup cur.pid).isSome = true → slot'.isSome = true) := by
  cases hl : s.child.lookup cur.pid with
  | none => simp [childExit, hl]
  | some childInfo =>
    cases slot' with
    | some mem => simp [childExit, hl, granted]
    | none =>
      -- the element stays, so the maps differ from those after a reservation
      have hne : s ≠ { s with child := s.child.delete cur.pid } := by
        intro heq
        have hchild : s.child.delete cur.pid = s.child := (congrArg State.child heq).symm
        rw [BpfMap.delete_eq_self.mp hchild] at hl
        cases hl
      simp [childExit, hl, granted, hne]

theorem exitProbe_contained_iff (code : UInt64) :
    ((exitAttempts ro s cur slot slot').map Reservation.type =
        (exitAttempts ro s cur (granted slot) (granted slot')).map Reservation.type ∧
      (exitProbe ro s cur slot slot' code).1 =
        (exitProbe ro s cur (granted slot) (granted slot') code).1) ↔
      (s.ktCtrlMap.ktFunc = true → (s.child.lookup cur.pid).isSome = true →
        (selected ro s.ktCtrlMap cur = true → slot.isSome = true) ∧ slot'.isSome = true) := by
  have htypes : (childExitAttempts s cur slot').map Reservation.type =
      (childExitAttempts s cur (granted slot')).map Reservation.type := by
    unfold childExitAttempts
    cases s.child.lookup cur.pid <;> rfl
  have hmaps : (childExit s cur slot').1 = (childExit s cur (granted slot')).1 ↔
      ((s.child.lookup cur.pid).isSome = true → slot'.isSome = true) := childExit_maps_iff
  unfold exitAttempts exitProbe
  dsimp only
  cases s.ktCtrlMap.ktFunc with
  | false => simp
  | true =>
    cases selected ro s.ktCtrlMap cur with
    | false => simpa [htypes] using hmaps
    | true =>
      cases slot with
      | some mem => simpa [htypes, granted] using hmaps
      | none =>
        -- `child_exit` is not reached: what it would do is missing
        cases hl : s.child.lookup cur.pid with
        | none => simp [granted, childExitAttempts, childExit, hl]
        | some childInfo => simp [granted, childExitAttempts, hl]

/-- What an event attempts and does to the maps is the same for every pattern of failures exactly
when only the last reservation fails, or none. -/
theorem contained_iff (ro : Rodata) (s : State) (e : Event) :
    Contained ro s e ↔ LastFails ro s e := by
  cases e with
  | ktCtrl c => exact ⟨fun _ => trivial, fun _ => ⟨rfl, rfl⟩⟩
  | sysEnterExecve cur filename args user slot =>
    refine ⟨fun _ => trivial, fun _ => ⟨?_, sysEnterExecve_state.trans sysEnterExecve_state.symm⟩⟩
    simp only [Event.granted, attempts]
    split <;> rfl
  | sysExitExecve cur ret slot =>
    refine ⟨fun _ => trivial, fun _ => ⟨?_, sysExitExecve_state.trans sysExitExecve_state.symm⟩⟩
    simp only [Event.granted, attempts]
    split <;> rfl
  | forkExit _ _ _ _ | vforkExit _ _ _ _ | sysExitClone3 _ _ _ _ =>
    exact ⟨fun _ => trivial, fun _ => contained_of_creates rfl⟩
  | pthreadCreateEnter cur room => exact ⟨fun _ => trivial, fun _ => ⟨rfl, rfl⟩⟩
  | pthreadCreateExit cur => exact ⟨fun _ => trivial, fun _ => ⟨rfl, rfl⟩⟩
  | sysEnterExitGroup cur code slot slot' | sysEnterExit cur code slot slot' =>
    constructor
    · intro h
      exact (exitProbe_contained_iff code).mp ⟨h.attempts, h.maps⟩
    · intro h
      obtain ⟨hattempts, hmaps⟩ := (exitProbe_contained_iff code).mpr h
      exact ⟨hattempts, hmaps⟩
  | schedSwitch prev next off on kstack reservedOff slotOn => exact schedSwitch_contained_iff

/-- The reservation for task 5 fails, and that for task 6 is not even tried. -/
def onlyOff : Event :=
  .schedSwitch ⟨5, 5⟩ ⟨6, 6⟩ 10 11 ⟨0, Vector.replicate 128 0⟩ false (some .zero)

theorem not_contained_onlyOff :
    (attempts ⟨1, 20⟩ (initial .all) onlyOff).map Reservation.type = [11] ∧
      (attempts ⟨1, 20⟩ (initial .all) onlyOff.granted).map Reservation.type = [11, 10] ∧
      ¬Contained ⟨1, 20⟩ (initial .all) onlyOff := by
  refine ⟨by decide, by decide, fun h => ?_⟩
  have hattempts := h.attempts
  revert hattempts
  decide

end CpuSubsystem.KeytimeImage
