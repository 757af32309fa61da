import CpuSubsystem.Lib.Memory
import CpuSubsystem.ProcImage.LockTool.Model
import CpuSubsystem.ProcImage.NewlifeImage.Model

/-!
# What is left in reserved memory

User space takes a field that is 0 for one that does not apply.  Only the records of an unlock and
of an exit have all fields written.
-/

namespace CpuSubsystem

namespace LockTool

/-- The same event, with other memory behind its reservation. -/
def Event.fill (mem : LockEvent) : Event → Event
  | .enter f current lock now rooms slot =>
    .enter f current lock now rooms (slot.map fun _ => mem)
  | .exit f current now slot => .exit f current now (slot.map fun _ => mem)

/-- What is left of an event without the memory. -/
def Event.blank : Event → Event := Event.fill ⟨0, 0, Comm.none, 0, 0, 0, 0⟩

/-- The event sends the record of a request or of a lock, whose `unlock_time` is not written. -/
def Unwritten (ro : Rodata) (s : State) : Event → Prop
  | .enter f current lock _ rooms slot =>
    f.traced.enabled ro = true ∧ f.traced.use ≠ .unlocks ∧ current.pid = ro.targetPid ∧
      s.procLock.accepts rooms.procLock ro.targetPid = true ∧
      s.lock.accepts rooms.lock ⟨ro.targetPid, lock⟩ = true ∧ slot.isSome = true
  | .exit f current _ slot =>
    f.traced.enabled ro = true ∧ f.traced.use ≠ .unlocks ∧ current.pid = ro.targetPid ∧
      slot.isSome = true ∧
      ∃ p ∈ s.procLock.lookup ro.targetPid, (s.lock.lookup ⟨ro.targetPid, p⟩).isSome = true

/-- The types in `lock` are those of the four kinds. -/
def Typed (s : State) : Prop :=
  ∀ key e, s.lock.lookup key = some e → (kindOf e.type).isSome = true

section Fill

variable {ro : Rodata} {s : State} {e e' : Event} {mem : LockEvent}

theorem blank_eq_iff : e'.blank = e.blank ↔ ∃ mem, e' = e.fill mem := by
  cases e <;> cases e' <;> simp [Event.blank, Event.fill, map_const_eq_iff]

theorem recordLockEnter_fst (current : Task) (lock : UInt64) (type : Int) (now : UInt64)
    (rooms : Rooms) (slot : Option LockEvent) :
    (recordLockEnter ro s current lock type now rooms (slot.map fun _ => mem)).1 =
      (recordLockEnter ro s current lock type now rooms slot).1 := by
  simp only [recordLockEnter]
  split_ifs
  · cases slot <;> rfl
  · rfl
  · rfl
  · rfl

/-- Without a record there is nothing to be left in it. -/
theorem recordLockEnter_snd {current : Task} {lock : UInt64} {type : Int} {now : UInt64}
    {rooms : Rooms} {slot : Option LockEvent}
    (h : ¬ (current.pid = ro.targetPid ∧
      s.procLock.accepts rooms.procLock ro.targetPid = true ∧
      s.lock.accepts rooms.lock ⟨ro.targetPid, lock⟩ = true ∧ slot.isSome = true)) :
    (recordLockEnter ro s current lock type now rooms (slot.map fun _ => mem)).2 =
      (recordLockEnter ro s current lock type now rooms slot).2 := by
  simp only [recordLockEnter]
  split_ifs with hcur hproc hlock
  · cases slot with
    | none => rfl
    | some old => exact absurd ⟨hcur, hproc, hlock, rfl⟩ h
  · rfl
  · rfl
  · rfl

theorem recordLockExit_fst (current : Task) (now : UInt64) (slot : Option LockEvent) :
    (recordLockExit ro s current now (slot.map fun _ => mem)).1 =
      (recordLockExit ro s current now slot).1 := by
  simp only [recordLockExit]
  split_ifs
  · split
    · rfl
    · split
      · rfl
      · cases slot <;> rfl
  · rfl

theorem recordLockExit_snd {current : Task} {now : UInt64} {slot : Option LockEvent}
    (h : ¬ (current.pid = ro.targetPid ∧ slot.isSome = true ∧
      ∃ p ∈ s.procLock.lookup ro.targetPid, (s.lock.lookup ⟨ro.targetPid, p⟩).isSome = true)) :
    (recordLockExit ro s current now (slot.map fun _ => mem)).2 =
      (recordLockExit ro s current now slot).2 := by
  simp only [recordLockExit]
  split_ifs with hcur
  · split
    · rfl
    next p hp =>
      split
      · rfl
      next v hv =>
        cases slot with
        | none => rfl
        | some old => exact absurd ⟨hcur, rfl, p, hp, by rw [hv]; rfl⟩ h
  · rfl

/-- The record of an unlock is built anew. -/
theorem recordUnlockExit_fill (current : Task) (now : UInt64) (slot : Option LockEvent) :
    recordUnlockExit ro s current now (slot.map fun _ => mem) =
      recordUnlockExit ro s current now slot := by
  simp only [recordUnlockExit]
  split_ifs
  · split
    · rfl
    · split
      · rfl
      · cases slot <;> rfl
  · rfl

/-- The memory does not get into the maps. -/
theorem step_fill_fst : (step ro s (e.fill mem)).1 = (step ro s e).1 := by
  cases e with
  | enter f current lock now rooms slot =>
    simp only [Event.fill, step]
    split_ifs
    · split
      · exact recordLockEnter_fst current lock _ now rooms slot
      · rfl
    · rfl
  | exit f current now slot =>
    simp only [Event.fill, step]
    split_ifs
    · split
      · exact recordLockExit_fst current now slot
      · rw [recordUnlockExit_fill]
    · rfl

/-- A record with all fields written is the same with any memory. -/
theorem step_fill_snd (h : ¬ Unwritten ro s e) :
    (step ro s (e.fill mem)).2 = (step ro s e).2 := by
  cases e with
  | enter f current lock now rooms slot =>
    simp only [Event.fill, step]
    split_ifs with hen
    · cases huse : f.traced.use with
      | locks type => exact recordLockEnter_snd fun hsent => h ⟨hen, by simp [huse], hsent⟩
      | unlocks => rfl
    · rfl
  | exit f current now slot =>
    simp only [Event.fill, step]
    split_ifs with hen
    · cases huse : f.traced.use with
      | locks type => exact recordLockExit_snd fun hsent => h ⟨hen, by simp [huse], hsent⟩
      | unlocks =>
        show (recordUnlockExit ro s current now (slot.map fun _ => mem)).2 = _
        rw [recordUnlockExit_fill]
    · rfl

end Fill

section Kinds

variable {ro : Rodata} {s : State} {e : Event} {mem : LockEvent}

theorem kindOf_locks {f : Function} {type : Int} (h : f.traced.use = .locks type) :
    (kindOf type).isSome = true := by
  cases f <;> cases h <;> rfl

theorem Typed.store (h : Typed s) (key : ProcLockptr) {v : LockEvent}
    (hv : (kindOf v.type).isSome = true) : Typed { s with lock := s.lock.store key v } :=
  BpfMap.forall_store (P := fun v : LockEvent => (kindOf v.type).isSome = true) h key hv

theorem Typed.delete (h : Typed s) (key : ProcLockptr) :
    Typed { s with lock := s.lock.delete key } :=
  BpfMap.forall_delete (P := fun v : LockEvent => (kindOf v.type).isSome = true) h key

theorem Typed.recordLockEnter (h : Typed s) {type : Int} (htype : (kindOf type).isSome = true)
    (current : Task) (lock now : UInt64) (rooms : Rooms) (slot : Option LockEvent) :
    Typed (recordLockEnter ro s current lock type now rooms slot).1 := by
  have hstored := h.store ⟨ro.targetPid, lock⟩
    (v := ⟨type, ro.targetPid, current.comm, lock, now, 0, 0⟩) htype
  unfold LockTool.recordLockEnter
  dsimp only
  split_ifs
  · cases slot <;> exact hstored
  · exact h
  · exact h
  · exact h

theorem Typed.recordLockExit (h : Typed s) (current : Task) (now : UInt64)
    (slot : Option LockEvent) : Typed (recordLockExit ro s current now slot).1 := by
  unfold LockTool.recordLockExit
  dsimp only
  split_ifs
  · split
    · exact h
    · split
      · exact h
      next p hp _ v hv =>
        have hstored := h.store ⟨ro.targetPid, p⟩ (v := { v with lockTime := now }) (h _ v hv)
        cases slot <;> exact hstored
  · exact h

theorem Typed.recordUnlockEnter (h : Typed s) (current : Task) (lock : UInt64) (rooms : Rooms) :
    Typed (recordUnlockEnter ro s current lock rooms) := by
  unfold LockTool.recordUnlockEnter
  dsimp only
  split_ifs <;> exact h

theorem Typed.recordUnlockExit (h : Typed s) (current : Task) (now : UInt64)
    (slot : Option LockEvent) : Typed (recordUnlockExit ro s current now slot).1 := by
  unfold LockTool.recordUnlockExit
  dsimp only
  split_ifs
  · split
    · exact h
    · split
      · exact h
      next p hp _ v hv =>
        cases slot with
        | none => exact h.store ⟨ro.targetPid, p⟩ (v := { v with unlockTime := now }) (h _ v hv)
        | some old => exact h.delete ⟨ro.targetPid, p⟩
  · exact h

theorem Typed.step (h : Typed s) : Typed (step ro s e).1 := by
  cases e with
  | enter f current lock now rooms slot =>
    simp only [LockTool.step]
    split
    · split
      next type huse => exact h.recordLockEnter (kindOf_locks huse) current lock now rooms slot
      next => exact h.recordUnlockEnter current lock rooms
    · exact h
  | exit f current now slot =>
    simp only [LockTool.step]
    split
    · split
      · exact h.recordLockExit current now slot
      · exact h.recordUnlockExit current now slot
    · exact h

theorem typed (ro : Rodata) (tr : List Event) : Typed ((machine ro).exec tr) := by
  induction tr using List.reverseRecOn with
  | nil =>
    intro key e h
    cases h
  | append_singleton pre e ih =>
    rw [Machine.exec_snoc]
    exact ih.step

/-- The lines of the records of one event. -/
theorem handleEvent_unlockTime {v : LockEvent} (h : (kindOf v.type).isSome = true) :
    ([v].filterMap handleEvent).map Line.unlockTime = [v.unlockTime] := by
  obtain ⟨c, hc⟩ := Option.isSome_iff_exists.mp h
  simp [handleEvent, hc]

/-- The records of a request and of a lock show the memory as the time of an unlock. -/
theorem unwritten_shown (ht : Typed s) (h : Unwritten ro s e) :
    ((step ro s (e.fill mem)).2.filterMap handleEvent).map Line.unlockTime = [mem.unlockTime] := by
  cases e with
  | enter f current lock now rooms slot =>
    obtain ⟨hen, huse, hcur, hproc, hlock, hslot⟩ := h
    obtain ⟨old, rfl⟩ := Option.isSome_iff_exists.mp hslot
    cases hf : f.traced.use with
    | unlocks => exact absurd hf huse
    | locks type =>
      simp only [Event.fill, Option.map_some, step, hen, hf, recordLockEnter, hcur, hproc, hlock,
        if_true]
      exact handleEvent_unlockTime (kindOf_locks hf)
  | exit f current now slot =>
    obtain ⟨hen, huse, hcur, hslot, p, hp, hl⟩ := h
    obtain ⟨old, rfl⟩ := Option.isSome_iff_exists.mp hslot
    obtain ⟨v, hv⟩ := Option.isSome_iff_exists.mp hl
    cases hf : f.traced.use with
    | unlocks => exact absurd hf huse
    | locks type =>
      simp only [Event.fill, Option.map_some, step, hen, hf, recordLockExit, hcur,
        Option.mem_def.mp hp, hv, if_true]
      exact handleEvent_unlockTime (ht _ v hv)

end Kinds

theorem readSame_iff (ro : Rodata) (tr : List Event) :
    (machine ro).ReadSame Event.blank handleEvent tr ↔
      Throughout (fun pre e => ¬ Unwritten ro ((machine ro).exec pre) e) tr := by
  have hne : LockEvent.unlockTime ⟨0, 0, Comm.none, 0, 0, 0, 0⟩ ≠
      LockEvent.unlockTime ⟨0, 0, Comm.none, 0, 0, 0, 1⟩ := by decide
  apply Machine.readSame_iff_of_shown LockEvent.unlockTime hne (fun _ _ => blank_eq_iff)
    (fun _ _ _ => step_fill_fst) (fun _ _ _ => step_fill_snd)
  intro pre e mem h
  exact unwritten_shown (typed ro pre) h

end LockTool

namespace NewlifeImage

/-- The same event, with other memory behind its reservation. -/
def Event.fill (mem : NewlifeEvent) : Event → Event
  | .forkExit current ret now room slot => .forkExit current ret now room (slot.map fun _ => mem)
  | .vforkExit current ret now room slot => .vforkExit current ret now room (slot.map fun _ => mem)
  | .sysEnterExitGroup current now slot => .sysEnterExitGroup current now (slot.map fun _ => mem)
  | .sysExitClone3 current newThread now room slot =>
    .sysExitClone3 current newThread now room (slot.map fun _ => mem)
  | .sysEnterExit current now slot => .sysEnterExit current now (slot.map fun _ => mem)

/-- What is left of an event without the memory. -/
def Event.blank : Event → Event := Event.fill ⟨0, 0, 0, 0⟩

/-- The event sends the record of a beginning, whose `exit` is not written. -/
def Unwritten (ro : Rodata) (s : State) : Event → Prop
  | .forkExit current ret _ room slot =>
    ro.enableFork = true ∧ ret = 0 ∧ s.newstart.accepts room ⟨ro.targetPid, current⟩ = true ∧
      slot.isSome = true
  | .vforkExit current ret _ room slot =>
    ro.enableVfork = true ∧ ret = 0 ∧ s.newstart.accepts room ⟨ro.targetPid, current⟩ = true ∧
      slot.isSome = true
  | .sysExitClone3 current newThread _ room slot =>
    ro.enableNewthread = true ∧ current = ro.targetPid ∧ 0 < newThread ∧
      s.newstart.accepts room ⟨ro.targetPid, newThread⟩ = true ∧ slot.isSome = true
  | .sysEnterExitGroup .. | .sysEnterExit .. => False

/-- The `exit` of the record that a line shows. -/
def Line.exit : Line → UInt64
  | .starts .. => 0
  | .exits _ _ _ exit _ => exit

section Fill

variable {ro : Rodata} {s : State} {e e' : Event} {mem : NewlifeEvent}

theorem blank_eq_iff : e'.blank = e.blank ↔ ∃ mem, e' = e.fill mem := by
  cases e <;> cases e' <;> simp [Event.blank, Event.fill, map_const_eq_iff]

theorem newlifeCreate_fst (flag newlifePid : Int) (now : UInt64) (room : Bool)
    (slot : Option NewlifeEvent) :
    (newlifeCreate ro s flag newlifePid now room (slot.map fun _ => mem)).1 =
      (newlifeCreate ro s flag newlifePid now room slot).1 := by
  simp only [newlifeCreate]
  split_ifs
  · cases slot <;> rfl
  · rfl

/-- Without a record there is nothing to be left in it. -/
theorem newlifeCreate_snd {flag newlifePid : Int} {now : UInt64} {room : Bool}
    {slot : Option NewlifeEvent}
    (h : ¬ (s.newstart.accepts room ⟨ro.targetPid, newlifePid⟩ = true ∧ slot.isSome = true)) :
    (newlifeCreate ro s flag newlifePid now room (slot.map fun _ => mem)).2 =
      (newlifeCreate ro s flag newlifePid now room slot).2 := by
  simp only [newlifeCreate]
  split_ifs with hroom
  · cases slot with
    | none => rfl
    | some old => exact absurd ⟨hroom, rfl⟩ h
  · rfl

/-- The record of an end is built anew. -/
theorem newlifeExit_fill (current : Int) (now : UInt64) (slot : Option NewlifeEvent) :
    newlifeExit ro s current now (slot.map fun _ => mem) = newlifeExit ro s current now slot := by
  cases slot <;> rfl

/-- The memory does not get into the map. -/
theorem step_fill_fst : (step ro s (e.fill mem)).1 = (step ro s e).1 := by
  cases e with
  | forkExit current ret now room slot =>
    simp only [Event.fill, step, forkExit, apply_ite Prod.fst, newlifeCreate_fst]
  | vforkExit current ret now room slot =>
    simp only [Event.fill, step, vforkExit, apply_ite Prod.fst, newlifeCreate_fst]
  | sysEnterExitGroup current now slot =>
    simp only [Event.fill, step, sysEnterExitGroup, newlifeExit_fill]
  | sysExitClone3 current newThread now room slot =>
    simp only [Event.fill, step, sysExitClone3, apply_ite Prod.fst, newlifeCreate_fst]
  | sysEnterExit current now slot =>
    simp only [Event.fill, step, sysEnterExit, newlifeExit_fill]

/-- A record with all fields written is the same with any memory. -/
theorem step_fill_snd (h : ¬ Unwritten ro s e) :
    (step ro s (e.fill mem)).2 = (step ro s e).2 := by
  cases e with
  | forkExit current ret now room slot =>
    simp only [Event.fill, step, forkExit]
    split_ifs with hen hret
    · rfl
    · exact newlifeCreate_snd fun hsent => h ⟨hen, not_not.mp hret, hsent⟩
    · rfl
  | vforkExit current ret now room slot =>
    simp only [Event.fill, step, vforkExit]
    split_ifs with hen hret
    · rfl
    · exact newlifeCreate_snd fun hsent => h ⟨hen, not_not.mp hret, hsent⟩
    · rfl
  | sysEnterExitGroup current now slot =>
    simp only [Event.fill, step, sysEnterExitGroup, newlifeExit_fill]
  | sysExitClone3 current newThread now room slot =>
    simp only [Event.fill, step, sysExitClone3]
    split_ifs with hen hcur hpos
    · rfl
    · exact newlifeCreate_snd fun hsent => h ⟨hen, hcur, not_le.mp hpos, hsent⟩
    · rfl
    · rfl
  | sysEnterExit current now slot =>
    simp only [Event.fill, step, sysEnterExit, newlifeExit_fill]

/-- The line of one record shows its `exit`. -/
theorem handleEvent_exit {v : NewlifeEvent} (h : (kindOf v.flag).isSome = true) :
    ([v].filterMap handleEvent).map Line.exit = [v.exit] := by
  obtain ⟨c, hc⟩ := Option.isSome_iff_exists.mp h
  by_cases hexit : v.exit = 0
  · simp [handleEvent, hc, hexit, Line.exit]
  · simp [handleEvent, hc, hexit, Line.exit]

/-- The record of a beginning shows the memory as the time of an exit. -/
theorem newlifeCreate_shown {flag : Int} (hflag : (kindOf flag).isSome = true) {newlifePid : Int}
    {now : UInt64} {room : Bool}
    (hroom : s.newstart.accepts room ⟨ro.targetPid, newlifePid⟩ = true) :
    ((newlifeCreate ro s flag newlifePid now room (some mem)).2.filterMap handleEvent).map
      Line.exit = [mem.exit] := by
  rw [newlifeCreate, if_pos hroom]
  exact handleEvent_exit hflag

theorem unwritten_shown (h : Unwritten ro s e) :
    ((step ro s (e.fill mem)).2.filterMap handleEvent).map Line.exit = [mem.exit] := by
  cases e with
  | forkExit current ret now room slot =>
    obtain ⟨hen, rfl, hroom, hslot⟩ := h
    obtain ⟨old, rfl⟩ := Option.isSome_iff_exists.mp hslot
    simp only [Event.fill, Option.map_some, step, forkExit, hen, if_true, ne_eq, not_true,
      if_false]
    exact newlifeCreate_shown rfl hroom
  | vforkExit current ret now room slot =>
    obtain ⟨hen, rfl, hroom, hslot⟩ := h
    obtain ⟨old, rfl⟩ := Option.isSome_iff_exists.mp hslot
    simp only [Event.fill, Option.map_some, step, vforkExit, hen, if_true, ne_eq, not_true,
      if_false]
    exact newlifeCreate_shown rfl hroom
  | sysEnterExitGroup current now slot => exact absurd h id
  | sysExitClone3 current newThread now room slot =>
    obtain ⟨hen, rfl, hpos, hroom, hslot⟩ := h
    obtain ⟨old, rfl⟩ := Option.isSome_iff_exists.mp hslot
    simp only [Event.fill, Option.map_some, step, sysExitClone3, hen, if_true, not_le.mpr hpos,
      if_false]
    exact newlifeCreate_shown rfl hroom
  | sysEnterExit current now slot => exact absurd h id

end Fill

theorem readSame_iff (ro : Rodata) (tr : List Event) :
    (machine ro).ReadSame Event.blank handleEvent tr ↔
      Throughout (fun pre e => ¬ Unwritten ro ((machine ro).exec pre) e) tr := by
  have hne : NewlifeEvent.exit ⟨0, 0, 0, 0⟩ ≠ NewlifeEvent.exit ⟨0, 0, 0, 1⟩ := by decide
  exact Machine.readSame_iff_of_shown NewlifeEvent.exit hne (fun _ _ => blank_eq_iff)
    (fun _ _ _ => step_fill_fst) (fun _ _ _ => step_fill_snd) (fun _ _ _ => unwritten_shown) tr

end NewlifeImage

/-- What the two tools print does not depend on what was in the reserved memory exactly when no
request, no lock and no beginning is recorded. -/
theorem memory_unseen_iff (lockRo : LockTool.Rodata) (lockTr : List LockTool.Event)
    (newlifeRo : NewlifeImage.Rodata) (newlifeTr : List NewlifeImage.Event) :
    ((LockTool.machine lockRo).ReadSame LockTool.Event.blank LockTool.handleEvent lockTr ↔
      Throughout (fun pre e => ¬ LockTool.Unwritten lockRo ((LockTool.machine lockRo).exec pre) e)
        lockTr) ∧
    ((NewlifeImage.machine newlifeRo).ReadSame NewlifeImage.Event.blank NewlifeImage.handleEvent
        newlifeTr ↔
      Throughout (fun pre e =>
        ¬ NewlifeImage.Unwritten newlifeRo ((NewlifeImage.machine newlifeRo).exec pre) e)
        newlifeTr) :=
  ⟨LockTool.readSame_iff lockRo lockTr, NewlifeImage.readSame_iff newlifeRo newlifeTr⟩

/-- A request of the mutex 7 at time 100, and a child that begins at time 100, after a record with a
time of an unlock and of an exit. -/
theorem memory_seen :
    ¬ (LockTool.machine ⟨5, true, false, false, false⟩).ReadSame LockTool.Event.blank
        LockTool.handleEvent [.enter .pthreadMutexLock ⟨5, Comm.none⟩ 7 100 ⟨true, true, true⟩
          (some ⟨1, 5, Comm.none, 3, 60, 70, 90⟩)] ∧
      ¬ (NewlifeImage.machine ⟨5, true, false, false⟩).ReadSame NewlifeImage.Event.blank
          NewlifeImage.handleEvent [.forkExit 6 0 100 true (some ⟨1, 8, 60, 90⟩)] := by
  constructor
  · intro h
    have hsame := h [.enter .pthreadMutexLock ⟨5, Comm.none⟩ 7 100 ⟨true, true, true⟩
      (some ⟨0, 0, Comm.none, 0, 0, 0, 0⟩)] rfl
    exact absurd hsame (by decide)
  · intro h
    have hsame := h [.forkExit 6 0 100 true (some ⟨0, 0, 0, 0⟩)] rfl
    exact absurd hsame (by decide)

end CpuSubsystem
