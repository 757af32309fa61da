import CpuSubsystem.ProcImage.LockImage.Model

/-!
# What the four helpers do

One equation for each way through a helper.
-/

namespace CpuSubsystem.LockImage

/-- The result of a successful call on a reader-writer lock is remembered in `locktype`. -/
def typed (lockStatus ret : Int) : Bool := (lockStatus == 5 || lockStatus == 8) && ret == 0

theorem typed_iff {lockStatus ret : Int} :
    typed lockStatus ret = true ↔ (lockStatus = 5 ∨ lockStatus = 8) ∧ ret = 0 := by
  simp [typed]

/-- What is stored there. -/
def holdType (lockStatus : Int) : Int := if lockStatus = 5 then 1 else 2

variable (ro : Rodata) (s : State) (cur : Task) (now : UInt64) (room : Bool)
  (slot : Option LockEvent) (lockStatus flag ret : Int) (lock : UInt64)

section Untraced

variable {ro s cur} (h : traced ro s.lockCtrlMap cur = false)

include h

theorem recordLockEnter_untraced :
    recordLockEnter ro s cur now room slot lockStatus flag lock = (s, []) := by
  rw [recordLockEnter, h, if_neg Bool.false_ne_true]

theorem recordLockExit_untraced :
    recordLockExit ro s cur now room slot lockStatus flag ret = (s, []) := by
  rw [recordLockExit, h, if_neg Bool.false_ne_true]

theorem recordUnlockExit_untraced :
    recordUnlockExit ro s cur now slot lockStatus flag = (s, []) := by
  rw [recordUnlockExit, h, if_neg Bool.false_ne_true]

end Untraced

section Traced

variable {ro s cur} (h : traced ro s.lockCtrlMap cur = true)

include h

theorem recordLockEnter_traced :
    recordLockEnter ro s cur now room slot lockStatus flag lock =
      ({ s with procLock := s.procLock.update room ⟨cur.pid, flag⟩ lock },
        if s.procLock.accepts room ⟨cur.pid, flag⟩ then
          (slot.map fun mem => mem.fill s.lockCtrlMap cur lockStatus lock now).toList
        else []) := by
  rw [recordLockEnter, if_pos h, BpfMap.update]
  split <;> rfl

theorem recordUnlockEnter_traced :
    recordUnlockEnter ro s cur room flag lock =
      { s with procUnlock := s.procUnlock.update room ⟨cur.pid, flag⟩ lock } := by
  rw [recordUnlockEnter, if_pos h]

variable {flag}

/-- The entry probe left nothing. -/
theorem recordLockExit_of_none (hl : s.procLock.lookup ⟨cur.pid, flag⟩ = none) :
    recordLockExit ro s cur now room slot lockStatus flag ret = (s, []) := by
  rw [recordLockExit, if_pos h, hl]

theorem recordLockExit_of_some {p : UInt64} (hl : s.procLock.lookup ⟨cur.pid, flag⟩ = some p) :
    recordLockExit ro s cur now room slot lockStatus flag ret =
      ({ s with
          procLock := s.procLock.delete ⟨cur.pid, flag⟩
          locktype :=
            if typed lockStatus ret then s.locktype.update room p (holdType lockStatus)
            else s.locktype },
        if typed lockStatus ret && !s.locktype.accepts room p then []
        else (slot.map fun mem =>
          { mem.fill s.lockCtrlMap cur lockStatus p now with ret := ret }).toList) := by
  rw [recordLockExit, if_pos h, hl]
  cases ht : typed lockStatus ret with
  | false =>
    have hneg : ¬((lockStatus = 5 ∨ lockStatus = 8) ∧ ret = 0) := by
      rw [← typed_iff, ht]
      exact Bool.false_ne_true
    simp only [if_neg hneg, Bool.false_and, Bool.false_eq_true, if_false]
  | true =>
    have hpos : (lockStatus = 5 ∨ lockStatus = 8) ∧ ret = 0 := typed_iff.mp ht
    simp only [if_pos hpos, Bool.true_and, if_true]
    cases ha : s.locktype.accepts room p with
    | true => simp [BpfMap.update_of_accepts _ ha, holdType]
    | false => simp [BpfMap.update_of_not_accepts _ ha]

theorem recordUnlockExit_of_none (hl : s.procUnlock.lookup ⟨cur.pid, flag⟩ = none) :
    recordUnlockExit ro s cur now slot lockStatus flag = (s, []) := by
  rw [recordUnlockExit, if_pos h, hl]

variable {p : UInt64} (hl : s.procUnlock.lookup ⟨cur.pid, flag⟩ = some p)

include hl

/-- The status of mutexes and spin locks is known beforehand. -/
theorem recordUnlockExit_of_ne_zero (hs : lockStatus ≠ 0) :
    recordUnlockExit ro s cur now slot lockStatus flag =
      ({ s with procUnlock := s.procUnlock.delete ⟨cur.pid, flag⟩ },
        (slot.map fun mem => mem.fill s.lockCtrlMap cur lockStatus p now).toList) := by
  rw [recordUnlockExit, if_pos h, hl]
  simp only [if_neg hs]

/-- A reader-writer lock that no acquisition is remembered for: no record. -/
theorem recordUnlockExit_of_untyped (ht : s.locktype.lookup p = none) :
    recordUnlockExit ro s cur now slot 0 flag =
      ({ s with procUnlock := s.procUnlock.delete ⟨cur.pid, flag⟩ }, []) := by
  rw [recordUnlockExit, if_pos h, hl]
  simp only [if_true, ht]

theorem recordUnlockExit_of_typed {type : Int} (ht : s.locktype.lookup p = some type) :
    recordUnlockExit ro s cur now slot 0 flag =
      ({ s with
          procUnlock := s.procUnlock.delete ⟨cur.pid, flag⟩
          locktype := s.locktype.delete p },
        (slot.map fun mem => mem.fill s.lockCtrlMap cur
          (if type = 1 then 6 else if type = 2 then 9 else 0) p now).toList) := by
  rw [recordUnlockExit, if_pos h, hl]
  simp only [if_true, ht]

end Traced

end CpuSubsystem.LockImage
