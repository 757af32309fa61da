import CpuSubsystem.ProcImage.LockImage.Threads

/-!
# Records of the unlocks of reader-writer locks

`locktype` has one entry for each address, whoever holds the lock there and in whichever process: a
successful call writes it, and the first unlock that returns removes it.  A second reader's unlock
finds nothing, an unlock that returns late finds the hold of the next thread, and the locks that two
processes have at one address are taken for each other.
-/

namespace CpuSubsystem.LockImage

open Locks

/-- `rdlock_unlock` or `wrlock_unlock`. -/
def unlockStatus : Mode → Int
  | .shared => 6
  | .exclusive => 9

/-- How the thread that is giving back a lock held it. -/
def heldMode (t : Int) (tr : List Occurrence) : Option Mode :=
  match world tr with
  | none => none
  | some w =>
    match w.phase t with
    | .unlocking _ m _ => some m
    | _ => none

/-- Status, thread and lock of what is emitted. -/
def outcome (ro : Rodata) (c : LockCtrl) (pre : List Occurrence) (o : Occurrence) :
    List (Int × Int × UInt64) :=
  ((observed ro c).emits pre o).map fun r => (r.lockStatus, r.pid, r.lockPtr)

/-- A completed unlock yields one record, of the hold that ended. -/
def UnlockReported (ro : Rodata) (c : LockCtrl) (pre : List Occurrence) : Occurrence → Prop
  | .unlockReturn .pthreadRwlockUnlock cur lock now mem =>
      ∀ m ∈ heldMode cur.pid pre,
        outcome ro c pre (.unlockReturn .pthreadRwlockUnlock cur lock now mem) =
          [(unlockStatus m, cur.pid, lock)]
  | _ => True

/-- At a completed unlock, the latest return of a call on a lock at that address is a successful one
that took it in the mode of the thread that unlocks. -/
def LatestIsHeld (pre : List Occurrence) : Occurrence → Prop
  | .unlockReturn .pthreadRwlockUnlock cur lock _ _ =>
      ∀ m ∈ heldMode cur.pid pre, latestHold lock pre = some m
  | _ => True

variable {ro : Rodata} {c : LockCtrl} {pre : List Occurrence} {o : Occurrence}

/-- What `pthread_rwlock_unlock` yields, whoever calls it. -/
theorem outcome_rwlock {cur : Task} {lock now : UInt64} {mem : LockEvent}
    (hs : AllSelected ro c (pre ++ [Occurrence.unlockReturn .pthreadRwlockUnlock cur lock now mem]))
    (hw : Correct (pre ++ [Occurrence.unlockReturn .pthreadRwlockUnlock cur lock now mem])) :
    outcome ro c pre (.unlockReturn .pthreadRwlockUnlock cur lock now mem) =
      ((latestHold lock pre).map fun m => (unlockStatus m, cur.pid, lock)).toList := by
  obtain ⟨w, w', -, hstep, -, htr, htracks⟩ := step_facts hs hw
  obtain ⟨m, hp, -⟩ := World.step_cases hstep
  have ht : traced ro c cur = true := htr
  have hout : (observed ro c).emits pre (.unlockReturn .pthreadRwlockUnlock cur lock now mem) =
      (step ro ((observed ro c).exec pre)
        (.unlockExit .pthreadRwlockUnlock cur now (some mem))).2 := rfl
  rw [outcome, hout, htracks.unlockExit_rwlock ht hp]
  cases latestHold lock pre with
  | none => rfl
  | some m' => cases m' <;> rfl

theorem unlockStatus_inj {m m' : Mode} (h : unlockStatus m = unlockStatus m') : m = m' := by
  cases m <;> cases m' <;> first | rfl | exact absurd h (by decide)

/-- One unlock is reported right exactly when the latest hold is the one that ends. -/
theorem unlockReported_iff (hs : AllSelected ro c (pre ++ [o])) (hw : Correct (pre ++ [o])) :
    UnlockReported ro c pre o ↔ LatestIsHeld pre o := by
  cases o with
  | lockCall f cur lock now mem => exact Iff.rfl
  | acquire cur => exact Iff.rfl
  | lockReturn f cur lock ret now mem => exact Iff.rfl
  | unlockCall g cur lock => exact Iff.rfl
  | release cur => exact Iff.rfl
  | unlockReturn g cur lock now mem =>
    cases g with
    | pthreadMutexUnlock => exact Iff.rfl
    | pthreadSpinUnlock => exact Iff.rfl
    | pthreadRwlockUnlock =>
      apply forall₂_congr
      intro m _
      rw [outcome_rwlock hs hw]
      cases latestHold lock pre with
      | none => simp
      | some m' =>
        simp only [Option.map_some, Option.toList_some, List.cons.injEq, Prod.mk.injEq, and_true,
          Option.some.injEq]
        exact ⟨unlockStatus_inj, congrArg unlockStatus⟩

/-- In every run of threads that use their locks correctly, with every thread selected and nothing
refused. -/
theorem unlocks_reported_iff (ro : Rodata) (c : LockCtrl) (tr : List Occurrence)
    (hs : AllSelected ro c tr) (hw : Correct tr) :
    Throughout (UnlockReported ro c) tr ↔ Throughout LatestIsHeld tr := by
  constructor
  · intro h pre o hp
    exact (unlockReported_iff (hs.restrict hp) (hw.restrict hp)).mp (h pre o hp)
  · intro h pre o hp
    exact (unlockReported_iff (hs.restrict hp) (hw.restrict hp)).mpr (h pre o hp)

section Readers

instance (ro : Rodata) (c : LockCtrl) (pre : List Occurrence) :
    ∀ o, Decidable (UnlockReported ro c pre o)
  | .unlockReturn .pthreadRwlockUnlock .. =>
      @Option.decidableForallMem _ _ (fun _ => inferInstance) _
  | .unlockReturn .pthreadMutexUnlock .. | .unlockReturn .pthreadSpinUnlock .. => isTrue trivial
  | .lockCall .. | .acquire _ | .lockReturn .. | .unlockCall .. | .release _ => isTrue trivial

instance (pre : List Occurrence) : ∀ o, Decidable (LatestIsHeld pre o)
  | .unlockReturn .pthreadRwlockUnlock .. =>
      @Option.decidableForallMem _ _ (fun _ => inferInstance) _
  | .unlockReturn .pthreadMutexUnlock .. | .unlockReturn .pthreadSpinUnlock .. => isTrue trivial
  | .lockCall .. | .acquire _ | .lockReturn .. | .unlockCall .. | .release _ => isTrue trivial

/-- A thread takes the reader-writer lock that its process has at 64. -/
def takesRwlock (f : LockFn) (cur : Task) : List Occurrence :=
  [.lockCall f cur 64 0 .zero, .acquire cur, .lockReturn f cur 64 0 0 .zero]

def givesRwlock (cur : Task) : List Occurrence :=
  [.unlockCall .pthreadRwlockUnlock cur 64, .release cur,
    .unlockReturn .pthreadRwlockUnlock cur 64 0 .zero]

def turns : List Occurrence :=
  takesRwlock .pthreadRwlockRdlock ⟨5, 4⟩ ++ givesRwlock ⟨5, 4⟩ ++
    takesRwlock .pthreadRwlockWrlock ⟨6, 4⟩ ++ givesRwlock ⟨6, 4⟩

def twoReaders : List Occurrence :=
  takesRwlock .pthreadRwlockRdlock ⟨5, 4⟩ ++ takesRwlock .pthreadRwlockRdlock ⟨6, 4⟩ ++
    givesRwlock ⟨5, 4⟩ ++ givesRwlock ⟨6, 4⟩

/-- A writer of process 4 and a reader of process 7, each at a lock of its own. -/
def twoProcesses : List Occurrence :=
  takesRwlock .pthreadRwlockWrlock ⟨5, 4⟩ ++ takesRwlock .pthreadRwlockRdlock ⟨6, 7⟩ ++
    givesRwlock ⟨5, 4⟩ ++ givesRwlock ⟨6, 7⟩

theorem unlocks_reported_turns : Throughout (UnlockReported ⟨1⟩ .all) turns :=
  (unlocks_reported_iff ⟨1⟩ .all turns (by decide) (by decide +kernel)).mpr (by decide +kernel)

/-- The second of two readers gives its hold back, and nothing is emitted.  With locks of two
processes at one address, the writer's unlock is reported as a reader's and the other one not at
all. -/
theorem second_reader_unreported :
    (AllSelected ⟨1⟩ .all twoReaders ∧ Correct twoReaders ∧
      ¬Throughout (UnlockReported ⟨1⟩ .all) twoReaders ∧
      (observed ⟨1⟩ .all).emits (twoReaders.take 11)
        (.unlockReturn .pthreadRwlockUnlock ⟨6, 4⟩ 64 0 .zero) = []) ∧
    AllSelected ⟨1⟩ .all twoProcesses ∧ Correct twoProcesses ∧
    outcome ⟨1⟩ .all (twoProcesses.take 8)
      (.unlockReturn .pthreadRwlockUnlock ⟨5, 4⟩ 64 0 .zero) = [(6, 5, 64)] ∧
    outcome ⟨1⟩ .all (twoProcesses.take 11)
      (.unlockReturn .pthreadRwlockUnlock ⟨6, 7⟩ 64 0 .zero) = [] := by
  refine ⟨⟨?_, ?_, ?_, ?_⟩, ?_, ?_, ?_, ?_⟩ <;> decide +kernel

end Readers

end CpuSubsystem.LockImage
