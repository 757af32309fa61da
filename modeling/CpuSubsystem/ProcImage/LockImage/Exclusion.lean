import CpuSubsystem.ProcImage.LockImage.RwLocks

/-!
# Mutual exclusion as the records show it

A mutex changes hands inside the calls, and the records are emitted when the calls return.  The
thread that took the mutex can return, and its record be emitted, before the unlock that freed the
mutex has returned.  A record names the mutex by its address, where another process has a mutex of
its own.
-/

namespace CpuSubsystem.LockImage

open Locks

variable (ro : Rodata) (c : LockCtrl)

/-- Thread `cur` is reported to have locked the mutex at `p`. -/
def ReportsLock (pre : List Occurrence) (o : Occurrence) (cur : Task) (p : UInt64) : Prop :=
  o.cur = cur ∧
    ∃ r ∈ (observed ro c).emits pre o, r.lockStatus = 2 ∧ r.ret = 0 ∧ r.pid = cur.pid ∧ r.lockPtr = p

/-- Thread `cur` is reported to have unlocked the mutex at `p`. -/
def ReportsUnlock (pre : List Occurrence) (o : Occurrence) (cur : Task) (p : UInt64) : Prop :=
  o.cur = cur ∧
    ∃ r ∈ (observed ro c).emits pre o, r.lockStatus = 3 ∧ r.pid = cur.pid ∧ r.lockPtr = p

/-- That is reported after `pre₁` and not later than `pre₂`. -/
def UnlockBetween (pre₁ pre₂ : List Occurrence) (cur : Task) (p : UInt64) : Prop :=
  ∃ pre o, pre₁ <+: pre ∧ pre ++ [o] <+: pre₂ ∧ ReportsUnlock ro c pre o cur p

/-- `cur` has called `pthread_mutex_unlock` on `p` and not returned. -/
def InsideUnlock (pre : List Occurrence) (cur : Task) (p : UInt64) : Prop :=
  ∃ w, world pre = some w ∧ w.Leaving cur.pid ⟨cur.tgid, 1, p⟩

/-- The mutexes that two threads have at one address are one and the same. -/
def SameProcess (cur₁ cur₂ : Task) : Prop := cur₁.tgid = cur₂.tgid

/-- What holds between two reports of a mutex at the same address, by threads that are so related. -/
def BetweenLocks (R : Task → Task → Prop)
    (P : List Occurrence → List Occurrence → Task → UInt64 → Prop) (tr : List Occurrence) : Prop :=
  ∀ pre₁ o₁ pre₂ o₂ cur₁ cur₂ p, pre₁ ++ [o₁] <+: pre₂ → pre₂ ++ [o₂] <+: tr → R cur₁ cur₂ →
    ReportsLock ro c pre₁ o₁ cur₁ p → ReportsLock ro c pre₂ o₂ cur₂ p →
    P (pre₁ ++ [o₁]) pre₂ cur₁ p

/-- A completed unlock of a mutex yields one record. -/
def MutexUnlockReported (pre : List Occurrence) : Occurrence → Prop
  | .unlockReturn .pthreadMutexUnlock cur lock now mem =>
      outcome ro c pre (.unlockReturn .pthreadMutexUnlock cur lock now mem) =
        [(3, cur.pid, lock)]
  | _ => True

variable {ro c} {pre : List Occurrence} {o : Occurrence} {cur : Task} {p : UInt64}

/-- A mutex-lock record is emitted at the return of a call that takes a mutex. -/
theorem ReportsLock.action (h : ReportsLock ro c pre o cur p) (hs : AllSelected ro c (pre ++ [o]))
    (hw : Correct (pre ++ [o])) :
    o.action = .lockReturn cur.pid ⟨cur.tgid, 1, p⟩ .exclusive true := by
  obtain ⟨rfl, r, hr, hstatus, hret, -, rfl⟩ := h
  obtain ⟨w, w', -, hstep, -, ht, htracks⟩ := step_facts hs hw
  have hcases := World.step_cases hstep
  generalize hexec : (observed ro c).exec pre = s at htracks
  have hemits : (observed ro c).emits pre o = ((observed ro c).step s o).2 := by
    rw [← hexec]
    rfl
  rw [hemits] at hr
  -- the status 2 is that of `pthread_mutex_lock` alone
  cases o with
  | lockCall f cur lock now mem =>
    have hnot : f.reqStatus ≠ 2 := by cases f <;> decide
    have htr : traced ro s.lockCtrlMap cur = true := htracks.ctrl ▸ ht
    change r ∈ (step ro s (.lockEnter f cur lock now true (some mem))).2 at hr
    rw [step_lockEnter, recordLockEnter_traced now true (some mem) _ _ lock htr,
      BpfMap.accepts_true, if_pos rfl] at hr
    rw [List.mem_singleton.mp hr] at hstatus
    exact absurd hstatus hnot
  | acquire cur => cases hr
  | lockReturn f cur lock ret now mem =>
    obtain ⟨hp, -⟩ := hcases
    have htr : traced ro c cur = true := ht
    change r ∈ (step ro s (.lockExit f cur ret now true (some mem))).2 at hr
    rw [htracks.lockExit htr hp] at hr
    rw [List.mem_singleton.mp hr] at hstatus hret ⊢
    have hmutex : f.flag = 1 ∧ f.mode = .exclusive := by
      have hf : f.lockStatus = 2 := hstatus
      revert hf
      cases f <;> decide
    have hzero : (ret == 0) = true := beq_iff_eq.mpr hret
    show Locks.Action.lockReturn cur.pid (⟨cur.tgid, f.flag, lock⟩ : Lock) f.mode (ret == 0) = _
    rw [hmutex.1, hmutex.2, hzero]
    rfl
  | unlockCall g cur lock =>
    change r ∈ (step ro s (.unlockEnter g cur lock true)).2 at hr
    rw [step_unlockEnter] at hr
    cases hr
  | release cur => cases hr
  | unlockReturn g cur lock now mem =>
    obtain ⟨m, hp, -⟩ := hcases
    have htr : traced ro c cur = true := ht
    change r ∈ (step ro s (.unlockExit g cur now (some mem))).2 at hr
    by_cases hg : g.flag = 2
    · rw [hg] at hp
      rw [eq_pthreadRwlockUnlock hg, htracks.unlockExit_rwlock htr hp] at hr
      cases hold : latestHold lock pre with
      | none =>
        rw [hold] at hr
        cases hr
      | some m' =>
        rw [hold] at hr
        cases m' with
        | shared =>
          rw [List.mem_singleton.mp hr] at hstatus
          exact absurd hstatus (show (6 : Int) ≠ 2 by decide)
        | exclusive =>
          rw [List.mem_singleton.mp hr] at hstatus
          exact absurd hstatus (show (9 : Int) ≠ 2 by decide)
    · have hnot : g.lockStatus ≠ 2 := by cases g <;> decide
      rw [htracks.unlockExit_of_ne htr hp hg] at hr
      rw [List.mem_singleton.mp hr] at hstatus
      exact absurd hstatus hnot

theorem mutexUnlock_reported (hs : AllSelected ro c (pre ++ [o])) (hw : Correct (pre ++ [o])) :
    MutexUnlockReported ro c pre o := by
  cases o with
  | lockCall f cur lock now mem => trivial
  | acquire cur => trivial
  | lockReturn f cur lock ret now mem => trivial
  | unlockCall g cur lock => trivial
  | release cur => trivial
  | unlockReturn g cur lock now mem =>
    cases g with
    | pthreadRwlockUnlock => trivial
    | pthreadSpinUnlock => trivial
    | pthreadMutexUnlock =>
      obtain ⟨w, w', -, hstep, -, ht, htracks⟩ := step_facts hs hw
      obtain ⟨m, hp, -⟩ := World.step_cases hstep
      have htr : traced ro c cur = true := ht
      have hout : (observed ro c).emits pre (.unlockReturn .pthreadMutexUnlock cur lock now mem) =
          (step ro ((observed ro c).exec pre)
            (.unlockExit .pthreadMutexUnlock cur now (some mem))).2 := rfl
      show outcome ro c pre _ = _
      rw [outcome, hout, htracks.unlockExit_of_ne htr hp (by decide)]
      rfl

/-- The return of a mutex unlock is reported. -/
theorem reportsUnlock_of_action (ha : o.action = .unlockReturn cur.pid ⟨cur.tgid, 1, p⟩)
    (hs : AllSelected ro c (pre ++ [o])) (hw : Correct (pre ++ [o])) :
    ReportsUnlock ro c pre o cur p := by
  obtain ⟨pid, tgid⟩ := cur
  have hrep := mutexUnlock_reported hs hw
  cases o with
  | lockCall f cur lock now mem => cases ha
  | acquire cur => cases ha
  | lockReturn f cur lock ret now mem => cases ha
  | unlockCall g cur lock => cases ha
  | release cur => cases ha
  | unlockReturn g cur' lock now mem =>
    cases g with
    | pthreadRwlockUnlock => cases ha
    | pthreadSpinUnlock => cases ha
    | pthreadMutexUnlock =>
      cases ha
      have hmem : (3, cur'.pid, p) ∈ outcome ro c pre
          (.unlockReturn .pthreadMutexUnlock cur' p now mem) := by
        rw [show outcome ro c pre _ = _ from hrep]
        exact List.mem_singleton_self _
      obtain ⟨r, hr, heq⟩ := List.mem_map.mp hmem
      simp only [Prod.mk.injEq] at heq
      exact ⟨rfl, r, hr, heq.1, heq.2.1, heq.2.2⟩

/-- In every run of threads that use their locks correctly, with every thread selected and nothing
refused: before a mutex is reported locked again in its process, the unlock of the former owner is
reported, or that thread is still inside the call, whose return is reported as well. -/
theorem locks_separated (ro : Rodata) (c : LockCtrl) (tr : List Occurrence)
    (hs : AllSelected ro c tr) (hw : Correct tr) :
    BetweenLocks ro c SameProcess (fun pre₁ pre₂ cur p => UnlockBetween ro c pre₁ pre₂ cur p ∨
      InsideUnlock pre₂ cur p) tr ∧
    Throughout (MutexUnlockReported ro c) tr := by
  refine ⟨?_, fun pre o hp => mutexUnlock_reported (hs.restrict hp) (hw.restrict hp)⟩
  intro pre₁ o₁ pre₂ o₂ cur₁ cur₂ p h₁₂ h₂ hsame hl₁ hl₂
  have h₂' : pre₂ <+: tr := (List.prefix_append pre₂ [o₂]).trans h₂
  have h₁ : pre₁ ++ [o₁] <+: tr := h₁₂.trans h₂'
  -- the first report: from here on `cur₁` owns the mutex
  obtain ⟨w₁, w₁', hw₁, hstep₁, hworld₁, -⟩ := step_facts (hs.restrict h₁) (hw.restrict h₁)
  rw [hl₁.action (hs.restrict h₁) (hw.restrict h₁)] at hstep₁
  have howns := World.owns_of_lockReturn (sound_world hw₁) hstep₁
  -- the second one: a call of `cur₂` for the same mutex succeeds
  obtain ⟨w₂, w₂', hw₂, hstep₂, -⟩ := step_facts (hs.restrict h₂) (hw.restrict h₂)
  rw [hl₂.action (hs.restrict h₂) (hw.restrict h₂), ← show cur₁.tgid = cur₂.tgid from hsame]
    at hstep₂
  obtain ⟨mid, rfl⟩ := h₁₂
  have hrun : w₁'.run (mid.map Occurrence.action) = some w₂ := by
    rw [world, List.map_append, World.run_append] at hw₂
    rw [world] at hworld₁
    rw [hworld₁] at hw₂
    exact hw₂
  -- what has become of the ownership of `cur₁`
  rcases howns.run (sound_world hworld₁) hrun with hown | hleaving | hmem
  · rw [hown.no_lockReturn (sound_world hw₂)] at hstep₂
    cases hstep₂
  · exact Or.inr ⟨w₂, hw₂, hleaving⟩
  · left
    obtain ⟨o, ho, haction⟩ := List.mem_map.mp hmem
    obtain ⟨mid₁, mid₂, rfl⟩ := List.append_of_mem ho
    have hpre : pre₁ ++ [o₁] ++ mid₁ ++ [o] <+: pre₁ ++ [o₁] ++ (mid₁ ++ o :: mid₂) :=
      ⟨mid₂, by simp⟩
    have htr := hpre.trans h₂'
    exact ⟨pre₁ ++ [o₁] ++ mid₁, o, List.prefix_append _ _, hpre,
      reportsUnlock_of_action haction (hs.restrict htr) (hw.restrict htr)⟩

section Late

instance (pre : List Occurrence) (o : Occurrence) (cur : Task) (p : UInt64) :
    Decidable (ReportsLock ro c pre o cur p) :=
  inferInstanceAs (Decidable (_ ∧ ∃ r ∈ _, _))

instance (pre : List Occurrence) (o : Occurrence) (cur : Task) (p : UInt64) :
    Decidable (ReportsUnlock ro c pre o cur p) :=
  inferInstanceAs (Decidable (_ ∧ ∃ r ∈ _, _))

theorem not_unlockBetween {pre₁ pre₂ : List Occurrence} :
    ¬UnlockBetween ro c pre₁ pre₂ cur p ↔
      Throughout (fun pre o => pre₁ <+: pre → ¬ReportsUnlock ro c pre o cur p) pre₂ := by
  simp only [UnlockBetween, Throughout]
  grind

/-- A thread inside an unlock holds the lock that it gives back. -/
theorem InsideUnlock.heldMode (h : InsideUnlock pre cur p) : heldMode cur.pid pre ≠ none := by
  obtain ⟨w, hw, m, r, hp⟩ := h
  rw [LockImage.heldMode, hw]
  simp [hp]

/-- A thread takes the mutex that its process has at 64. -/
def locksMutex (cur : Task) : List Occurrence :=
  [.lockCall .pthreadMutexLock cur 64 0 .zero, .acquire cur,
    .lockReturn .pthreadMutexLock cur 64 0 0 .zero]

def unlocksMutex (cur : Task) : List Occurrence :=
  [.unlockCall .pthreadMutexUnlock cur 64, .release cur,
    .unlockReturn .pthreadMutexUnlock cur 64 0 .zero]

def oneAfterTheOther : List Occurrence :=
  locksMutex ⟨5, 4⟩ ++ unlocksMutex ⟨5, 4⟩ ++ locksMutex ⟨6, 4⟩ ++ unlocksMutex ⟨6, 4⟩

/-- Thread 6 returns with the mutex before thread 5 returns from its unlock. -/
def lateReturn : List Occurrence :=
  locksMutex ⟨5, 4⟩ ++ (unlocksMutex ⟨5, 4⟩).take 2 ++ locksMutex ⟨6, 4⟩ ++
    (unlocksMutex ⟨5, 4⟩).drop 2

/-- Threads of the processes 4 and 7, each with a mutex of its own. -/
def ownMutexes : List Occurrence := locksMutex ⟨5, 4⟩ ++ locksMutex ⟨6, 7⟩

theorem locks_separated_in_turn :
    BetweenLocks ⟨1⟩ .all SameProcess (fun pre₁ pre₂ cur p =>
      UnlockBetween ⟨1⟩ .all pre₁ pre₂ cur p ∨ InsideUnlock pre₂ cur p) oneAfterTheOther ∧
    Throughout (MutexUnlockReported ⟨1⟩ .all) oneAfterTheOther :=
  locks_separated ⟨1⟩ .all oneAfterTheOther (by decide) (by decide +kernel)

/-- Two mutex-lock records with result 0 and no unlock record between them: of one mutex, before the
unlock returns, and of the mutexes of two processes, with nobody inside an unlock. -/
theorem locks_before_unlock_return :
    (AllSelected ⟨1⟩ .all lateReturn ∧ Correct lateReturn ∧
      ¬BetweenLocks ⟨1⟩ .all SameProcess (UnlockBetween ⟨1⟩ .all) lateReturn) ∧
    AllSelected ⟨1⟩ .all ownMutexes ∧ Correct ownMutexes ∧
    ¬BetweenLocks ⟨1⟩ .all (fun _ _ => True) (fun pre₁ pre₂ cur p =>
      UnlockBetween ⟨1⟩ .all pre₁ pre₂ cur p ∨ InsideUnlock pre₂ cur p) ownMutexes := by
  refine ⟨⟨by decide, by decide +kernel, ?_⟩, by decide, by decide +kernel, ?_⟩
  · intro h
    have hbetween := h (lateReturn.take 2)
      (.lockReturn .pthreadMutexLock ⟨5, 4⟩ 64 0 0 .zero) (lateReturn.take 7)
      (.lockReturn .pthreadMutexLock ⟨6, 4⟩ 64 0 0 .zero) ⟨5, 4⟩ ⟨6, 4⟩ 64
      (by decide) (by decide) rfl (by decide +kernel) (by decide +kernel)
    apply not_unlockBetween.mpr _ hbetween
    decide +kernel
  · intro h
    rcases h (ownMutexes.take 2)
      (.lockReturn .pthreadMutexLock ⟨5, 4⟩ 64 0 0 .zero) (ownMutexes.take 5)
      (.lockReturn .pthreadMutexLock ⟨6, 7⟩ 64 0 0 .zero) ⟨5, 4⟩ ⟨6, 7⟩ 64
      (by decide) (by decide) trivial (by decide +kernel) (by decide +kernel) with hbetween | hinside
    · apply not_unlockBetween.mpr _ hbetween
      decide +kernel
    · exact hinside.heldMode (by decide +kernel)

end Late

end CpuSubsystem.LockImage
