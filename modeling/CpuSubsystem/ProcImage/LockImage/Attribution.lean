import CpuSubsystem.Lib.Calls
import CpuSubsystem.ProcImage.LockImage.Probes

/-!
# Which call a record belongs to

A thread is inside at most one call of each family of functions: the ones that take locks of a kind,
or the one that releases them.  Each family has its own entry `(pid, flag)` in one of the two maps,
and whatever is there was left by the call in progress.
-/

namespace CpuSubsystem.LockImage

/-- Taking or releasing. -/
inductive Side where
  | lock | unlock
deriving DecidableEq, Repr

/-- A family of functions, as called by one thread. -/
structure Family where
  side : Side
  slot : ProcFlag
deriving DecidableEq, Repr

/-- The entry probe of a function sees who calls it on which lock. -/
def Event.probe : Event → Option (Family × Probe (Task × UInt64) Task)
  | .lockEnter f cur lock _ _ _ => some (⟨.lock, cur.pid, f.flag⟩, .enter (cur, lock))
  | .lockExit f cur _ _ _ _ => some (⟨.lock, cur.pid, f.flag⟩, .exit cur)
  | .unlockEnter f cur lock _ => some (⟨.unlock, cur.pid, f.flag⟩, .enter (cur, lock))
  | .unlockExit f cur _ _ => some (⟨.unlock, cur.pid, f.flag⟩, .exit cur)
  | .lockCtrl _ => none

def familyView (k : Family) (e : Event) : Option (Probe (Task × UInt64) Task) :=
  match e.probe with
  | some (k', q) => if k' = k then some q else none
  | none => none

/-- The call of the family in progress, with its thread and its lock. -/
def callOf (k : Family) (tr : List Event) : Option (Task × UInt64) :=
  (calls (familyView k) tr).pending

/-- Entries and returns of every family alternate, on every thread. -/
def WellBracketed (tr : List Event) : Prop := ∀ k, Alternating (familyView k) tr

/-- The thread that returns is the one that called. -/
def SameThread (pre : List Event) (e : Event) : Prop :=
  match e.probe with
  | some (k, .exit cur) => ∀ call ∈ callOf k pre, call.1 = cur
  | _ => True

def ConstantCtrl (tr : List Event) : Prop := ∀ e ∈ tr, ∀ c, e ≠ .lockCtrl c

/-- A return probe emits one record at most, with the thread that returns and the lock of the call
that returns. -/
def Attributed (ro : Rodata) (c : LockCtrl) (pre : List Event) (e : Event) : Prop :=
  match e.probe with
  | some (k, .exit cur) =>
      ((machine ro c).emits pre e).length ≤ 1 ∧
      ∀ r ∈ (machine ro c).emits pre e,
        r.pid = cur.pid ∧ ∃ call ∈ callOf k pre, r.lockPtr = call.2
  | _ => True

/-- The map where the calls of a family leave their lock. -/
def State.entries (s : State) : Side → BpfMap ProcFlag UInt64
  | .lock => s.procLock
  | .unlock => s.procUnlock

variable {ro : Rodata} {c : LockCtrl} {s : State} {e : Event} {k k' : Family}

theorem probe_none (h : e.probe = none) : ∃ c, e = .lockCtrl c := by
  cases e with
  | lockCtrl c => exact ⟨c, rfl⟩
  | lockEnter f cur lock now room slot => cases h
  | lockExit f cur ret now room slot => cases h
  | unlockEnter f cur lock room => cases h
  | unlockExit f cur now slot => cases h

theorem familyView_self {q : Probe (Task × UInt64) Task} (h : e.probe = some (k, q)) :
    familyView k e = some q := by
  simp only [familyView, h, if_true]

theorem familyView_of_ne {q : Probe (Task × UInt64) Task} (h : e.probe = some (k', q))
    (hne : k ≠ k') : familyView k e = none := by
  simp only [familyView, h, if_neg (Ne.symm hne)]

/-- A probe of another family or thread leaves the call in progress. -/
theorem callOf_of_ne (pre : List Event) {q : Probe (Task × UInt64) Task}
    (h : e.probe = some (k', q)) (hne : k ≠ k') : callOf k (pre ++ [e]) = callOf k pre := by
  rw [callOf, calls_snoc_skip (familyView_of_ne h hne)]
  rfl

/-! ## The return probes -/

theorem recordLockExit_attributed (cur : Task) (now : UInt64) (room : Bool)
    (slot : Option LockEvent) (lockStatus flag ret : Int) :
    (recordLockExit ro s cur now room slot lockStatus flag ret).2.length ≤ 1 ∧
    ∀ r ∈ (recordLockExit ro s cur now room slot lockStatus flag ret).2,
      r.pid = cur.pid ∧ s.procLock.lookup ⟨cur.pid, flag⟩ = some r.lockPtr := by
  by_cases ht : traced ro s.lockCtrlMap cur = true
  · cases hl : s.procLock.lookup ⟨cur.pid, flag⟩ with
    | none => simp [recordLockExit_of_none now room slot lockStatus ret ht hl]
    | some p =>
      rw [recordLockExit_of_some now room slot lockStatus ret ht hl]
      dsimp only
      split
      · simp
      · cases slot with
        | none => simp
        | some mem => simp [LockEvent.fill]
  · rw [Bool.not_eq_true] at ht
    simp [recordLockExit_untraced now room slot lockStatus flag ret ht]

theorem recordUnlockExit_attributed (cur : Task) (now : UInt64) (slot : Option LockEvent)
    (lockStatus flag : Int) :
    (recordUnlockExit ro s cur now slot lockStatus flag).2.length ≤ 1 ∧
    ∀ r ∈ (recordUnlockExit ro s cur now slot lockStatus flag).2,
      r.pid = cur.pid ∧ s.procUnlock.lookup ⟨cur.pid, flag⟩ = some r.lockPtr := by
  by_cases ht : traced ro s.lockCtrlMap cur = true
  · cases hl : s.procUnlock.lookup ⟨cur.pid, flag⟩ with
    | none => simp [recordUnlockExit_of_none now slot lockStatus ht hl]
    | some p =>
      by_cases hs : lockStatus = 0
      · rw [hs]
        cases hty : s.locktype.lookup p with
        | none => simp [recordUnlockExit_of_untyped now slot ht hl hty]
        | some type =>
          rw [recordUnlockExit_of_typed now slot ht hl hty]
          cases slot with
          | none => simp
          | some mem => simp [LockEvent.fill]
      · rw [recordUnlockExit_of_ne_zero now slot lockStatus ht hl hs]
        cases slot with
        | none => simp
        | some mem => simp [LockEvent.fill]
  · rw [Bool.not_eq_true] at ht
    simp [recordUnlockExit_untraced now slot lockStatus flag ht]

/-- What a return probe emits, it read from the entry of its family. -/
theorem step_exit_attributed (ro : Rodata) (s : State) {cur : Task}
    (h : e.probe = some (k, .exit cur)) :
    (step ro s e).2.length ≤ 1 ∧
    ∀ r ∈ (step ro s e).2, r.pid = cur.pid ∧ (s.entries k.side).lookup k.slot = some r.lockPtr := by
  cases e with
  | lockCtrl c => cases h
  | lockEnter f cur lock now room slot => cases h
  | lockExit f cur ret now room slot =>
    cases h
    rw [step_lockExit]
    exact recordLockExit_attributed cur now room slot _ _ ret
  | unlockEnter f cur lock room => cases h
  | unlockExit f cur now slot =>
    cases h
    rw [step_unlockExit]
    exact recordUnlockExit_attributed cur now slot _ _

/-! ## What the probes leave in the maps -/

section Maps

variable (ro s) (cur : Task) (now : UInt64) (room : Bool) (slot : Option LockEvent)
  (lockStatus flag ret : Int) (lock : UInt64)

theorem recordLockEnter_maps :
    (recordLockEnter ro s cur now room slot lockStatus flag lock).1 =
      { s with
        procLock :=
          if traced ro s.lockCtrlMap cur then s.procLock.update room ⟨cur.pid, flag⟩ lock
          else s.procLock } := by
  cases ht : traced ro s.lockCtrlMap cur with
  | false => rw [recordLockEnter_untraced now room slot lockStatus flag lock ht]; rfl
  | true => rw [recordLockEnter_traced now room slot lockStatus flag lock ht]; rfl

theorem recordUnlockEnter_maps :
    recordUnlockEnter ro s cur room flag lock =
      { s with
        procUnlock :=
          if traced ro s.lockCtrlMap cur then s.procUnlock.update room ⟨cur.pid, flag⟩ lock
          else s.procUnlock } := by
  unfold recordUnlockEnter
  split <;> rfl

theorem recordLockExit_maps :
    ∃ types, (recordLockExit ro s cur now room slot lockStatus flag ret).1 =
      { s with
        procLock :=
          if traced ro s.lockCtrlMap cur then s.procLock.delete ⟨cur.pid, flag⟩ else s.procLock
        locktype := types } := by
  cases ht : traced ro s.lockCtrlMap cur with
  | false =>
    rw [recordLockExit_untraced now room slot lockStatus flag ret ht]
    exact ⟨s.locktype, rfl⟩
  | true =>
    cases hl : s.procLock.lookup ⟨cur.pid, flag⟩ with
    | none =>
      rw [recordLockExit_of_none now room slot lockStatus ret ht hl, if_pos rfl,
        BpfMap.delete_of_absent hl]
      exact ⟨s.locktype, rfl⟩
    | some p =>
      rw [recordLockExit_of_some now room slot lockStatus ret ht hl]
      exact ⟨_, rfl⟩

theorem recordUnlockExit_maps :
    ∃ types, (recordUnlockExit ro s cur now slot lockStatus flag).1 =
      { s with
        procUnlock :=
          if traced ro s.lockCtrlMap cur then s.procUnlock.delete ⟨cur.pid, flag⟩
          else s.procUnlock
        locktype := types } := by
  cases ht : traced ro s.lockCtrlMap cur with
  | false =>
    rw [recordUnlockExit_untraced now slot lockStatus flag ht]
    exact ⟨s.locktype, rfl⟩
  | true =>
    cases hl : s.procUnlock.lookup ⟨cur.pid, flag⟩ with
    | none =>
      rw [recordUnlockExit_of_none now slot lockStatus ht hl, if_pos rfl,
        BpfMap.delete_of_absent hl]
      exact ⟨s.locktype, rfl⟩
    | some p =>
      by_cases hs : lockStatus = 0
      · rw [hs]
        cases hty : s.locktype.lookup p with
        | none =>
          rw [recordUnlockExit_of_untyped now slot ht hl hty]
          exact ⟨s.locktype, rfl⟩
        | some type =>
          rw [recordUnlockExit_of_typed now slot ht hl hty]
          exact ⟨_, rfl⟩
      · rw [recordUnlockExit_of_ne_zero now slot lockStatus ht hl hs]
        exact ⟨s.locktype, rfl⟩

end Maps

/-- An entry probe writes the entry of its family, if anything. -/
theorem step_enter (ro : Rodata) (s : State) {cur : Task} {lock : UInt64}
    (h : e.probe = some (k, .enter (cur, lock))) :
    (step ro s e).1.lockCtrlMap = s.lockCtrlMap ∧
    ∃ room, ∀ side, (step ro s e).1.entries side =
      if side = k.side ∧ traced ro s.lockCtrlMap cur = true then
        (s.entries side).update room k.slot lock
      else s.entries side := by
  cases e with
  | lockCtrl c => cases h
  | lockEnter f cur' lock' now room slot =>
    cases h
    rw [step_lockEnter, recordLockEnter_maps]
    refine ⟨rfl, room, fun side => ?_⟩
    cases side <;> simp [State.entries]
  | lockExit f cur' ret now room slot => cases h
  | unlockEnter f cur' lock' room =>
    cases h
    rw [step_unlockEnter, recordUnlockEnter_maps]
    refine ⟨rfl, room, fun side => ?_⟩
    cases side <;> simp [State.entries]
  | unlockExit f cur' now slot => cases h

/-- A return probe takes it away. -/
theorem step_exit (ro : Rodata) (s : State) {cur : Task} (h : e.probe = some (k, .exit cur)) :
    (step ro s e).1.lockCtrlMap = s.lockCtrlMap ∧
    ∀ side, (step ro s e).1.entries side =
      if side = k.side ∧ traced ro s.lockCtrlMap cur = true then
        (s.entries side).delete k.slot
      else s.entries side := by
  cases e with
  | lockCtrl c => cases h
  | lockEnter f cur' lock' now room slot => cases h
  | lockExit f cur' ret now room slot =>
    cases h
    obtain ⟨types, hmaps⟩ :=
      recordLockExit_maps ro s cur now room slot f.lockStatus f.flag ret
    rw [step_lockExit, hmaps]
    refine ⟨rfl, fun side => ?_⟩
    cases side <;> simp [State.entries]
  | unlockEnter f cur' lock' room => cases h
  | unlockExit f cur' now slot =>
    cases h
    obtain ⟨types, hmaps⟩ := recordUnlockExit_maps ro s cur now slot f.lockStatus f.flag
    rw [step_unlockExit, hmaps]
    refine ⟨rfl, fun side => ?_⟩
    cases side <;> simp [State.entries]

/-! ## Every run -/

/-- Whatever is in an entry, the call in progress left it there. -/
structure Kept (ro : Rodata) (c : LockCtrl) (pre : List Event) (s : State) : Prop where
  ctrl : s.lockCtrlMap = c
  left : ∀ k p, (s.entries k.side).lookup k.slot = some p →
    ∃ cur, callOf k pre = some (cur, p) ∧ traced ro c cur = true

theorem Kept.enter {pre : List Event} (h : Kept ro c pre s)
    (ha : Alternating (familyView k) (pre ++ [e])) {cur : Task} {lock : UInt64}
    (he : e.probe = some (k, .enter (cur, lock))) : Kept ro c (pre ++ [e]) (step ro s e).1 := by
  obtain ⟨hctrl, room, hmaps⟩ := step_enter ro s he
  refine ⟨hctrl.trans h.ctrl, fun k' p hp => ?_⟩
  rw [hmaps k'.side, h.ctrl] at hp
  by_cases hk : k' = k
  · subst hk
    have hcall : callOf k' (pre ++ [e]) = some (cur, lock) := by
      rw [callOf, calls_snoc (familyView_self he)]
      rfl
    -- the thread was outside the family, so its entry was empty
    have hidle : callOf k' pre = none := ha.idle (familyView_self he)
    have hempty : (s.entries k'.side).lookup k'.slot = none := by
      by_contra hne
      obtain ⟨q, hq⟩ := Option.ne_none_iff_exists'.mp hne
      obtain ⟨cur', hc, _⟩ := h.left k' q hq
      rw [hidle] at hc
      cases hc
    by_cases ht : traced ro c cur = true
    · rw [if_pos ⟨rfl, ht⟩, BpfMap.lookup_update_self] at hp
      split at hp
      · cases hp
        exact ⟨cur, hcall, ht⟩
      · cases hp
    · rw [if_neg fun hpos => ht hpos.2, hempty] at hp
      cases hp
  · rw [callOf_of_ne pre he hk]
    apply h.left k' p
    split at hp
    · rename_i hside
      rw [BpfMap.lookup_update_of_ne] at hp
      · exact hp
      · intro hslot
        exact hk (by cases k; cases k'; simp_all)
    · exact hp

theorem Kept.exit {pre : List Event} (h : Kept ro c pre s)
    (hsame : SameThread pre e) {cur : Task} (he : e.probe = some (k, .exit cur)) :
    Kept ro c (pre ++ [e]) (step ro s e).1 := by
  obtain ⟨hctrl, hmaps⟩ := step_exit ro s he
  refine ⟨hctrl.trans h.ctrl, fun k' p hp => ?_⟩
  rw [hmaps k'.side, h.ctrl] at hp
  by_cases hk : k' = k
  · subst hk
    by_cases ht : traced ro c cur = true
    · rw [if_pos ⟨rfl, ht⟩, BpfMap.lookup_delete_self] at hp
      cases hp
    · -- an entry would have been left by this thread, which is not traced
      rw [if_neg fun hpos => ht hpos.2] at hp
      obtain ⟨cur', hc, ht'⟩ := h.left k' p hp
      simp only [SameThread, he] at hsame
      have hcur : cur' = cur := hsame (cur', p) hc
      rw [hcur] at ht'
      exact absurd ht' ht
  · rw [callOf_of_ne pre he hk]
    apply h.left k' p
    split at hp
    · rw [BpfMap.lookup_delete] at hp
      split at hp
      · cases hp
      · exact hp
    · exact hp

theorem kept (ro : Rodata) (c : LockCtrl) (tr : List Event) (hc : ConstantCtrl tr)
    (hb : WellBracketed tr) (hs : Throughout SameThread tr) :
    Kept ro c tr ((machine ro c).exec tr) := by
  induction tr using List.reverseRecOn with
  | nil =>
    refine ⟨rfl, fun k p hp => ?_⟩
    have hnone : ((initial c).entries k.side).lookup k.slot = none := by
      cases k.side <;> exact BpfMap.lookup_empty _
    rw [Machine.exec_nil, show (machine ro c).init = initial c from rfl, hnone] at hp
    cases hp
  | append_singleton pre e ih =>
    rw [Machine.exec_snoc]
    have hpre := ih (fun x hx => hc x (List.mem_append_left _ hx)) (fun k => (hb k).of_snoc)
      hs.of_snoc
    show Kept ro c (pre ++ [e]) (step ro ((machine ro c).exec pre) e).1
    cases hprobe : e.probe with
    | none =>
      obtain ⟨c', rfl⟩ := probe_none hprobe
      exact absurd rfl (hc _ (List.mem_append_right _ (List.mem_singleton_self _)) c')
    | some kq =>
      obtain ⟨k, q⟩ := kq
      cases q with
      | enter call => exact hpre.enter (hb k) hprobe
      | exit cur => exact hpre.exit hs.last hprobe

/-- In every run with a constant control value, for every number of threads and every interleaving
of their probes, every pattern of failed reservations and of full maps. -/
theorem records_attributed (ro : Rodata) (c : LockCtrl) (tr : List Event) (hc : ConstantCtrl tr)
    (hb : WellBracketed tr) (hs : Throughout SameThread tr) :
    Throughout (Attributed ro c) tr := by
  intro pre e hp
  have hpre : pre <+: tr := (List.prefix_append pre [e]).trans hp
  have hkept := kept ro c pre (fun x hx => hc x (hpre.subset hx))
    (fun k => (hb k).restrict hpre) (hs.restrict hpre)
  unfold Attributed
  split
  · rename_i k cur hprobe
    obtain ⟨hone, hall⟩ := step_exit_attributed ro ((machine ro c).exec pre) hprobe
    refine ⟨hone, fun r hr => ?_⟩
    obtain ⟨hpid, hl⟩ := hall r hr
    obtain ⟨cur', hcall, _⟩ := hkept.left k r.lockPtr hl
    exact ⟨hpid, (cur', r.lockPtr), hcall, rfl⟩
  · trivial

/-! ## A run that is not nested -/

/-- Only the families of the trace matter. -/
theorem wellBracketed_iff {tr : List Event} :
    WellBracketed tr ↔ ∀ e ∈ tr, ∀ kq ∈ e.probe, Alternating (familyView kq.1) tr := by
  constructor
  · intro h e _ kq _
    exact h kq.1
  · intro h k
    by_cases hk : ∃ e ∈ tr, ∃ q, e.probe = some (k, q)
    · obtain ⟨e, he, q, hq⟩ := hk
      exact h e he (k, q) hq
    · have hview : tr.filterMap (familyView k) = [] := by
        rw [List.filterMap_eq_nil_iff]
        intro e he
        cases hq : e.probe with
        | none => simp only [familyView, hq]
        | some kq =>
          apply familyView_of_ne hq
          rintro rfl
          exact hk ⟨e, he, kq.2, hq⟩
      rw [Alternating, hview]
      exact List.isChain_nil

instance (tr : List Event) : Decidable (WellBracketed tr) :=
  @decidable_of_iff _ _ wellBracketed_iff.symm
    (@List.decidableBAll _ _ (fun _ => Option.decidableForallMem _) tr)

instance (pre : List Event) (e : Event) : Decidable (SameThread pre e) := by
  unfold SameThread
  split
  · exact Option.decidableForallMem _
  · exact isTrue trivial

/-- Thread 5 takes the mutexes 16 and 32 and gives back 16 first, while thread 6 tries 16: its
entry is refused, and the record of one unlock is lost. -/
def crossed : List Event :=
  [.lockEnter .pthreadMutexLock ⟨5, 4⟩ 16 1 true (some .zero),
    .lockEnter .pthreadMutexTrylock ⟨6, 4⟩ 16 2 false (some .zero),
    .lockExit .pthreadMutexLock ⟨5, 4⟩ 0 3 true (some .zero),
    .lockEnter .pthreadMutexLock ⟨5, 4⟩ 32 4 true none,
    .lockExit .pthreadMutexTrylock ⟨6, 4⟩ 16 5 true (some .zero),
    .lockExit .pthreadMutexLock ⟨5, 4⟩ 0 6 true (some .zero),
    .unlockEnter .pthreadMutexUnlock ⟨5, 4⟩ 16 true,
    .unlockExit .pthreadMutexUnlock ⟨5, 4⟩ 7 none,
    .unlockEnter .pthreadMutexUnlock ⟨5, 4⟩ 32 true,
    .unlockExit .pthreadMutexUnlock ⟨5, 4⟩ 8 (some .zero)]

theorem records_attributed_crossed :
    Throughout (Attributed ⟨1⟩ .all) crossed ∧
    ((machine ⟨1⟩ .all).emitted crossed).map (fun r => (r.lockStatus, r.pid, r.lockPtr)) =
      [(1, 5, 16), (2, 5, 16), (2, 5, 32), (3, 5, 32)] := by
  refine ⟨records_attributed ⟨1⟩ .all crossed ?_ ?_ ?_, ?_⟩
  · simp [ConstantCtrl, crossed]
  · decide +kernel
  · decide +kernel
  · decide +kernel

end CpuSubsystem.LockImage
