import CpuSubsystem.Lib.Latest
import CpuSubsystem.Lib.Locks
import CpuSubsystem.ProcImage.LockImage.Probes

/-!
# Threads that use their locks correctly

A run of threads and locks, where every map update and every reservation succeeds.  The probes see
the calls and the returns; between the two the lock changes hands unseen.
-/

namespace CpuSubsystem.LockImage

open Locks

/-- How a successful call holds the lock. -/
def LockFn.mode : LockFn → Mode
  | .pthreadRwlockRdlock | .pthreadRwlockTryrdlock => .shared
  | _ => .exclusive

/-- A lock of a process: its kind, as in `ProcFlag`, and its address there.  The probes are attached
for all processes, and a lock that two of them share counts as one of each. -/
structure Lock where
  tgid : Int
  kind : Int
  addr : UInt64
deriving DecidableEq

/-- What happens, with what the helpers return at the probes. -/
inductive Occurrence where
  | lockCall (f : LockFn) (cur : Task) (lock now : UInt64) (mem : LockEvent)
  | acquire (cur : Task)
  | lockReturn (f : LockFn) (cur : Task) (lock : UInt64) (ret : Int) (now : UInt64)
      (mem : LockEvent)
  | unlockCall (f : UnlockFn) (cur : Task) (lock : UInt64)
  | release (cur : Task)
  | unlockReturn (f : UnlockFn) (cur : Task) (lock now : UInt64) (mem : LockEvent)
deriving DecidableEq

namespace Occurrence

def cur : Occurrence → Task
  | lockCall _ cur _ _ _ | acquire cur | lockReturn _ cur _ _ _ _ => cur
  | unlockCall _ cur _ | release cur | unlockReturn _ cur _ _ _ => cur

/-- What it means to the locks. -/
def action : Occurrence → Locks.Action Int Lock
  | lockCall f cur lock _ _ => .lockCall cur.pid ⟨cur.tgid, f.flag, lock⟩ f.mode
  | acquire cur => .acquire cur.pid
  | lockReturn f cur lock ret _ _ =>
    .lockReturn cur.pid ⟨cur.tgid, f.flag, lock⟩ f.mode (ret == 0)
  | unlockCall f cur lock => .unlockCall cur.pid ⟨cur.tgid, f.flag, lock⟩
  | release cur => .release cur.pid
  | unlockReturn f cur lock _ _ => .unlockReturn cur.pid ⟨cur.tgid, f.flag, lock⟩

/-- What the probes see of it. -/
def event : Occurrence → Option Event
  | lockCall f cur lock now mem => some (.lockEnter f cur lock now true (some mem))
  | lockReturn f cur _ ret now mem => some (.lockExit f cur ret now true (some mem))
  | unlockCall f cur lock => some (.unlockEnter f cur lock true)
  | unlockReturn f cur _ now mem => some (.unlockExit f cur now (some mem))
  | acquire _ | release _ => none

end Occurrence

def observed (ro : Rodata) (c : LockCtrl) : Machine State Occurrence LockEvent :=
  (machine ro c).watching Occurrence.event

/-- The threads and the locks after a run that is possible. -/
def world (tr : List Occurrence) : Option (World Int Lock) :=
  World.free.run (tr.map Occurrence.action)

def Correct (tr : List Occurrence) : Prop := (world tr).isSome = true

instance (tr : List Occurrence) : Decidable (Correct tr) :=
  inferInstanceAs (Decidable (_ = true))

/-- The control value selects every thread of the run. -/
def AllSelected (ro : Rodata) (c : LockCtrl) (tr : List Occurrence) : Prop :=
  ∀ o ∈ tr, traced ro c o.cur = true

instance (ro : Rodata) (c : LockCtrl) (tr : List Occurrence) : Decidable (AllSelected ro c tr) :=
  inferInstanceAs (Decidable (∀ o ∈ tr, _ = true))

/-- A return from a reader-writer lock at `p`, in whichever process: the hold that was taken, or that
one was given back. -/
def returned (p : UInt64) : Occurrence → Option (Option Mode)
  | .lockReturn f _ lock ret _ _ =>
      if f.flag = 2 ∧ lock = p ∧ ret = 0 then some (some f.mode) else none
  | .unlockReturn f _ lock _ _ => if f.flag = 2 ∧ lock = p then some none else none
  | _ => none

/-- The hold taken at the latest such return. -/
def latestHold (p : UInt64) (tr : List Occurrence) : Option Mode := (latest (returned p) tr).join

/-- The value of `locktype` for a hold. -/
def typeOf : Mode → Int
  | .shared => 1
  | .exclusive => 2

variable {ro : Rodata} {c : LockCtrl} {pre : List Occurrence} {o : Occurrence}
  {w w' : World Int Lock} {s : State}

theorem world_snoc : world (pre ++ [o]) = (world pre).bind fun w => w.step o.action := by
  rw [world, List.map_append, List.map_cons, List.map_nil, World.run_snoc]
  rfl

theorem Correct.restrict {tr : List Occurrence} (h : Correct tr) (hp : pre <+: tr) :
    Correct pre := by
  obtain ⟨post, rfl⟩ := hp
  unfold Correct world at h ⊢
  rw [List.map_append, World.run_append] at h
  exact Option.isSome_of_isSome_bind h

theorem AllSelected.restrict {tr : List Occurrence} (h : AllSelected ro c tr) (hp : pre <+: tr) :
    AllSelected ro c pre :=
  fun o ho => h o (hp.subset ho)

theorem sound_world (h : world pre = some w) : w.Sound := World.sound_free.run h

theorem latestHold_snoc (p : UInt64) : latestHold p (pre ++ [o]) =
    match returned p o with
    | some m => m
    | none => latestHold p pre := by
  unfold latestHold
  rw [latest_snoc]
  cases returned p o <;> rfl

theorem typed_lockStatus (f : LockFn) (ret : Int) :
    typed f.lockStatus ret = true ↔ f.flag = 2 ∧ ret = 0 := by
  have hflag : (f.lockStatus = 5 ∨ f.lockStatus = 8) ↔ f.flag = 2 := by cases f <;> decide
  rw [typed_iff, hflag]

theorem holdType_lockStatus (f : LockFn) : holdType f.lockStatus = typeOf f.mode := by
  cases f <;> rfl

theorem eq_pthreadRwlockUnlock {g : UnlockFn} (h : g.flag = 2) : g = .pthreadRwlockUnlock := by
  cases g with
  | pthreadRwlockUnlock => rfl
  | pthreadMutexUnlock => exact absurd h (by decide)
  | pthreadSpinUnlock => exact absurd h (by decide)

/-! ## The maps follow the threads -/

/-- Threads inside a call have its lock in their entry, and `locktype` has the latest hold. -/
structure Tracks (c : LockCtrl) (pre : List Occurrence) (w : World Int Lock) (s : State) :
    Prop where
  ctrl : s.lockCtrlMap = c
  lock : ∀ t k m got, w.phase t = .locking k m got → s.procLock.lookup ⟨t, k.kind⟩ = some k.addr
  unlock : ∀ t k m r, w.phase t = .unlocking k m r → s.procUnlock.lookup ⟨t, k.kind⟩ = some k.addr
  types : ∀ p, s.locktype.lookup p = (latestHold p pre).map typeOf

theorem procFlag_ne {t t' flag flag' : Int} (h : t ≠ t') :
    (⟨t, flag⟩ : ProcFlag) ≠ ⟨t', flag'⟩ := by
  intro heq
  cases heq
  exact h rfl

section Others

variable {ν : Type} {t : Int} {maps maps' : BpfMap ProcFlag ν}

/-- The entries of the threads other than `t` stay. -/
def Others (t : Int) (maps maps' : BpfMap ProcFlag ν) : Prop :=
  ∀ t' flag, t' ≠ t → maps'.lookup ⟨t', flag⟩ = maps.lookup ⟨t', flag⟩

theorem Others.refl (t : Int) (maps : BpfMap ProcFlag ν) : Others t maps maps := fun _ _ _ => rfl

theorem Others.update (maps : BpfMap ProcFlag ν) (room : Bool) (t flag : Int) (v : ν) :
    Others t maps (maps.update room ⟨t, flag⟩ v) :=
  fun _ _ hne => BpfMap.lookup_update_of_ne _ _ _ (procFlag_ne hne)

theorem Others.delete (maps : BpfMap ProcFlag ν) (t flag : Int) :
    Others t maps (maps.delete ⟨t, flag⟩) :=
  fun _ _ hne => BpfMap.lookup_delete_of_ne _ (procFlag_ne hne)

end Others

/-- One thread moves on; the entries of the others stay. -/
theorem Tracks.move (h : Tracks c pre w s) {t : Int} {p : Phase Lock} {hs : Lock → Holders Int}
    {s' : State} (hctrl : s'.lockCtrlMap = s.lockCtrlMap)
    (hlock : ∀ k m got, p = .locking k m got → s'.procLock.lookup ⟨t, k.kind⟩ = some k.addr)
    (hunlock : ∀ k m r, p = .unlocking k m r → s'.procUnlock.lookup ⟨t, k.kind⟩ = some k.addr)
    (hlocks : Others t s.procLock s'.procLock) (hunlocks : Others t s.procUnlock s'.procUnlock)
    (htypes : ∀ p, s'.locktype.lookup p = (latestHold p (pre ++ [o])).map typeOf) :
    Tracks c (pre ++ [o]) (World.setPhase ⟨w.phase, hs⟩ t p) s' where
  ctrl := hctrl.trans h.ctrl
  lock t' k m got hp := by
    by_cases ht : t' = t
    · subst ht
      rw [World.setPhase_phase_self] at hp
      exact hlock k m got hp
    · rw [World.setPhase_phase_of_ne p ht] at hp
      rw [hlocks t' k.kind ht]
      exact h.lock t' k m got hp
  unlock t' k m r hp := by
    by_cases ht : t' = t
    · subst ht
      rw [World.setPhase_phase_self] at hp
      exact hunlock k m r hp
    · rw [World.setPhase_phase_of_ne p ht] at hp
      rw [hunlocks t' k.kind ht]
      exact h.unlock t' k m r hp
  types := htypes

/-- Occurrences other than returns leave `locktype` alone. -/
theorem Tracks.types_same (h : Tracks c pre w s) (ho : ∀ p, returned p o = none) (p : UInt64) :
    s.locktype.lookup p = (latestHold p (pre ++ [o])).map typeOf := by
  rw [latestHold_snoc, ho p]
  exact h.types p

section Steps

variable {f : LockFn} {g : UnlockFn} {cur : Task} {lock now : UInt64} {ret tgid : Int}
  {mem : LockEvent} {m : Mode} {got : Bool}

/-- A return from a call that takes a lock. -/
theorem Tracks.lockExit (h : Tracks c pre w s) (ht : traced ro c cur = true)
    (hp : w.phase cur.pid = .locking ⟨tgid, f.flag, lock⟩ m got) :
    step ro s (.lockExit f cur ret now true (some mem)) =
      ({ s with
          procLock := s.procLock.delete ⟨cur.pid, f.flag⟩
          locktype :=
            if f.flag = 2 ∧ ret = 0 then s.locktype.store lock (typeOf f.mode) else s.locktype },
        [{ mem.fill c cur f.lockStatus lock now with ret := ret }]) := by
  have hl := h.lock cur.pid _ m got hp
  rw [← h.ctrl] at ht
  rw [step_lockExit, recordLockExit_of_some now true (some mem) f.lockStatus ret ht hl,
    BpfMap.accepts_true, Bool.not_true, Bool.and_false, h.ctrl, BpfMap.update_true]
  by_cases hr : f.flag = 2 ∧ ret = 0
  · rw [if_pos ((typed_lockStatus f ret).mpr hr), if_pos hr, holdType_lockStatus]
    rfl
  · rw [if_neg fun hty => hr ((typed_lockStatus f ret).mp hty), if_neg hr]
    rfl

/-- A return from `pthread_mutex_unlock` or `pthread_spin_unlock`. -/
theorem Tracks.unlockExit_of_ne (h : Tracks c pre w s) (ht : traced ro c cur = true)
    (hp : w.phase cur.pid = .unlocking ⟨tgid, g.flag, lock⟩ m got) (hg : g.flag ≠ 2) :
    step ro s (.unlockExit g cur now (some mem)) =
      ({ s with procUnlock := s.procUnlock.delete ⟨cur.pid, g.flag⟩ },
        [mem.fill c cur g.lockStatus lock now]) := by
  have hl := h.unlock cur.pid _ m got hp
  have hstatus : g.lockStatus ≠ 0 := by cases g <;> first | decide | exact absurd rfl hg
  rw [← h.ctrl] at ht
  rw [step_unlockExit, recordUnlockExit_of_ne_zero now (some mem) g.lockStatus ht hl hstatus,
    h.ctrl]
  rfl

/-- A return from `pthread_rwlock_unlock`: what it does depends on the latest hold. -/
theorem Tracks.unlockExit_rwlock (h : Tracks c pre w s) (ht : traced ro c cur = true)
    (hp : w.phase cur.pid = .unlocking ⟨tgid, 2, lock⟩ m got) :
    step ro s (.unlockExit .pthreadRwlockUnlock cur now (some mem)) =
      ({ s with
          procUnlock := s.procUnlock.delete ⟨cur.pid, 2⟩
          locktype := s.locktype.delete lock },
        match latestHold lock pre with
        | none => []
        | some .shared => [mem.fill c cur 6 lock now]
        | some .exclusive => [mem.fill c cur 9 lock now]) := by
  have hl := h.unlock cur.pid _ m got hp
  have htype := h.types lock
  rw [← h.ctrl] at ht
  rw [step_unlockExit]
  show recordUnlockExit ro s cur now (some mem) 0 2 = _
  cases hold : latestHold lock pre with
  | none =>
    rw [hold] at htype
    rw [recordUnlockExit_of_untyped now (some mem) ht hl htype, BpfMap.delete_of_absent htype]
  | some m' =>
    rw [hold] at htype
    rw [recordUnlockExit_of_typed now (some mem) ht hl htype, h.ctrl]
    cases m' <;> rfl

/-- A successful return from a reader-writer lock leaves its hold in `locktype`. -/
theorem Tracks.types_lockReturn (h : Tracks c pre w s) (p : UInt64) :
    (if f.flag = 2 ∧ ret = 0 then s.locktype.store lock (typeOf f.mode)
      else s.locktype).lookup p =
        (latestHold p (pre ++ [Occurrence.lockReturn f cur lock ret now mem])).map typeOf := by
  rw [latestHold_snoc]
  simp only [returned]
  by_cases hr : f.flag = 2 ∧ ret = 0
  · rw [if_pos hr, BpfMap.lookup_store]
    by_cases hlock : p = lock
    · rw [if_pos hlock, if_pos ⟨hr.1, hlock.symm, hr.2⟩]
      rfl
    · rw [if_neg hlock, if_neg fun hpos => hlock hpos.2.1.symm]
      exact h.types p
  · rw [if_neg hr, if_neg fun hpos => hr ⟨hpos.1, hpos.2.2⟩]
    exact h.types p

/-- A return from `pthread_rwlock_unlock` leaves nothing. -/
theorem Tracks.types_unlockReturn (h : Tracks c pre w s) (p : UInt64) :
    (s.locktype.delete lock).lookup p =
      (latestHold p (pre ++ [Occurrence.unlockReturn .pthreadRwlockUnlock cur lock now mem])).map
        typeOf := by
  rw [latestHold_snoc, BpfMap.lookup_delete]
  simp only [returned]
  by_cases hlock : p = lock
  · rw [if_pos hlock, if_pos ⟨rfl, hlock.symm⟩]
    rfl
  · rw [if_neg hlock, if_neg fun hpos => hlock hpos.2.symm]
    exact h.types p

end Steps

/-- A thread has an entry to account for only while it is inside a call. -/
theorem Tracks.step (h : Tracks c pre w s) (ht : traced ro c o.cur = true)
    (hw : w.step o.action = some w') :
    Tracks c (pre ++ [o]) w' ((observed ro c).step s o).1 := by
  have hcases := World.step_cases hw
  cases o with
  | lockCall f cur lock now mem =>
    obtain ⟨-, rfl⟩ := hcases
    have htr : traced ro s.lockCtrlMap cur = true := h.ctrl ▸ ht
    show Tracks c _ _ (LockImage.step ro s (.lockEnter f cur lock now true (some mem))).1
    rw [step_lockEnter, recordLockEnter_traced now true (some mem) _ _ lock htr]
    refine h.move rfl ?_ ?_ (.update _ _ _ _ _) (.refl _ _) (h.types_same fun _ => rfl)
    · intro k m got hp
      cases hp
      rw [BpfMap.update_true, BpfMap.lookup_store_self]
    · intro k m r hp
      cases hp
  | acquire cur =>
    -- the probes do not see it, and the call had its entry before
    obtain ⟨k, m, hs, hp, -, rfl⟩ := hcases
    show Tracks c _ _ s
    refine h.move rfl ?_ ?_ (.refl _ _) (.refl _ _) (h.types_same fun _ => rfl)
    · intro k' m' got hp'
      cases hp'
      exact h.lock cur.pid k m false hp
    · intro k' m' r hp'
      cases hp'
  | lockReturn f cur lock ret now mem =>
    obtain ⟨hp, rfl⟩ := hcases
    have htr : traced ro c cur = true := ht
    show Tracks c _ _ (LockImage.step ro s (.lockExit f cur ret now true (some mem))).1
    rw [h.lockExit htr hp]
    refine h.move rfl ?_ ?_ (.delete _ _ _) (.refl _ _) h.types_lockReturn
    · intro k m got hp'
      cases hp'
    · intro k m r hp'
      cases hp'
  | unlockCall g cur lock =>
    obtain ⟨m, -, -, rfl⟩ := hcases
    have htr : traced ro s.lockCtrlMap cur = true := h.ctrl ▸ ht
    show Tracks c _ _ (LockImage.step ro s (.unlockEnter g cur lock true)).1
    rw [step_unlockEnter, recordUnlockEnter_traced true _ lock htr]
    refine h.move rfl ?_ ?_ (.refl _ _) (.update _ _ _ _ _) (h.types_same fun _ => rfl)
    · intro k m got hp
      cases hp
    · intro k m r hp
      cases hp
      rw [BpfMap.update_true, BpfMap.lookup_store_self]
  | release cur =>
    obtain ⟨k, m, hp, rfl⟩ := hcases
    show Tracks c _ _ s
    refine h.move rfl ?_ ?_ (.refl _ _) (.refl _ _) (h.types_same fun _ => rfl)
    · intro k' m' got hp'
      cases hp'
    · intro k' m' r hp'
      cases hp'
      exact h.unlock cur.pid k m false hp
  | unlockReturn g cur lock now mem =>
    obtain ⟨m, hp, rfl⟩ := hcases
    have htr : traced ro c cur = true := ht
    show Tracks c _ _ (LockImage.step ro s (.unlockExit g cur now (some mem))).1
    -- only reader-writer locks have a type
    by_cases hg : g.flag = 2
    · rw [hg] at hp
      rw [eq_pthreadRwlockUnlock hg, h.unlockExit_rwlock htr hp]
      refine h.move rfl ?_ ?_ (.refl _ _) (.delete _ _ _) h.types_unlockReturn
      · intro k m got hp'
        cases hp'
      · intro k m r hp'
        cases hp'
    · rw [h.unlockExit_of_ne htr hp hg]
      have htypes := h.types_same (o := .unlockReturn g cur lock now mem)
        fun p => if_neg fun hpos => hg hpos.1
      refine h.move rfl ?_ ?_ (.refl _ _) (.delete _ _ _) htypes
      · intro k m got hp'
        cases hp'
      · intro k m r hp'
        cases hp'

theorem tracks (ro : Rodata) (c : LockCtrl) (tr : List Occurrence) (hs : AllSelected ro c tr)
    (hw : world tr = some w) : Tracks c tr w ((observed ro c).exec tr) := by
  induction tr using List.reverseRecOn generalizing w with
  | nil =>
    cases hw
    exact ⟨rfl, fun _ _ _ _ h => (by cases h), fun _ _ _ _ h => (by cases h),
      fun p => BpfMap.lookup_empty p⟩
  | append_singleton pre o ih =>
    rw [world_snoc] at hw
    obtain ⟨w₁, hw₁, hstep⟩ := Option.bind_eq_some_iff.mp hw
    rw [Machine.exec_snoc]
    have hpre := ih (hs.restrict (List.prefix_append pre [o])) hw₁
    exact hpre.step (hs o (by simp)) hstep

/-- What is known before a step of a run. -/
theorem step_facts (hs : AllSelected ro c (pre ++ [o])) (hw : Correct (pre ++ [o])) :
    ∃ w w', world pre = some w ∧ w.step o.action = some w' ∧ world (pre ++ [o]) = some w' ∧
      traced ro c o.cur = true ∧ Tracks c pre w ((observed ro c).exec pre) := by
  rw [Correct, world_snoc] at hw
  obtain ⟨w', hw'⟩ := Option.isSome_iff_exists.mp hw
  obtain ⟨w, hpre, hstep⟩ := Option.bind_eq_some_iff.mp hw'
  exact ⟨w, w', hpre, hstep, world_snoc.trans hw', hs o (by simp),
    tracks ro c pre (hs.restrict (List.prefix_append pre _)) hpre⟩

end CpuSubsystem.LockImage
