import CpuSubsystem.CpuWatcher.Mutrace.Model
import CpuSubsystem.Lib.Latest
import CpuSubsystem.Lib.Mutex
import CpuSubsystem.Lib.Tally

/-!
# Hold times

`acquire_time` is written at the entry of `mutex_lock`, also by those who then wait, and an unlock
counts from there.  A moment is a probe or the acquisition by a waiter, which no probe sees.
-/

namespace CpuSubsystem.Mutrace

inductive Moment where
  | lock (task : Int) (mutex ts : UInt64) (room : Bool)
  | slowpath (cur : Task) (mutex ts : UInt64) (owner : Option Task) (room : Bool)
      (slot : Option MutexContentionEvent)
  | acquire (task : Int) (mutex ts : UInt64)
  | unlock (task : Int) (mutex ts : UInt64)
deriving DecidableEq

def Moment.event : Moment → Option Event
  | .lock _ mutex ts room => some (.mutexLock mutex ts room)
  | .slowpath cur mutex ts owner room slot =>
    some (.mutexLockSlowpath mutex cur owner ts room slot)
  | .acquire _ _ _ => none
  | .unlock task mutex ts => some (.mutexUnlock mutex task ts)

def Moment.mutex : Moment → UInt64
  | .lock _ mutex _ _ | .slowpath _ mutex _ _ _ _ | .acquire _ mutex _ | .unlock _ mutex _ => mutex

def Moment.ts : Moment → UInt64
  | .lock _ _ ts _ | .slowpath _ _ ts _ _ _ | .acquire _ _ ts | .unlock _ _ ts => ts

def Moment.served : Moment → Bool
  | .lock _ _ _ room | .slowpath _ _ _ _ room _ => room
  | _ => true

def uses (m : UInt64) : Moment → Option (Use Int)
  | .lock task mutex ts _ => if mutex = m then some (.lock task ts) else none
  | .acquire task mutex ts => if mutex = m then some (.acquire task ts) else none
  | .unlock task mutex ts => if mutex = m then some (.unlock task ts) else none
  | .slowpath _ _ _ _ _ _ => none

/-- The mutex after a run that finds it free. -/
def mutexAt (m : UInt64) (tr : List Moment) : Mutex Int :=
  (tr.filterMap (uses m)).foldl Mutex.step Mutex.free

/-- The slow path is part of a call that waits. -/
def Allowed (pre : List Moment) : Moment → Prop
  | .lock task m ts _ => (mutexAt m pre).Allows (.lock task ts)
  | .slowpath cur m _ _ _ _ => cur.pid ∈ (mutexAt m pre).waiters
  | .acquire task m ts => (mutexAt m pre).Allows (.acquire task ts)
  | .unlock task m ts => (mutexAt m pre).Allows (.unlock task ts)

instance (pre : List Moment) : DecidablePred (Allowed pre)
  | .lock task m ts _ => inferInstanceAs (Decidable ((mutexAt m pre).Allows (.lock task ts)))
  | .slowpath cur m _ _ _ _ => inferInstanceAs (Decidable (cur.pid ∈ (mutexAt m pre).waiters))
  | .acquire task m ts => inferInstanceAs (Decidable ((mutexAt m pre).Allows (.acquire task ts)))
  | .unlock task m ts => inferInstanceAs (Decidable ((mutexAt m pre).Allows (.unlock task ts)))

/-- Tasks use mutexes, all of which are free at the beginning; the clock does not go backwards, and
updates succeed. -/
structure LockRun (tr : List Moment) : Prop where
  allowed : Throughout Allowed tr
  clock : (tr.map Moment.ts).Pairwise (· ≤ ·)
  served : ∀ e ∈ tr, e.served = true

def tracer : Machine State Moment MutexContentionEvent := machine.watching Moment.event

/-- The words of a mutex are those of the hold times `l`. -/
structure Held (info : MutexInfo) (l : List Span) : Prop where
  total : info.lockedTotal = (l.map Span.delay).sum
  greatest : Greatest (l.map Span.delay) info.lockedMax

/-- After an unlock the words are right. -/
def Exact (pre : List Moment) : Moment → Prop
  | .unlock task m ts => ∃ info,
      (tracer.exec (pre ++ [.unlock task m ts])).lookup m = some info ∧
        Held info (mutexAt m (pre ++ [.unlock task m ts])).holds
  | _ => True

/-- No total exceeds the time since the mutex was first acquired. -/
def Bounded (pre : List Moment) (e : Moment) : Prop :=
  ∀ m info first, (tracer.exec (pre ++ [e])).lookup m = some info →
    (mutexAt m (pre ++ [e])).firstAcquired = some first →
      info.lockedTotal.toNat + first.toNat ≤ e.ts.toNat

def HoldTimes (pre : List Moment) (e : Moment) : Prop := Exact pre e ∧ Bounded pre e

/-- An entry of `mutex_lock` for the mutex `m`. -/
def entered (m : UInt64) : Moment → Option UInt64
  | .lock _ mutex ts _ => if mutex = m then some ts else none
  | _ => none

/-- At an unlock, the latest entry for the mutex is at the time at which its owner got it. -/
def Timely (pre : List Moment) : Moment → Prop
  | .unlock _ m _ => latest (entered m) pre = (mutexAt m pre).owner.map Prod.snd
  | _ => True

instance (pre : List Moment) : DecidablePred (Timely pre)
  | .lock _ _ _ _ => inferInstanceAs (Decidable True)
  | .slowpath _ _ _ _ _ _ => inferInstanceAs (Decidable True)
  | .acquire _ _ _ => inferInstanceAs (Decidable True)
  | .unlock _ _ _ => inferInstanceAs (Decidable (_ = _))

section Mutex

variable {pre tr : List Moment} {e : Moment} {m : UInt64} {u : Use Int}

theorem mutexAt_snoc (he : uses m e = some u) :
    mutexAt m (pre ++ [e]) = (mutexAt m pre).step u := by
  rw [mutexAt, List.filterMap_append, List.filterMap_cons, he, List.filterMap_nil,
    List.foldl_append]
  rfl

theorem mutexAt_snoc_skip (he : uses m e = none) : mutexAt m (pre ++ [e]) = mutexAt m pre := by
  rw [mutexAt, List.filterMap_append, List.filterMap_cons, he, List.filterMap_nil,
    List.append_nil, mutexAt]

theorem uses_time (he : uses m e = some u) : u.time = e.ts := by
  cases e with
  | slowpath cur mutex ts owner room slot => cases he
  | _ =>
    simp only [uses, Option.ite_none_right_eq_some, Option.some.injEq] at he
    rw [← he.2]
    rfl

theorem uses_other (hm : e.mutex ≠ m) : uses m e = none := by
  cases e with
  | slowpath cur mutex ts owner room slot => rfl
  | _ => exact if_neg hm

theorem entered_other (hm : e.mutex ≠ m) : entered m e = none := by
  cases e with
  | lock task mutex ts room => exact if_neg hm
  | _ => rfl

theorem timeline (hclock : (tr.map Moment.ts).Pairwise (· ≤ ·)) {now : UInt64}
    (hnow : ∀ t ∈ tr.map Moment.ts, t ≤ now) : (mutexAt m tr).Timeline now := by
  induction tr using List.reverseRecOn generalizing now with
  | nil => exact Mutex.timeline_free now
  | append_singleton pre e ih =>
    rw [List.map_append, List.pairwise_append] at hclock
    have hpre : (mutexAt m pre).Timeline e.ts :=
      ih hclock.1 fun t ht => hclock.2.2 t ht e.ts (List.mem_singleton_self e.ts)
    have he : e.ts ≤ now := hnow e.ts (by simp)
    cases hu : uses m e with
    | none =>
      rw [mutexAt_snoc_skip hu]
      exact hpre.later he
    | some u =>
      rw [mutexAt_snoc hu]
      rw [← uses_time hu] at hpre he
      exact hpre.step.later he

end Mutex

section Step

variable {pre tr : List Moment} {e : Moment} {m : UInt64} {s : State} {info : MutexInfo}

/-- The element of another mutex stays. -/
theorem step_other (hm : e.mutex ≠ m) : (tracer.step s e).1.lookup m = s.lookup m := by
  have hne := Ne.symm hm
  cases e with
  | lock task mutex ts room =>
    show (traceMutexLock s mutex ts room).lookup m = _
    unfold traceMutexLock
    split
    · exact BpfMap.lookup_store_of_ne _ _ hne
    · exact BpfMap.lookup_update_of_ne _ _ _ hne
  | slowpath cur mutex ts owner room slot =>
    show (traceMutexLockSlowpath s mutex cur owner ts room slot).1.lookup m = _
    cases slot with
    | none => rfl
    | some r =>
      simp only [traceMutexLockSlowpath]
      split
      · exact BpfMap.lookup_store_of_ne _ _ hne
      · exact BpfMap.lookup_update_of_ne _ _ _ hne
  | acquire task mutex ts => rfl
  | unlock task mutex ts =>
    show (traceMutexUnlock s mutex task ts).lookup m = _
    unfold traceMutexUnlock
    split
    · exact BpfMap.lookup_store_of_ne _ _ hne
    · rfl

/-- An entry leaves an element with its time; the words of an old element stay. -/
theorem lock_lookup (s : State) (ts : UInt64) :
    (traceMutexLock s m ts true).lookup m =
      some { (s.lookup m).getD (newInfo m ts) with acquireTime := ts } := by
  unfold traceMutexLock
  cases hinfo : s.lookup m with
  | none =>
    show (s.update true m _).lookup m = _
    rw [BpfMap.update_true, BpfMap.lookup_store_self]
    rfl
  | some info => exact BpfMap.lookup_store_self s m _

/-- The slow path counts the contention, and nothing else. -/
theorem slowpath_lookup (hinfo : s.lookup m = some info) (cur : Task) (ts : UInt64)
    (owner : Option Task) (room : Bool) (slot : Option MutexContentionEvent) :
    ∃ contended, (traceMutexLockSlowpath s m cur owner ts room slot).1.lookup m =
      some { info with contendedTotal := contended } := by
  cases slot with
  | none => exact ⟨info.contendedTotal, hinfo⟩
  | some r =>
    simp only [traceMutexLockSlowpath, hinfo]
    exact ⟨_, BpfMap.lookup_store_self s m _⟩

theorem unlock_lookup (hinfo : s.lookup m = some info) (task : Int) (ts : UInt64) :
    (traceMutexUnlock s m task ts).lookup m = some (info.release task ts) := by
  simp only [traceMutexUnlock, hinfo]
  exact BpfMap.lookup_store_self s m _

/-- A hold is counted right exactly when it is counted from the acquisition. -/
theorem held_release_iff {l : List Span} {since ts : UInt64} {task : Int} (h : Held info l) :
    Held (info.release task ts) (l ++ [(since, ts)]) ↔ info.acquireTime = since := by
  have hsum : ((l ++ [(since, ts)]).map Span.delay).sum = info.lockedTotal + (ts - since) := by
    rw [h.total, List.map_append, List.sum_append, List.map_singleton, List.sum_singleton]
    rfl
  constructor
  · intro hright
    have htotal : info.lockedTotal + (ts - info.acquireTime) = info.lockedTotal + (ts - since) :=
      hright.total.trans hsum
    exact sub_right_inj.mp (add_left_cancel htotal)
  · rintro rfl
    refine ⟨hsum.symm, ?_⟩
    rw [List.map_append]
    exact h.greatest.add (ts - info.acquireTime)

end Step

/-- The element of a mutex has the time of the latest entry; a mutex without one was never used. -/
structure Tracked (m : UInt64) (tr : List Moment) (s : State) : Prop where
  time : (s.lookup m).map MutexInfo.acquireTime = latest (entered m) tr
  fresh : latest (entered m) tr = none → mutexAt m tr = Mutex.free

section Run

variable {pre tr : List Moment} {e : Moment} {m : UInt64} {s : State} {info : MutexInfo}

theorem LockRun.of_snoc (h : LockRun (pre ++ [e])) : LockRun pre where
  allowed := h.allowed.of_snoc
  clock := by
    have hclock := h.clock
    rw [List.map_append, List.pairwise_append] at hclock
    exact hclock.1
  served x hx := h.served x (List.mem_append_left [e] hx)

theorem LockRun.restrict (h : LockRun tr) (hp : pre <+: tr) : LockRun pre where
  allowed := h.allowed.restrict hp
  clock := h.clock.sublist (hp.sublist.map Moment.ts)
  served x hx := h.served x (hp.subset hx)

theorem LockRun.timeline (h : LockRun (pre ++ [e])) (m : UInt64) :
    (mutexAt m (pre ++ [e])).Timeline e.ts := by
  apply Mutrace.timeline h.clock
  intro t ht
  have hclock := h.clock
  rw [List.map_append, List.pairwise_append] at hclock
  rw [List.map_append, List.mem_append] at ht
  rcases ht with ht | ht
  · exact hclock.2.2 t ht e.ts (List.mem_singleton_self e.ts)
  · rw [List.mem_singleton.mp ht]
    exact UInt64.le_refl e.ts

/-- A mutex that someone owns or waits for has an element. -/
theorem Tracked.exists_info (h : Tracked m pre s) (hused : mutexAt m pre ≠ Mutex.free) :
    ∃ info, s.lookup m = some info ∧ latest (entered m) pre = some info.acquireTime := by
  cases hinfo : s.lookup m with
  | none =>
    have htime := h.time
    rw [hinfo] at htime
    exact absurd (h.fresh htime.symm) hused
  | some info =>
    have htime := h.time
    rw [hinfo] at htime
    exact ⟨info, rfl, htime.symm⟩

theorem used_of_waits {t : Int} (h : t ∈ (mutexAt m pre).waiters) : mutexAt m pre ≠ Mutex.free := by
  intro hfree
  rw [hfree] at h
  cases h

theorem used_of_owned {t : Int} (h : (mutexAt m pre).owner.map Prod.fst = some t) :
    mutexAt m pre ≠ Mutex.free := by
  intro hfree
  rw [hfree] at h
  cases h

/-- A moment that is no entry for the mutex keeps the time of its element. -/
theorem Tracked.keeps (h : Tracked m pre s) (hused : mutexAt m pre ≠ Mutex.free)
    (he : entered m e = none)
    (htime : ((tracer.step s e).1.lookup m).map MutexInfo.acquireTime =
      (s.lookup m).map MutexInfo.acquireTime) :
    Tracked m (pre ++ [e]) (tracer.step s e).1 where
  time := by
    rw [latest_snoc_none pre he, htime]
    exact h.time
  fresh hnone := by
    rw [latest_snoc_none pre he] at hnone
    exact absurd (h.fresh hnone) hused

theorem tracked (h : LockRun tr) (m : UInt64) : Tracked m tr (tracer.exec tr) := by
  induction tr using List.reverseRecOn with
  | nil => exact ⟨rfl, fun _ => rfl⟩
  | append_singleton pre e ih =>
    have hpre := ih h.of_snoc
    have hallowed := h.allowed.last
    have hserved := h.served e (List.mem_append_right pre (List.mem_singleton_self e))
    rw [tracer.exec_snoc]
    generalize tracer.exec pre = s at hpre ⊢
    by_cases hm : e.mutex = m
    · subst hm
      cases e with
      | lock task mutex ts room =>
        have he : entered mutex (.lock task mutex ts room) = some ts := if_pos rfl
        have hlookup : (tracer.step s (.lock task mutex ts room)).1.lookup mutex =
            some { (s.lookup mutex).getD (newInfo mutex ts) with acquireTime := ts } := by
          rw [show room = true from hserved]
          exact lock_lookup s ts
        constructor
        · show ((tracer.step s _).1.lookup mutex).map _ = latest (entered mutex) _
          rw [hlookup, latest_snoc_some pre he]
          rfl
        · show latest (entered mutex) _ = none → _
          rw [latest_snoc_some pre he]
          exact fun hnone => nomatch hnone
      | slowpath cur mutex ts owner room slot =>
        have hused := used_of_waits hallowed
        obtain ⟨info, hinfo, -⟩ : ∃ info, s.lookup mutex = some info ∧ _ := hpre.exists_info hused
        obtain ⟨contended, hlookup⟩ := slowpath_lookup hinfo cur ts owner room slot
        apply hpre.keeps hused rfl
        show ((traceMutexLockSlowpath s mutex cur owner ts room slot).1.lookup mutex).map _ = _
        rw [hlookup]
        show _ = (s.lookup mutex).map _
        rw [hinfo]
        rfl
      | acquire task mutex ts => exact hpre.keeps (used_of_waits hallowed.2) rfl rfl
      | unlock task mutex ts =>
        have hused := used_of_owned hallowed
        obtain ⟨info, hinfo, -⟩ : ∃ info, s.lookup mutex = some info ∧ _ := hpre.exists_info hused
        apply hpre.keeps hused rfl
        show ((traceMutexUnlock s mutex task ts).lookup mutex).map _ = (s.lookup mutex).map _
        rw [unlock_lookup hinfo, hinfo]
        rfl
    -- the moment is about another mutex
    · have he := entered_other hm
      constructor
      · rw [step_other hm, latest_snoc_none pre he]
        exact hpre.time
      · rw [latest_snoc_none pre he, mutexAt_snoc_skip (uses_other hm)]
        exact hpre.fresh

/-- The words of every element are right. -/
def Right (pre : List Moment) : Prop :=
  ∀ m info, (tracer.exec pre).lookup m = some info → Held info (mutexAt m pre).holds

/-- Only an unlock counts. -/
theorem right_snoc (h : LockRun (pre ++ [e])) (hright : Right pre) (hexact : Exact pre e) :
    Right (pre ++ [e]) := by
  intro m info hinfo
  have hallowed := h.allowed.last
  have hserved := h.served e (List.mem_append_right pre (List.mem_singleton_self e))
  have htracked := tracked h.of_snoc m
  by_cases hm : e.mutex = m
  · subst hm
    rw [tracer.exec_snoc] at hinfo
    cases e with
    | lock task mutex ts room =>
      have hlookup := lock_lookup (m := mutex) (tracer.exec pre) ts
      rw [show room = true from hserved] at hinfo
      have hinfo' := hlookup.symm.trans hinfo
      have hholds : (mutexAt mutex (pre ++ [Moment.lock task mutex ts room])).holds =
          (mutexAt mutex pre).holds := by
        have hu : uses mutex (.lock task mutex ts room) = some (.lock task ts) := if_pos rfl
        rw [mutexAt_snoc hu, Mutex.holds_lock]
      show Held info (mutexAt mutex _).holds
      rw [hholds]
      cases hinfo'
      cases hold : (tracer.exec pre).lookup mutex with
      | none =>
        have htime := htracked.time
        rw [show (Moment.lock task mutex ts room).mutex = mutex from rfl, hold] at htime
        have hfree : mutexAt mutex pre = Mutex.free := htracked.fresh htime.symm
        rw [hfree]
        exact ⟨rfl, Or.inl ⟨rfl, rfl⟩⟩
      | some old =>
        have hheld := hright mutex old hold
        exact ⟨hheld.total, hheld.greatest⟩
    | slowpath cur mutex ts owner room slot =>
      obtain ⟨old, hold, -⟩ := htracked.exists_info (used_of_waits hallowed)
      obtain ⟨contended, hlookup⟩ := slowpath_lookup hold cur ts owner room slot
      have hinfo' := hlookup.symm.trans hinfo
      cases hinfo'
      have hheld := hright mutex old hold
      show Held _ (mutexAt mutex _).holds
      rw [mutexAt_snoc_skip rfl]
      exact ⟨hheld.total, hheld.greatest⟩
    | acquire task mutex ts =>
      have hu : uses mutex (.acquire task mutex ts) = some (.acquire task ts) := if_pos rfl
      show Held info (mutexAt mutex _).holds
      rw [mutexAt_snoc hu]
      exact hright mutex info hinfo
    | unlock task mutex ts =>
      obtain ⟨info', hinfo', hheld⟩ := hexact
      rw [tracer.exec_snoc] at hinfo'
      cases hinfo'.symm.trans hinfo
      exact hheld
  · rw [tracer.exec_snoc, step_other hm] at hinfo
    rw [mutexAt_snoc_skip (uses_other hm)]
    exact hright m info hinfo

theorem exact_iff (h : LockRun (pre ++ [e])) (hright : Right pre) : Exact pre e ↔ Timely pre e := by
  cases e with
  | unlock task m ts =>
    have hallowed : (mutexAt m pre).owner.map Prod.fst = some task := h.allowed.last
    obtain ⟨o, howner, rfl⟩ := Option.map_eq_some_iff.mp hallowed
    obtain ⟨info, hinfo, hlatest⟩ := (tracked h.of_snoc m).exists_info (used_of_owned hallowed)
    have hu : uses m (.unlock o.1 m ts) = some (.unlock o.1 ts) := if_pos rfl
    have hholds : (mutexAt m (pre ++ [Moment.unlock o.1 m ts])).holds =
        (mutexAt m pre).holds ++ [(o.2, ts)] := by
      rw [mutexAt_snoc hu]
      simp only [Mutex.step, howner]
    have hlookup : (tracer.exec (pre ++ [Moment.unlock o.1 m ts])).lookup m =
        some (info.release o.1 ts) := by
      rw [tracer.exec_snoc]
      exact unlock_lookup hinfo o.1 ts
    show (∃ info, _ ∧ _) ↔ latest (entered m) pre = (mutexAt m pre).owner.map Prod.snd
    rw [hlookup, hholds, hlatest, howner, Option.map_some, Option.some.injEq,
      ← held_release_iff (hright m info hinfo)]
    constructor
    · rintro ⟨info', heq, hheld⟩
      cases heq
      exact hheld
    · intro hheld
      exact ⟨_, rfl, hheld⟩
  | _ => exact Iff.rfl

theorem right_bounded (h : LockRun (pre ++ [e])) (hright : Right (pre ++ [e])) : Bounded pre e := by
  intro m info first hinfo hfirst
  rw [(hright m info hinfo).total]
  exact (h.timeline m).spent_le hfirst

theorem holdTimes_iff (h : LockRun tr) : Throughout HoldTimes tr ↔ Throughout Timely tr := by
  refine (throughout_congr_of (R := Right) ?_ ?_ ?_).1
  · intro m info hinfo
    cases hinfo
  · intro pre e hp hright hheld
    exact right_snoc (h.restrict hp) hright hheld.1
  · intro pre e hp hright
    rw [← exact_iff (h.restrict hp) hright]
    constructor
    · exact fun hheld => hheld.1
    · intro hexact
      exact ⟨hexact, right_bounded (h.restrict hp) (right_snoc (h.restrict hp) hright hexact)⟩

/-- The hold times are right after every unlock, and the totals bounded at any time, exactly when
every unlock comes while the latest entry is at the time at which the owner got the mutex. -/
theorem hold_times (tr : List Moment) (h : LockRun tr) :
    Throughout HoldTimes tr ↔ Throughout Timely tr :=
  holdTimes_iff h

end Run

/-! ## Two runs -/

/-- Two tasks hold a mutex one after the other. -/
def oneByOne : List Moment :=
  [.lock 1 64 10 true, .unlock 1 64 30, .lock 2 64 40 true, .unlock 2 64 45]

theorem hold_times_oneByOne : Throughout HoldTimes oneByOne :=
  (hold_times oneByOne ⟨by decide, by decide, by decide⟩).mpr (by decide)

/-- Two tasks wait for a mutex while another one holds it. -/
def twoWaiters : List Moment :=
  [.lock 1 64 10 true, .lock 2 64 11 true,
    .slowpath ⟨2, Comm.none, 120⟩ 64 11 (some ⟨1, Comm.none, 120⟩) true none, .lock 3 64 12 true,
    .slowpath ⟨3, Comm.none, 120⟩ 64 12 (some ⟨1, Comm.none, 120⟩) true none, .unlock 1 64 100,
    .acquire 2 64 100, .unlock 2 64 200, .acquire 3 64 200]

/-- All three hold times are counted from the last entry, and overlap. -/
theorem waiters_count_from_entry : ∃ tr, LockRun tr ∧ ¬Throughout HoldTimes tr ∧
    ¬Throughout Bounded tr := by
  have hrun : LockRun (twoWaiters ++ [Moment.unlock 3 64 300]) := ⟨by decide, by decide, by decide⟩
  refine ⟨twoWaiters ++ [Moment.unlock 3 64 300], hrun, ?_, ?_⟩
  · rw [holdTimes_iff hrun]
    decide
  · intro h
    have hlast := h.last 64 ⟨564, 288, 0, 3, 12, 64⟩ 10 (by decide) (by decide)
    exact absurd hlast (by decide)

end CpuSubsystem.Mutrace
