import CpuSubsystem.CpuWatcher.Mutrace.Model
import CpuSubsystem.Lib.Probing

/-!
# The lock counters (`cpu_watcher/include/cpu_watcher_helper.h`, `mutrace_print`)

The counters of the locks are a table with open addressing of `HASH_SIZE` slots; a slot is free
while its `ptr` is 0. The probing loops have no bound of their own: `fuel` is the number of slots
that they may look at.
-/

namespace CpuSubsystem.Mutrace

/-- `HASH_SIZE`. -/
abbrev hashSize : Nat := 1024

/-- `lock_count_t`. -/
structure LockCount where
  ptr : UInt64
  count : UInt64
deriving DecidableEq, Repr

/-- `lock_counts`. -/
abbrev LockCounts := Fin hashSize → LockCount

/-- The zero-initialised array. -/
def noCounts : LockCounts := fun _ => ⟨0, 0⟩

def hash (ptr : UInt64) : Fin hashSize := ⟨ptr.toNat % hashSize, Nat.mod_lt _ (by decide)⟩

/-- `(h + 1) % HASH_SIZE`. -/
def nextSlot (h : Fin hashSize) : Fin hashSize := ⟨(h + 1) % hashSize, Nat.mod_lt _ (by decide)⟩

/-- The `while` loop that both functions begin with. -/
def probe (t : LockCounts) (ptr : UInt64) : Nat → Fin hashSize → Option (Fin hashSize)
  | 0, _ => none
  | fuel + 1, h =>
    if (t h).ptr ≠ 0 ∧ (t h).ptr ≠ ptr then probe t ptr fuel (nextSlot h) else some h

def incrementLockCount (fuel : Nat) (t : LockCounts) (ptr : UInt64) : Option LockCounts := do
  let h ← probe t ptr fuel (hash ptr)
  if (t h).ptr = 0 then
    return Function.update t h ⟨ptr, 1⟩
  else
    return Function.update t h { t h with count := (t h).count + 1 }

def getLockCount (fuel : Nat) (t : LockCounts) (ptr : UInt64) : Option UInt64 := do
  let h ← probe t ptr fuel (hash ptr)
  if (t h).ptr = 0 then return 0 else return (t h).count

/-- A printed line: the fields of the event and the count. -/
structure ContentionRow where
  event : MutexContentionEvent
  contentionCount : UInt64
deriving DecidableEq

/-- The events without an owner, without a contender or with owner 1 are skipped. -/
def MutexContentionEvent.skipped (e : MutexContentionEvent) : Bool :=
  e.ownerPid = 0 || e.contenderPid = 0 || e.ownerPid = 1

def mutracePrint (fuel : Nat) (t : LockCounts) (e : MutexContentionEvent) :
    Option (LockCounts × Option ContentionRow) :=
  if e.skipped then
    some (t, none)
  else do
    let t ← incrementLockCount fuel t e.ptr
    let contentionCount ← getLockCount fuel t e.ptr
    return (t, some ⟨e, contentionCount⟩)

/-- The callback over the events of the ring buffer; `none` when a call does not return. -/
def mutracePrints (fuel : Nat) (t : LockCounts) (events : List MutexContentionEvent) :
    Option LockCounts :=
  events.foldlM (fun t e => (mutracePrint fuel t e).map Prod.fst) t

/-- The key in each slot. -/
def keyAt (t : LockCounts) (h : Fin hashSize) : Option UInt64 :=
  if (t h).ptr = 0 then none else some (t h).ptr

variable {t t' : LockCounts} {ptr p : UInt64} {ptrs : List UInt64} {fuel : Nat} {h i : Fin hashSize}

theorem keyAt_eq_none : keyAt t h = none ↔ (t h).ptr = 0 := by
  unfold keyAt
  split <;> simp_all

theorem keyAt_eq_some (hp : p ≠ 0) : keyAt t h = some p ↔ (t h).ptr = p := by
  unfold keyAt
  split
  · rename_i hz
    simp [hz, hp.symm]
  · simp

theorem probe_eq_search (hptr : ptr ≠ 0) :
    probe t ptr fuel h = Probing.search nextSlot (keyAt t) ptr fuel h := by
  have hbusy : ∀ h, Probing.Busy (keyAt t) ptr h ↔ (t h).ptr ≠ 0 ∧ (t h).ptr ≠ ptr := fun h => by
    rw [Probing.Busy, ne_eq, keyAt_eq_none, ne_eq, keyAt_eq_some hptr]
  induction fuel generalizing h with
  | zero => rfl
  | succ fuel ih =>
    unfold probe Probing.search
    rw [ih]
    exact if_congr (hbusy h).symm rfl rfl

theorem nextSlot_iterate (d : Nat) : (nextSlot^[d] h).val = (h.val + d) % hashSize := by
  induction d with
  | zero => exact (Nat.mod_eq_of_lt h.isLt).symm
  | succ d ih =>
    rw [Function.iterate_succ_apply']
    change ((nextSlot^[d] h).val + 1) % hashSize = _
    rw [ih, Nat.mod_add_mod, Nat.add_assoc]

theorem nextSlot_cycle (h i : Fin hashSize) :
    ∃ d < Fintype.card (Fin hashSize), nextSlot^[d] h = i := by
  refine ⟨(i.val + hashSize - h.val) % hashSize, ?_, Fin.ext ?_⟩
  · rw [Fintype.card_fin]
    exact Nat.mod_lt _ (by decide)
  · have hround : h.val + (i.val + hashSize - h.val) = i.val + hashSize := by omega
    rw [nextSlot_iterate, Nat.add_mod_mod, hround, Nat.add_mod_right, Nat.mod_eq_of_lt i.isLt]

/-- The table after the increments of `ptrs`. -/
structure Counts (t : LockCounts) (ptrs : List UInt64) : Prop where
  sound : Probing.Sound nextSlot hash (keyAt t)
  keys : ∀ p, p ∈ ptrs.toFinset ↔ ∃ h, keyAt t h = some p
  count : ∀ h p, keyAt t h = some p → (t h).count = UInt64.ofNat (ptrs.count p)

theorem counts_noCounts : Counts noCounts [] where
  sound := Probing.sound_empty
  keys := by simp [keyAt, noCounts]
  count := by
    intro h p hp
    cases hp

theorem Counts.stored (hc : Counts t ptrs) (hp : p ∈ ptrs) : ∃ h, keyAt t h = some p :=
  (hc.keys p).mp (List.mem_toFinset.mpr hp)

theorem Counts.not_stored (hc : Counts t ptrs) (hp : p ∉ ptrs) (h : Fin hashSize) :
    keyAt t h ≠ some p := fun hk => hp (List.mem_toFinset.mp ((hc.keys p).mpr ⟨h, hk⟩))

/-- The loops find the slot of a pointer that is in the table. -/
theorem Counts.probe_stored (hc : Counts t ptrs) (hptr : ptr ≠ 0) (hmem : ptr ∈ ptrs)
    (hfuel : hashSize ≤ fuel) :
    ∃ h, keyAt t h = some ptr ∧ probe t ptr fuel (hash ptr) = some h := by
  obtain ⟨h, hh⟩ := hc.stored hmem
  refine ⟨h, hh, ?_⟩
  rw [probe_eq_search hptr]
  exact hc.sound.search_found nextSlot_cycle hh (by rwa [Fintype.card_fin])

/-- For another pointer they stop at the first free slot on its way. -/
theorem Counts.probe_missing (hc : Counts t ptrs) (hptr : ptr ≠ 0) (hmem : ptr ∉ ptrs)
    (hfree : keyAt t i = none) (hfuel : hashSize ≤ fuel) :
    ∃ h, probe t ptr fuel (hash ptr) = some h ∧ keyAt t h = none ∧
      Probing.Path nextSlot hash (keyAt t) ptr h := by
  rw [probe_eq_search hptr]
  exact Probing.search_missing hash nextSlot_cycle (hc.not_stored hmem) hfree
    (by rwa [Fintype.card_fin])

/-- The counter of a pointer that is in the table goes up by one. -/
theorem Counts.increment_old (hc : Counts t ptrs) (hptr : ptr ≠ 0) (hmem : ptr ∈ ptrs)
    (hfuel : hashSize ≤ fuel) :
    ∃ t', incrementLockCount fuel t ptr = some t' ∧ Counts t' (ptrs ++ [ptr]) := by
  obtain ⟨h, hh, hprobe⟩ := hc.probe_stored hptr hmem hfuel
  have hth := (keyAt_eq_some hptr).mp hh
  let t' := Function.update t h { t h with count := (t h).count + 1 }
  -- the keys stay where they are, so that only the counters are left to look at
  have hkey : keyAt t' = keyAt t := by
    funext i
    by_cases hi : i = h
    · simp [keyAt, t', hi]
    · simp [keyAt, t', Function.update_of_ne hi]
  refine ⟨t', ?_, ?_⟩
  · simp [incrementLockCount, hprobe, hth, hptr, t']
  · constructor
    · exact hkey ▸ hc.sound
    · intro p
      have hold := hc.keys p
      rw [hkey, ← hold]
      simp only [List.toFinset_append, Finset.mem_union, List.mem_toFinset, List.mem_singleton]
      exact ⟨fun hp => hp.elim id fun hp => hp ▸ hmem, Or.inl⟩
    · intro i p hi
      rw [hkey] at hi
      have hcount := hc.count i p hi
      rw [List.count_append]
      by_cases hih : i = h
      · have hp : p = ptr := Option.some.inj (hi.symm.trans (hih ▸ hh))
        rw [hih, hp] at hcount
        simp [t', hih, hp, hcount]
      · have hp : ptr ≠ p := fun hp => hih (hc.sound.unique hi (hp ▸ hh))
        simp [t', Function.update_of_ne hih, hcount, hp]

/-- A new pointer gets a free slot. -/
theorem Counts.increment_new (hc : Counts t ptrs) (hptr : ptr ≠ 0) (hmem : ptr ∉ ptrs)
    (hfree : keyAt t i = none) (hfuel : hashSize ≤ fuel) :
    ∃ t', incrementLockCount fuel t ptr = some t' ∧ Counts t' (ptrs ++ [ptr]) := by
  obtain ⟨h, hprobe, hnone, hpath⟩ := hc.probe_missing hptr hmem hfree hfuel
  have hth := keyAt_eq_none.mp hnone
  let t' := Function.update t h ⟨ptr, 1⟩
  have hkey : keyAt t' = Function.update (keyAt t) h (some ptr) := by
    funext i
    by_cases hi : i = h
    · simp [keyAt, t', hi, hptr]
    · simp [keyAt, t', Function.update_of_ne hi]
  refine ⟨t', by simp [incrementLockCount, hprobe, hth, t'], ?_⟩
  constructor
  · exact hkey ▸ hc.sound.store hnone hpath
  · intro p
    have hold := hc.keys p
    rw [hkey]
    simp only [List.toFinset_append, Finset.mem_union, List.mem_toFinset, List.mem_singleton] at *
    constructor
    · rintro (hp | rfl)
      · obtain ⟨j, hj⟩ := hold.mp hp
        have hjh : j ≠ h := fun hjh => Option.some_ne_none p (hj.symm.trans (hjh ▸ hnone))
        exact ⟨j, by rw [Function.update_of_ne hjh, hj]⟩
      · exact ⟨h, Function.update_self ..⟩
    · rintro ⟨j, hj⟩
      by_cases hjh : j = h
      · rw [hjh, Function.update_self] at hj
        exact Or.inr (Option.some.inj hj).symm
      · rw [Function.update_of_ne hjh] at hj
        exact Or.inl (hold.mpr ⟨j, hj⟩)
  · intro j p hj
    rw [hkey] at hj
    rw [List.count_append]
    by_cases hjh : j = h
    · rw [hjh, Function.update_self] at hj
      cases hj
      simp [t', hjh, List.count_eq_zero.mpr hmem]
    · rw [Function.update_of_ne hjh] at hj
      have hp : ptr ≠ p := fun hp => hc.not_stored hmem j (hp ▸ hj)
      simp [t', Function.update_of_ne hjh, hc.count j p hj, hp]

theorem Counts.free_iff (hc : Counts t ptrs) :
    (∃ h, keyAt t h = none) ↔ ptrs.toFinset.card < hashSize := by
  rw [hc.sound.free_iff hc.keys, Fintype.card_fin]

/-- In a full table the search of a pointer that is not there goes round for ever. -/
theorem Counts.increment_stuck (hc : Counts t ptrs) (hptr : ptr ≠ 0) (hmem : ptr ∉ ptrs)
    (hfull : hashSize ≤ ptrs.toFinset.card) (fuel : Nat) :
    incrementLockCount fuel t ptr = none := by
  have hbusy : ∀ h, Probing.Busy (keyAt t) ptr h := by
    intro h
    refine ⟨fun hnone => ?_, hc.not_stored hmem h⟩
    have hfree := hc.free_iff.mp ⟨h, hnone⟩
    omega
  unfold incrementLockCount
  rw [probe_eq_search hptr, Probing.search_none_of_busy hbusy]
  rfl

/-- One increment, for a pointer that is in the table or one more. -/
theorem Counts.increment (hc : Counts t ptrs) (hptr : ptr ≠ 0)
    (hcard : (ptrs ++ [ptr]).toFinset.card ≤ hashSize) (hfuel : hashSize ≤ fuel) :
    ∃ t', incrementLockCount fuel t ptr = some t' ∧ Counts t' (ptrs ++ [ptr]) := by
  by_cases hmem : ptr ∈ ptrs
  · exact hc.increment_old hptr hmem hfuel
  · -- a pointer that is new takes one of the slots that are allowed for
    have hnew : ptr ∉ ptrs.toFinset := fun h => hmem (List.mem_toFinset.mp h)
    have hlt : ptrs.toFinset.card < hashSize := by
      rw [List.toFinset_append, Finset.union_comm] at hcard
      simp only [List.toFinset_cons, List.toFinset_nil, insert_empty_eq, Finset.singleton_union,
        Finset.card_insert_of_notMem hnew] at hcard
      omega
    obtain ⟨h, hfree⟩ := hc.free_iff.mpr hlt
    exact hc.increment_new hptr hmem hfree hfuel

/-- A whole run of increments. -/
theorem counts_increments (hptrs : ∀ p ∈ ptrs, p ≠ 0) (hcard : ptrs.toFinset.card ≤ hashSize)
    (hfuel : hashSize ≤ fuel) :
    ∃ t, ptrs.foldlM (incrementLockCount fuel) noCounts = some t ∧ Counts t ptrs := by
  induction ptrs using List.reverseRecOn with
  | nil => exact ⟨noCounts, rfl, counts_noCounts⟩
  | append_singleton ptrs ptr ih =>
    have hgrow : ptrs.toFinset.card ≤ (ptrs ++ [ptr]).toFinset.card := by
      rw [List.toFinset_append]
      exact Finset.card_le_card Finset.subset_union_left
    obtain ⟨t, ht, hc⟩ := ih (fun p hp => hptrs p (List.mem_append_left _ hp)) (by omega)
    obtain ⟨t', ht', hc'⟩ := hc.increment (hptrs ptr (by simp)) hcard hfuel
    exact ⟨t', by simp [List.foldlM_append, ht, ht'], hc'⟩

/-- The search of a stored pointer reads its counter. -/
theorem Counts.get_stored (hc : Counts t ptrs) (hptr : ptr ≠ 0) (hmem : ptr ∈ ptrs)
    (hfuel : hashSize ≤ fuel) :
    getLockCount fuel t ptr = some (UInt64.ofNat (ptrs.count ptr)) := by
  obtain ⟨h, hh, hprobe⟩ := hc.probe_stored hptr hmem hfuel
  have hth := (keyAt_eq_some hptr).mp hh
  simp [getLockCount, hprobe, hth, hptr, hc.count h ptr hh]

theorem Counts.get_missing (hc : Counts t ptrs) (hptr : ptr ≠ 0) (hmem : ptr ∉ ptrs)
    (hcard : ptrs.toFinset.card < hashSize) (hfuel : hashSize ≤ fuel) :
    getLockCount fuel t ptr = some 0 := by
  obtain ⟨i, hfree⟩ := hc.free_iff.mpr hcard
  obtain ⟨h, hprobe, hnone, -⟩ := hc.probe_missing hptr hmem hfree hfuel
  simp [getLockCount, hprobe, keyAt_eq_none.mp hnone]

/-- The counters after any increments of at most `HASH_SIZE` locks. -/
theorem lockCounts_right (hptrs : ∀ p ∈ ptrs, p ≠ 0) (hcard : ptrs.toFinset.card ≤ hashSize)
    (hfuel : hashSize ≤ fuel) :
    ∃ t, ptrs.foldlM (incrementLockCount fuel) noCounts = some t ∧
      (∀ p ∈ ptrs, getLockCount fuel t p = some (UInt64.ofNat (ptrs.count p))) ∧
      (ptrs.toFinset.card < hashSize →
        ∀ p ∉ ptrs, p ≠ 0 → getLockCount fuel t p = some 0) := by
  obtain ⟨t, ht, hc⟩ := counts_increments hptrs hcard hfuel
  refine ⟨t, ht, ?_, ?_⟩
  · intro p hp
    exact hc.get_stored (hptrs p hp) hp hfuel
  · intro hlt p hp hzero
    exact hc.get_missing hzero hp hlt hfuel

/-- The pointers 5 and 1029 have the same hash. -/
theorem lockCounts_right_collision :
    ∃ t, [5, 1029, 5].foldlM (incrementLockCount hashSize) noCounts = some t ∧
      (∀ p ∈ ([5, 1029, 5] : List UInt64),
        getLockCount hashSize t p = some (UInt64.ofNat (List.count p [5, 1029, 5]))) ∧
      (([5, 1029, 5] : List UInt64).toFinset.card < hashSize →
        ∀ p ∉ ([5, 1029, 5] : List UInt64), p ≠ 0 → getLockCount hashSize t p = some 0) :=
  lockCounts_right (by simp) ((List.toFinset_card_le _).trans (by decide)) le_rfl

theorem increments_same (n : Nat) (hn : n ≠ 0) :
    ∃ t, (List.replicate n (1 : UInt64)).foldlM (incrementLockCount hashSize) noCounts = some t ∧
      getLockCount hashSize t 1 = some (UInt64.ofNat n) := by
  have hptrs : ∀ p ∈ List.replicate n (1 : UInt64), p ≠ 0 := by
    intro p hp
    rw [List.eq_of_mem_replicate hp]
    decide
  have hcard : (List.replicate n (1 : UInt64)).toFinset.card ≤ hashSize := by
    rw [List.toFinset_replicate_of_ne_zero hn, Finset.card_singleton]
    decide
  obtain ⟨t, ht, hc⟩ := counts_increments hptrs hcard le_rfl
  refine ⟨t, ht, ?_⟩
  rw [hc.get_stored (by decide) (List.mem_replicate.mpr ⟨hn, rfl⟩) le_rfl,
    List.count_replicate_self]

/-- The counter of a lock is back at 0 after `2^64` increments. -/
theorem lockCount_wraps :
    ∃ t, (List.replicate (2 ^ 64) (1 : UInt64)).foldlM (incrementLockCount hashSize) noCounts =
        some t ∧
      (List.replicate (2 ^ 64) (1 : UInt64)).count 1 = 2 ^ 64 ∧
      getLockCount hashSize t 1 = some 0 := by
  obtain ⟨t, ht, hget⟩ := increments_same (2 ^ 64) (by decide)
  refine ⟨t, ht, List.count_replicate_self, ?_⟩
  rw [hget]
  exact congrArg some (UInt64.toNat_inj.mp (by rw [UInt64.toNat_ofNat']; rfl))

/-- The locks whose contention is counted. -/
def counted (events : List MutexContentionEvent) : List UInt64 :=
  (events.filter fun e => !e.skipped).map (·.ptr)

variable {e : MutexContentionEvent} {events : List MutexContentionEvent}

theorem counted_snoc : counted (events ++ [e]) =
    if e.skipped then counted events else counted events ++ [e.ptr] := by
  unfold counted
  rw [List.filter_append, List.map_append]
  split
  · rename_i he
    simp [he]
  · rename_i he
    simp [he]

theorem mutracePrints_snoc : mutracePrints fuel t (events ++ [e]) =
    (mutracePrints fuel t events).bind fun t => (mutracePrint fuel t e).map Prod.fst := by
  unfold mutracePrints
  rw [List.foldlM_append]
  simp only [List.foldlM_cons, List.foldlM_nil, bind_pure]
  rfl

/-- A call returns as soon as its increment does; the search of the counter finds the pointer. -/
theorem Counts.print (hc : Counts t ptrs) (hptr : e.ptr ≠ 0) (he : e.skipped = false)
    (hcard : (ptrs ++ [e.ptr]).toFinset.card ≤ hashSize) (hfuel : hashSize ≤ fuel) :
    ∃ t', (mutracePrint fuel t e).map Prod.fst = some t' ∧ Counts t' (ptrs ++ [e.ptr]) := by
  obtain ⟨t', ht', hc'⟩ := hc.increment hptr hcard hfuel
  have hget := hc'.get_stored hptr (by simp) hfuel
  exact ⟨t', by simp [mutracePrint, he, ht', hget], hc'⟩

theorem counts_prints (hptrs : ∀ e ∈ events, e.ptr ≠ 0)
    (hcard : (counted events).toFinset.card ≤ hashSize) (hfuel : hashSize ≤ fuel) :
    ∃ t, mutracePrints fuel noCounts events = some t ∧ Counts t (counted events) := by
  induction events using List.reverseRecOn with
  | nil => exact ⟨noCounts, rfl, counts_noCounts⟩
  | append_singleton events e ih =>
    have hptrs' : ∀ e ∈ events, e.ptr ≠ 0 := fun e he => hptrs e (List.mem_append_left _ he)
    rw [counted_snoc] at hcard ⊢
    rw [mutracePrints_snoc]
    cases he : e.skipped with
    | true =>
      rw [he, if_pos rfl] at hcard
      obtain ⟨t, ht, hc⟩ := ih hptrs' hcard
      exact ⟨t, by simp [ht, mutracePrint, he], by simpa using hc⟩
    | false =>
      rw [he, if_neg Bool.false_ne_true] at hcard
      have hgrow : (counted events).toFinset.card ≤ (counted events ++ [e.ptr]).toFinset.card := by
        rw [List.toFinset_append]
        exact Finset.card_le_card Finset.subset_union_left
      obtain ⟨t, ht, hc⟩ := ih hptrs' (by omega)
      obtain ⟨t', ht', hc'⟩ := hc.print (hptrs e (by simp)) he hcard hfuel
      exact ⟨t', by simp [ht, ht'], by simpa using hc'⟩

/-- A loop that has ended is not changed by more fuel. -/
theorem probe_mono {fuel' : Nat} (hle : fuel ≤ fuel') (hi : probe t ptr fuel h = some i) :
    probe t ptr fuel' h = some i := by
  induction fuel generalizing h fuel' with
  | zero => cases hi
  | succ fuel ih =>
    cases fuel' with
    | zero => omega
    | succ fuel' =>
      unfold probe at hi ⊢
      split at hi
      · rename_i hbusy
        rw [if_pos hbusy]
        exact ih (by omega) hi
      · rename_i hstop
        rw [if_neg hstop]
        exact hi

theorem incrementLockCount_mono {fuel' : Nat} (hle : fuel ≤ fuel')
    (ht : incrementLockCount fuel t ptr = some t') : incrementLockCount fuel' t ptr = some t' := by
  unfold incrementLockCount at ht ⊢
  obtain ⟨h, hh, ht⟩ := Option.bind_eq_some_iff.mp ht
  exact Option.bind_eq_some_iff.mpr ⟨h, probe_mono hle hh, ht⟩

theorem getLockCount_mono {fuel' : Nat} {c : UInt64} (hle : fuel ≤ fuel')
    (hc : getLockCount fuel t ptr = some c) : getLockCount fuel' t ptr = some c := by
  unfold getLockCount at hc ⊢
  obtain ⟨h, hh, hc⟩ := Option.bind_eq_some_iff.mp hc
  exact Option.bind_eq_some_iff.mpr ⟨h, probe_mono hle hh, hc⟩

theorem mutracePrint_mono {fuel' : Nat} {r : LockCounts × Option ContentionRow}
    (hle : fuel ≤ fuel') (hr : mutracePrint fuel t e = some r) :
    mutracePrint fuel' t e = some r := by
  unfold mutracePrint at hr ⊢
  split at hr
  · rename_i he
    rw [if_pos he]
    exact hr
  · rename_i he
    obtain ⟨t', ht', hr⟩ := Option.bind_eq_some_iff.mp hr
    obtain ⟨c, hc, hr⟩ := Option.bind_eq_some_iff.mp hr
    rw [if_neg he]
    simp only [incrementLockCount_mono hle ht', getLockCount_mono hle hc, Option.bind_eq_bind,
      Option.bind_some]
    exact hr

theorem mutracePrints_mono {fuel' : Nat} (hle : fuel ≤ fuel')
    (ht : mutracePrints fuel t events = some t') : mutracePrints fuel' t events = some t' := by
  induction events using List.reverseRecOn generalizing t' with
  | nil => exact ht
  | append_singleton events e ih =>
    rw [mutracePrints_snoc, Option.bind_eq_some_iff] at ht ⊢
    obtain ⟨t₁, ht₁, ht'⟩ := ht
    obtain ⟨r, hr, hrt⟩ := Option.map_eq_some_iff.mp ht'
    exact ⟨t₁, ih ht₁, Option.map_eq_some_iff.mpr ⟨r, mutracePrint_mono hle hr, hrt⟩⟩

/-- A run that returns has met at most `HASH_SIZE` locks: the next one would not find a slot. -/
theorem card_of_prints (hptrs : ∀ e ∈ events, e.ptr ≠ 0) (hfuel : hashSize ≤ fuel)
    (ht : mutracePrints fuel noCounts events = some t) :
    (counted events).toFinset.card ≤ hashSize := by
  induction events using List.reverseRecOn generalizing t with
  | nil => exact Nat.zero_le hashSize
  | append_singleton events e ih =>
    have hptrs' : ∀ e ∈ events, e.ptr ≠ 0 := fun e he => hptrs e (List.mem_append_left _ he)
    rw [mutracePrints_snoc, Option.bind_eq_some_iff] at ht
    obtain ⟨t₁, ht₁, ht⟩ := ht
    have hcard := ih hptrs' ht₁
    obtain ⟨t₂, ht₂, hc⟩ := counts_prints hptrs' hcard hfuel
    cases ht₁.symm.trans ht₂
    rw [counted_snoc]
    cases he : e.skipped with
    | true => simpa using hcard
    | false =>
      rw [if_neg Bool.false_ne_true, List.toFinset_append, Finset.union_comm]
      simp only [List.toFinset_cons, List.toFinset_nil, insert_empty_eq, Finset.singleton_union]
      by_cases hmem : e.ptr ∈ counted events
      · rwa [Finset.insert_eq_of_mem (List.mem_toFinset.mpr hmem)]
      · rw [Finset.card_insert_of_notMem fun h => hmem (List.mem_toFinset.mp h)]
        by_contra hfull
        have hstuck := hc.increment_stuck (hptrs e (by simp)) hmem (by omega) fuel
        simp [mutracePrint, he, hstuck] at ht

/-- Every call of `mutrace_print` returns, exactly if no more locks come up than there are slots. -/
theorem mutracePrints_return_iff (hptrs : ∀ e ∈ events, e.ptr ≠ 0) :
    (∃ fuel, (mutracePrints fuel noCounts events).isSome) ↔
      (counted events).toFinset.card ≤ hashSize := by
  constructor
  · rintro ⟨fuel, hsome⟩
    obtain ⟨t, ht⟩ := Option.isSome_iff_exists.mp hsome
    exact card_of_prints hptrs (Nat.le_add_left hashSize fuel)
      (mutracePrints_mono (Nat.le_add_right fuel hashSize) ht)
  · intro hcard
    obtain ⟨t, ht, -⟩ := counts_prints hptrs hcard le_rfl
    exact ⟨hashSize, by rw [ht]; rfl⟩

/-- One contention of the mutex at `ptr`, of which 5 is the owner. -/
def contention (ptr : UInt64) : MutexContentionEvent :=
  ⟨ptr, 5, 6, Comm.none, Comm.none, 120, 120⟩

theorem mutracePrints_return_iff_contention :
    (∃ fuel, (mutracePrints fuel noCounts [contention 64, contention 1088]).isSome) ↔
      (counted [contention 64, contention 1088]).toFinset.card ≤ hashSize :=
  mutracePrints_return_iff (by decide)

/-- One contention of each of `n` mutexes. -/
def contentions (n : Nat) : List MutexContentionEvent :=
  (List.range n).map fun i => contention (UInt64.ofNat (i + 1))

theorem contentions_ptr {n : Nat} (hn : n < 2 ^ 64) : ∀ e ∈ contentions n, e.ptr ≠ 0 := by
  intro e he hz
  obtain ⟨i, hi, rfl⟩ := List.mem_map.mp he
  have hlt := List.mem_range.mp hi
  have hval := congrArg UInt64.toNat (show UInt64.ofNat (i + 1) = 0 from hz)
  rw [UInt64.toNat_ofNat_of_lt' (by simp only [UInt64.size]; omega)] at hval
  exact Nat.succ_ne_zero i hval

theorem card_contentions {n : Nat} (hn : n < 2 ^ 64) :
    (counted (contentions n)).toFinset.card = n := by
  have hptrs : counted (contentions n) = (List.range n).map fun i => UInt64.ofNat (i + 1) := by
    unfold counted contentions
    rw [List.filter_map, List.map_map]
    simp [Function.comp_def, contention, MutexContentionEvent.skipped]
  have hnodup : (counted (contentions n)).Nodup := by
    rw [hptrs]
    apply List.nodup_range.map_on
    intro i hi j hj hij
    have hlti := List.mem_range.mp hi
    have hltj := List.mem_range.mp hj
    have hval := congrArg UInt64.toNat hij
    rw [UInt64.toNat_ofNat_of_lt' (by simp only [UInt64.size]; omega),
      UInt64.toNat_ofNat_of_lt' (by simp only [UInt64.size]; omega)] at hval
    exact Nat.succ_inj.mp hval
  rw [List.toFinset_card_of_nodup hnodup, hptrs, List.length_map, List.length_range]

/-- With one mutex more than slots the last call does not return. -/
theorem newLock_probes_forever :
    (∀ e ∈ contentions 1025, e.ptr ≠ 0) ∧
      ∀ fuel, mutracePrints fuel noCounts (contentions 1025) = none := by
  have hptrs := contentions_ptr (n := 1025) (by decide)
  refine ⟨hptrs, fun fuel => ?_⟩
  cases ht : mutracePrints fuel noCounts (contentions 1025) with
  | none => rfl
  | some t =>
    have hcard := card_of_prints hptrs (Nat.le_add_left hashSize fuel)
      (mutracePrints_mono (Nat.le_add_right fuel hashSize) ht)
    rw [card_contentions (by decide)] at hcard
    exact absurd hcard (by decide)

end CpuSubsystem.Mutrace
