import CpuSubsystem.Lib.Latest
import CpuSubsystem.ProcImage.MigrateImage.Consistency

/-!
# Migrations while the user side is at work

The user side reads a record, works for a while and writes its copy back with another `rear`.  The
migrations in between are counted in the record but not in the copy: the count falls back, and its
numbers are given a second time.  A number is also given twice if the record of a task could not be
inserted.  Without such a race a call does what `migratePrint` does at once.
-/

namespace CpuSubsystem.MigrateImage

/-- The record that the user side holds a copy of, and the copy. -/
def Phase.copied : Phase → Option (Int × MigrateEvent)
  | .printing nextKey e _ _ | .deleting nextKey e _ _ => some (nextKey, e)
  | .idle | .reading _ | .looking _ => none

/-- The record that the next operation writes back, and the copy. -/
def Phase.writesBack : Phase → Option (Int × MigrateEvent)
  | .printing nextKey e i _ => if i ≤ e.count then none else some (nextKey, e)
  | .idle | .reading _ | .looking _ | .deleting .. => none

/-- The event is a migration of the task. -/
def Tick.isOf (p : Int) : Tick → Bool
  | .schedMigrateTask args .. => args.pid = p
  | .resume .. => false

/-- The migrations counted in the record since the user side read it. -/
def missed : List Tick → Nat :=
  reader.ghost 0 fun n r t =>
    match t with
    | .schedMigrateTask args .. =>
      if (r.phase.copied.map Prod.fst = some args.pid) ∧ (assigned r.maps args).isSome then n + 1
      else n
    | .resume .. =>
      match r.phase with
      | .looking _ => 0
      | _ => n

/-- The key given to a migration. -/
def given (r : Reader) : Tick → Option MinfoKey
  | .schedMigrateTask args .. => assigned r.maps args
  | .resume .. => none

/-- The keys given to migrations so far. -/
def keysGiven (tr : List Tick) : List MinfoKey :=
  collect (fun pre t => given (reader.exec pre) t) tr

/-- No count decreases, and a key that is given is new. -/
def Lossless (pre : List Tick) (t : Tick) : Prop :=
  (∀ p e, (reader.exec pre).maps.migrate.lookup p = some e →
    ∃ e', (reader.exec (pre ++ [t])).maps.migrate.lookup p = some e' ∧ e.count ≤ e'.count) ∧
  ∀ k, given (reader.exec pre) t = some k → k ∉ keysGiven pre

/-- No migration was counted since the record was read that is written back now; and no migration
finds that its task has none although it migrated before. -/
def Exclusive (pre : List Tick) : Tick → Prop
  | .schedMigrateTask args .. =>
    (reader.exec pre).maps.migrate.lookup args.pid = none → ∀ t ∈ pre, t.isOf args.pid = false
  | .resume .. => (reader.exec pre).phase.writesBack.isSome = true → missed pre = 0

/-- How copies and keys relate to the records while nothing is lost. -/
structure Orderly (tr : List Tick) : Prop where
  behind : ∀ p ev, (reader.exec tr).phase.copied = some (p, ev) →
    ∃ e, (reader.exec tr).maps.migrate.lookup p = some e ∧ e.count = ev.count + missed tr
  bound : ∀ k ∈ keysGiven tr, ∀ e, (reader.exec tr).maps.migrate.lookup k.pid = some e →
    k.count ≤ e.count
  first : ∀ k ∈ keysGiven tr, (reader.exec tr).maps.migrate.lookup k.pid = none → k.count = 1
  known : ∀ p, (reader.exec tr).maps.migrate.lookup p = none →
    ∀ t ∈ tr, t.isOf p = true → ⟨p, 1⟩ ∈ keysGiven tr

section Steps

variable {s : State} {r : Reader} {args : Args} {cur : Current} {time : UInt64} {rooms : Rooms}
variable {next : Option Int} {room : Bool} {pre : List Tick} {p : Int} {e : MigrateEvent}

theorem schedMigrateTask_count (args : Args) (cur : Current) (time : UInt64) (rooms : Rooms)
    (h : s.migrate.lookup p = some e) :
    ∃ e', (schedMigrateTask s args cur time rooms).migrate.lookup p = some e' ∧
      e'.count = if p = args.pid ∧ (assigned s args).isSome then e.count + 1 else e.count := by
  by_cases hp : p = args.pid
  · rw [hp] at h ⊢
    by_cases hc : 0 < e.count ∧ e.count < maxMigrate
    · rw [schedMigrateTask_next h hc, assigned_next h hc]
      exact ⟨_, BpfMap.lookup_store_self _ _ _, by simp⟩
    · rw [schedMigrateTask_full h hc, assigned_full h hc]
      exact ⟨e, h, by simp⟩
  · refine ⟨e, ?_, by simp [hp]⟩
    cases hl : s.migrate.lookup args.pid with
    | none =>
      rw [schedMigrateTask_first hl, BpfMap.lookup_update_of_ne _ _ _ hp]
      exact h
    | some e' =>
      by_cases hc : 0 < e'.count ∧ e'.count < maxMigrate
      · rw [schedMigrateTask_next hl hc, BpfMap.lookup_store_of_ne _ _ hp]
        exact h
      · rw [schedMigrateTask_full hl hc]
        exact h

/-- A record that appears has the count 1. -/
theorem schedMigrateTask_new (h : s.migrate.lookup p = none)
    (he : (schedMigrateTask s args cur time rooms).migrate.lookup p = some e) :
    p = args.pid ∧ e.count = 1 := by
  cases hl : s.migrate.lookup args.pid with
  | none =>
    rw [schedMigrateTask_first hl] at he
    by_cases hp : p = args.pid
    · rw [hp, BpfMap.lookup_update_self] at he
      split at he
      · cases he
        exact ⟨hp, rfl⟩
      · cases he
    · rw [BpfMap.lookup_update_of_ne _ _ _ hp, h] at he
      cases he
  | some e' =>
    have hp : p ≠ args.pid := by
      intro hp
      rw [hp, hl] at h
      cases h
    by_cases hc : 0 < e'.count ∧ e'.count < maxMigrate
    · rw [schedMigrateTask_next hl hc, BpfMap.lookup_store_of_ne _ _ hp, h] at he
      cases he
    · rw [schedMigrateTask_full hl hc, h] at he
      cases he

/-- The user side changes a record only when it writes one back. -/
theorem resume_migrate (r : Reader) (next : Option Int) (room : Bool) :
    (resume r next room).1.maps.migrate =
      match r.phase.writesBack with
      | none => r.maps.migrate
      | some (nextKey, e) =>
        r.maps.migrate.update room nextKey { e with rear := e.count + 1 } := by
  obtain ⟨s, phase⟩ := r
  cases phase with
  | idle => rfl
  | reading lookupKey => cases next <;> rfl
  | looking nextKey =>
    cases hl : s.migrate.lookup nextKey with
    | none => simp only [resume, hl, Phase.writesBack]
    | some e =>
      simp only [resume, hl, Phase.writesBack]
      split <;> rfl
  | printing nextKey e i last =>
    by_cases hi : i ≤ e.count
    · simp only [resume, Phase.writesBack, if_pos hi]
      cases s.migrateInfo.lookup ⟨e.pid, i⟩ <;> rfl
    · simp only [resume, Phase.writesBack, if_neg hi]
  | deleting nextKey e i last => rfl

/-- The user side comes to hold a copy by a lookup only. -/
theorem resume_copied {ev : MigrateEvent} (h : (resume r next room).1.phase.copied = some (p, ev)) :
    (r.phase = .looking p ∧ r.maps.migrate.lookup p = some ev) ∨
      (r.phase.copied = some (p, ev) ∧ r.phase.writesBack = none) := by
  obtain ⟨s, phase⟩ := r
  cases phase with
  | idle => cases h
  | reading lookupKey => cases next <;> cases h
  | looking nextKey =>
    left
    cases hl : s.migrate.lookup nextKey with
    | none =>
      simp only [resume, hl] at h
      cases h
    | some e =>
      simp only [resume, hl] at h
      split at h
      · cases h
      · cases h
        exact ⟨rfl, hl⟩
  | printing nextKey e i last =>
    right
    by_cases hi : i ≤ e.count
    · simp only [resume, if_pos hi] at h
      refine ⟨?_, if_pos hi⟩
      cases hl : s.migrateInfo.lookup ⟨e.pid, i⟩ with
      | none =>
        rw [hl] at h
        exact h
      | some info =>
        rw [hl] at h
        exact h
    · simp only [resume, if_neg hi] at h
      cases h
  | deleting nextKey e i last => exact Or.inr ⟨h, rfl⟩

theorem writesBack_copied {phase : Phase} {c : Int × MigrateEvent}
    (h : phase.writesBack = some c) : phase.copied = some c := by
  cases phase with
  | printing nextKey e i last =>
    simp only [Phase.writesBack] at h
    split at h
    · cases h
    · exact h
  | idle => cases h
  | reading lookupKey => cases h
  | looking nextKey => cases h
  | deleting nextKey e i last => cases h

end Steps

section Run

variable {tr pre : List Tick} {t : Tick} {args : Args} {cur : Current} {time : UInt64}
variable {rooms : Rooms} {next : Option Int} {room : Bool}

theorem exec_migration (pre : List Tick) (args : Args) (cur : Current) (time : UInt64)
    (rooms : Rooms) : reader.exec (pre ++ [Tick.schedMigrateTask args cur time rooms]) =
      { reader.exec pre with
        maps := schedMigrateTask (reader.exec pre).maps args cur time rooms } :=
  reader.exec_snoc _ _

theorem exec_resume (pre : List Tick) (next : Option Int) (room : Bool) :
    reader.exec (pre ++ [Tick.resume next room]) = (resume (reader.exec pre) next room).1 :=
  reader.exec_snoc _ _

theorem missed_migration (pre : List Tick) (args : Args) (cur : Current) (time : UInt64)
    (rooms : Rooms) : missed (pre ++ [Tick.schedMigrateTask args cur time rooms]) =
      if ((reader.exec pre).phase.copied.map Prod.fst = some args.pid) ∧
        (assigned (reader.exec pre).maps args).isSome then missed pre + 1 else missed pre :=
  reader.ghost_snoc _ _ _ _

theorem missed_resume (pre : List Tick) (next : Option Int) (room : Bool) :
    missed (pre ++ [Tick.resume next room]) =
      match (reader.exec pre).phase with
      | .looking _ => 0
      | _ => missed pre :=
  reader.ghost_snoc _ _ _ _

theorem keysGiven_snoc (pre : List Tick) (t : Tick) :
    keysGiven (pre ++ [t]) = keysGiven pre ++ (given (reader.exec pre) t).toList :=
  collect_snoc _ _ _

theorem mem_keysGiven_snoc {k : MinfoKey} :
    k ∈ keysGiven (pre ++ [t]) ↔ k ∈ keysGiven pre ∨ given (reader.exec pre) t = some k := by
  rw [keysGiven_snoc, List.mem_append, Option.mem_toList]

theorem orderly_nil : Orderly [] where
  behind p ev h := by cases h
  bound k h := by cases h
  first k h := by cases h
  known p _ t h := by cases h

/-- A key is given to a migration of its task. -/
theorem migrated_of_given {k : MinfoKey} (h : k ∈ keysGiven tr) :
    ∃ t ∈ tr, t.isOf k.pid = true := by
  induction tr using List.reverseRecOn with
  | nil => cases h
  | append_singleton pre t ih =>
    rcases mem_keysGiven_snoc.mp h with h | h
    · obtain ⟨t', ht', hof⟩ := ih h
      exact ⟨t', List.mem_append_left _ ht', hof⟩
    · refine ⟨t, List.mem_append_right _ (List.mem_singleton_self t), ?_⟩
      cases t with
      | schedMigrateTask args cur time rooms =>
        rw [assigned_pid h]
        exact decide_eq_true rfl
      | resume next room => cases h

theorem Orderly.migration_iff (h : Orderly pre) :
    Lossless pre (.schedMigrateTask args cur time rooms) ↔
      Exclusive pre (.schedMigrateTask args cur time rooms) := by
  constructor
  · rintro ⟨-, hnew⟩ hl t ht
    rw [← Bool.not_eq_true]
    intro hof
    exact hnew _ (assigned_first hl) (h.known _ hl t ht hof)
  · intro hfirst
    refine ⟨fun p e he => ?_, fun k hk hmem => ?_⟩
    · obtain ⟨e', he', hcount⟩ := schedMigrateTask_count args cur time rooms he
      rw [exec_migration]
      refine ⟨e', he', ?_⟩
      rw [hcount]
      split <;> omega
    · have hpid : k.pid = args.pid := assigned_pid hk
      cases hl : (reader.exec pre).maps.migrate.lookup args.pid with
      | none =>
        -- the key was given to an earlier migration, and there is none
        obtain ⟨t, ht, hof⟩ := migrated_of_given hmem
        rw [hpid, hfirst hl t ht] at hof
        cases hof
      | some e =>
        have hle := h.bound k hmem e (by rw [hpid, hl])
        have hcount := assigned_count hl hk
        omega

theorem Orderly.resume_iff (h : Orderly pre) :
    Lossless pre (.resume next room) ↔ Exclusive pre (.resume next room) := by
  have hmaps := resume_migrate (reader.exec pre) next room
  rw [← exec_resume] at hmaps
  unfold Lossless Exclusive
  cases hback : (reader.exec pre).phase.writesBack with
  | none =>
    rw [hback] at hmaps
    rw [hmaps]
    constructor
    · intro _ hsome
      cases hsome
    · exact fun _ => ⟨fun p e he => ⟨e, he, Int.le_refl _⟩, fun k hk => by cases hk⟩
  | some c =>
    obtain ⟨q, ev⟩ := c
    obtain ⟨e₀, he₀, hcount⟩ := h.behind q ev (writesBack_copied hback)
    have haccepts : (reader.exec pre).maps.migrate.accepts room q = true := by
      rw [BpfMap.accepts, he₀, Option.isSome_some, Bool.or_true]
    rw [hback] at hmaps
    simp only [BpfMap.update_of_accepts _ haccepts] at hmaps
    rw [hmaps]
    -- the count falls back by what was missed
    constructor
    · rintro ⟨hkept, -⟩ -
      obtain ⟨e', he', hle⟩ := hkept q e₀ he₀
      rw [BpfMap.lookup_store_self] at he'
      cases he'
      simp only at hle
      omega
    · intro hzero
      have hmissed := hzero rfl
      refine ⟨fun p e he => ?_, fun k hk => by cases hk⟩
      rw [BpfMap.lookup_store]
      by_cases hp : p = q
      · rw [hp, he₀] at he
        cases he
        rw [if_pos hp]
        exact ⟨_, rfl, by simp only; omega⟩
      · rw [if_neg hp]
        exact ⟨e, he, Int.le_refl _⟩

theorem Orderly.behind_snoc (h : Orderly pre) (t : Tick) (q : Int) (ev : MigrateEvent)
    (hcopied : (reader.exec (pre ++ [t])).phase.copied = some (q, ev)) :
    ∃ e, (reader.exec (pre ++ [t])).maps.migrate.lookup q = some e ∧
      e.count = ev.count + missed (pre ++ [t]) := by
  cases t with
  | schedMigrateTask args cur time rooms =>
    rw [exec_migration] at hcopied ⊢
    obtain ⟨e₀, he₀, hcount⟩ := h.behind q ev hcopied
    obtain ⟨e', he', hcount'⟩ := schedMigrateTask_count args cur time rooms he₀
    refine ⟨e', he', ?_⟩
    rw [hcount', missed_migration, hcopied]
    simp only [Option.map_some, Option.some.injEq]
    split
    · rw [Nat.cast_add, Nat.cast_one]
      omega
    · exact hcount
  | resume next room =>
    have hmaps := resume_migrate (reader.exec pre) next room
    rw [exec_resume] at hcopied ⊢
    rw [missed_resume]
    rcases resume_copied hcopied with ⟨hphase, hl⟩ | ⟨hsame, hback⟩
    · rw [hphase] at hmaps ⊢
      rw [hmaps]
      exact ⟨ev, hl, (Int.add_zero _).symm⟩
    · rw [hback] at hmaps
      rw [hmaps]
      obtain ⟨e₀, he₀, hcount⟩ := h.behind q ev hsame
      refine ⟨e₀, he₀, ?_⟩
      cases hphase : (reader.exec pre).phase with
      | looking nextKey =>
        rw [hphase] at hsame
        cases hsame
      | idle => exact hcount
      | reading lookupKey => exact hcount
      | printing nextKey e i last => exact hcount
      | deleting nextKey e i last => exact hcount

/-- Records appear by a first migration only. -/
theorem Orderly.appears (h : Orderly pre) {q : Int} {e : MigrateEvent}
    (hl : (reader.exec pre).maps.migrate.lookup q = none)
    (he : (reader.exec (pre ++ [t])).maps.migrate.lookup q = some e) : e.count = 1 := by
  cases t with
  | schedMigrateTask args cur time rooms =>
    rw [exec_migration] at he
    exact (schedMigrateTask_new hl he).2
  | resume next room =>
    rw [exec_resume, resume_migrate] at he
    cases hback : (reader.exec pre).phase.writesBack with
    | none =>
      rw [hback, hl] at he
      cases he
    | some c =>
      obtain ⟨e₀, he₀, -⟩ := h.behind c.1 c.2 (writesBack_copied hback)
      have hq : q ≠ c.1 := by
        intro hq
        rw [← hq, hl] at he₀
        cases he₀
      rw [hback] at he
      simp only [BpfMap.lookup_update_of_ne _ _ _ hq, hl] at he
      cases he

/-- Without a record, a migration gets the first key. -/
theorem given_first {k : MinfoKey} (hk : given (reader.exec pre) t = some k)
    (hl : (reader.exec pre).maps.migrate.lookup k.pid = none) : k.count = 1 := by
  cases t with
  | schedMigrateTask args cur time rooms =>
    rw [assigned_pid hk] at hl
    have hone : some k = some ⟨args.pid, 1⟩ := hk.symm.trans (assigned_first hl)
    rw [Option.some.inj hone]
  | resume next room => cases hk

/-- With a record, it gets the number that the record counts up to then. -/
theorem given_next {k : MinfoKey} {e₀ e : MigrateEvent} (hk : given (reader.exec pre) t = some k)
    (he₀ : (reader.exec pre).maps.migrate.lookup k.pid = some e₀)
    (he : (reader.exec (pre ++ [t])).maps.migrate.lookup k.pid = some e) : e.count = k.count := by
  cases t with
  | schedMigrateTask args cur time rooms =>
    have hpid : k.pid = args.pid := assigned_pid hk
    obtain ⟨e', he', hcount⟩ := schedMigrateTask_count args cur time rooms he₀
    have hsome : (assigned (reader.exec pre).maps args).isSome = true := by
      rw [show assigned (reader.exec pre).maps args = some k from hk]
      rfl
    rw [exec_migration, he'] at he
    cases he
    rw [hcount, if_pos ⟨hpid, hsome⟩, assigned_count (hpid ▸ he₀) hk]
  | resume next room => cases hk

/-- Records do not disappear. -/
theorem Lossless.absent_before (h : Lossless pre t) {q : Int}
    (hq : (reader.exec (pre ++ [t])).maps.migrate.lookup q = none) :
    (reader.exec pre).maps.migrate.lookup q = none := by
  rw [Option.eq_none_iff_forall_ne_some]
  intro e he
  obtain ⟨e', he', -⟩ := h.1 q e he
  rw [hq] at he'
  cases he'

theorem Orderly.bound_snoc (h : Orderly pre) (hless : Lossless pre t) {k : MinfoKey}
    {e : MigrateEvent} (hk : k ∈ keysGiven (pre ++ [t]))
    (he : (reader.exec (pre ++ [t])).maps.migrate.lookup k.pid = some e) : k.count ≤ e.count := by
  cases hl : (reader.exec pre).maps.migrate.lookup k.pid with
  | none =>
    rw [h.appears hl he]
    rcases mem_keysGiven_snoc.mp hk with hk | hk
    · rw [h.first k hk hl]
    · rw [given_first hk hl]
  | some e₀ =>
    rcases mem_keysGiven_snoc.mp hk with hk | hk
    · obtain ⟨e', he', hle⟩ := hless.1 _ e₀ hl
      rw [he] at he'
      cases he'
      exact Int.le_trans (h.bound k hk e₀ hl) hle
    · rw [given_next hk hl he]

theorem Orderly.snoc (h : Orderly pre) (hless : Lossless pre t) : Orderly (pre ++ [t]) := by
  refine ⟨h.behind_snoc t, fun k hk e he => h.bound_snoc hless hk he, fun k hk hl => ?_,
    fun q hl t' ht' hof => ?_⟩
  · rcases mem_keysGiven_snoc.mp hk with hk | hk
    · exact h.first k hk (hless.absent_before hl)
    · exact given_first hk (hless.absent_before hl)
  · rw [mem_keysGiven_snoc]
    rcases List.mem_append.mp ht' with ht' | ht'
    · exact Or.inl (h.known q (hless.absent_before hl) t' ht' hof)
    · right
      rw [List.mem_singleton.mp ht'] at hof
      cases t with
      | schedMigrateTask args cur time rooms =>
        have hq : args.pid = q := of_decide_eq_true hof
        have hbefore := hless.absent_before hl
        rw [← hq] at hbefore ⊢
        exact assigned_first hbefore
      | resume next room => cases hof

/-- In every interleaving, no count decreases and no key is given twice exactly if every record is
written back before another migration of its task is counted, and no task that migrated before is
without a record when it migrates. -/
theorem lossless_iff_exclusive (tr : List Tick) :
    Throughout Lossless tr ↔ Throughout Exclusive tr := by
  have hiff : ∀ pre t, Orderly pre → (Lossless pre t ↔ Exclusive pre t) := by
    intro pre t h
    cases t with
    | schedMigrateTask args cur time rooms => exact h.migration_iff
    | resume next room => exact h.resume_iff
  exact (throughout_congr_of orderly_nil (fun pre t _ h hless => h.snoc hless)
    fun pre t _ h => hiff pre t h).1

theorem keysGiven_nodup (h : Throughout Lossless tr) : (keysGiven tr).Nodup := by
  induction tr using List.reverseRecOn with
  | nil => exact List.nodup_nil
  | append_singleton pre t ih =>
    rw [keysGiven_snoc]
    cases hk : given (reader.exec pre) t with
    | none =>
      rw [Option.toList_none, List.append_nil]
      exact ih h.of_snoc
    | some k =>
      apply List.Nodup.append (ih h.of_snoc) (List.nodup_singleton k)
      intro k' hold hnew
      rw [List.mem_singleton.mp hnew] at hold
      exact h.last.2 k hk hold

end Run

section Uninterrupted

variable {s : State}

/-- The inner loop, one operation after the other. -/
theorem printInfos_leads (nextKey : Int) (e : MigrateEvent) (n : Nat) (i : Int) (last : UInt64)
    (s : State) (h : i + n = e.count + 1) :
    ∃ ticks last', reader.Leads ⟨s, .printing nextKey e i last⟩ ticks
      ⟨(printInfos e n i last s).1, .printing nextKey e (e.count + 1) last'⟩
      (printInfos e n i last s).2 := by
  induction n generalizing i last s with
  | zero =>
    have hi : i = e.count + 1 := by omega
    rw [hi]
    exact ⟨[], last, .nil _⟩
  | succ n ih =>
    have hle : i ≤ e.count := by omega
    cases hl : s.migrateInfo.lookup ⟨e.pid, i⟩ with
    | none =>
      obtain ⟨ticks, last', hrest⟩ := ih (i + 1) last s (by omega)
      have hlook : reader.step ⟨s, .printing nextKey e i last⟩ (.resume none true) =
          (⟨s, .printing nextKey e (i + 1) last⟩, [.missing ⟨e.pid, i⟩]) := by
        simp only [reader, tick, resume, if_pos hle, hl]
      simp only [printInfos, hl]
      exact ⟨_, last', hrest.after hlook⟩
    | some info =>
      obtain ⟨ticks, last', hrest⟩ := ih (i + 1) info.time
        { s with migrateInfo := s.migrateInfo.delete ⟨e.pid, i⟩ } (by omega)
      have hlook : reader.step ⟨s, .printing nextKey e i last⟩ (.resume none true) =
          (⟨s, .deleting nextKey e i info.time⟩,
            [.row ⟨e.pid, i⟩ (info.row (delayOf e i last info))]) := by
        simp only [reader, tick, resume, if_pos hle, hl]
      have hdelete : reader.step ⟨s, .deleting nextKey e i info.time⟩ (.resume none true) =
          (⟨{ s with migrateInfo := s.migrateInfo.delete ⟨e.pid, i⟩ },
            .printing nextKey e (i + 1) info.time⟩, []) := rfl
      simp only [printInfos, hl]
      exact ⟨_, last', (hrest.after hdelete).after hlook⟩

/-- A call from its first `bpf_map_get_next_key` on. -/
theorem migratePrint_leads (room : Bool) (keys : List Int) (lookupKey : Int) (s : State) :
    ∃ ticks, reader.Leads ⟨s, .reading lookupKey⟩ ticks ⟨(migratePrint room keys s).1, .idle⟩
      (migratePrint room keys s).2 := by
  induction keys generalizing lookupKey s with
  | nil =>
    have hend : reader.step ⟨s, .reading lookupKey⟩ (.resume none room) = (⟨s, .idle⟩, []) := rfl
    exact ⟨_, (Machine.Leads.nil _).after hend⟩
  | cons nextKey keys ih =>
    have hnext : reader.step ⟨s, .reading lookupKey⟩ (.resume (some nextKey) room) =
        (⟨s, .looking nextKey⟩, []) := rfl
    cases hl : s.migrate.lookup nextKey with
    | none =>
      have hfail : reader.step ⟨s, .looking nextKey⟩ (.resume none room) =
          (⟨s, .idle⟩, [.failed]) := by
        simp only [reader, tick, resume, hl]
      simp only [migratePrint, hl]
      exact ⟨_, ((Machine.Leads.nil _).after hfail).after hnext⟩
    | some e =>
      by_cases hskip : e.count ≤ e.rear
      · obtain ⟨ticks, hrest⟩ := ih nextKey s
        have hlook : reader.step ⟨s, .looking nextKey⟩ (.resume none room) =
            (⟨s, .reading nextKey⟩, []) := by
          simp only [reader, tick, resume, hl, if_pos hskip]
        simp only [migratePrint, hl, if_pos hskip]
        exact ⟨_, (hrest.after hlook).after hnext⟩
      · have hlook : reader.step ⟨s, .looking nextKey⟩ (.resume none room) =
            (⟨s, .printing nextKey e e.rear 0⟩,
              [.header e.pid e.prio e.count e.rear]) := by
          simp only [reader, tick, resume, hl, if_neg hskip]
        have hlen : e.rear + (e.unprinted : Int) = e.count + 1 := by
          unfold MigrateEvent.unprinted
          omega
        obtain ⟨ticks, last, hinfos⟩ := printInfos_leads nextKey e e.unprinted e.rear 0 s hlen
        obtain ⟨ticks', hrest⟩ := ih nextKey (printPid s nextKey e room).1
        have hpast : ¬e.count + 1 ≤ e.count := by omega
        have hwrite : reader.step ⟨(printInfos e e.unprinted e.rear 0 s).1,
            .printing nextKey e (e.count + 1) last⟩ (.resume none room) =
              (⟨(printPid s nextKey e room).1, .reading nextKey⟩, []) := by
          simp only [reader, tick, resume, if_neg hpast, printPid]
        have hall := ((hinfos.append (hrest.after hwrite)).after hlook).after hnext
        simp only [migratePrint, hl, if_neg hskip]
        exact ⟨_, hall⟩

/-- Every run of migrations and complete calls is one of the user side's operations. -/
theorem machine_operations (tr : List Event) :
    ∃ ticks, reader.exec ticks = ⟨machine.exec tr, .idle⟩ ∧
      reader.emitted ticks = machine.emitted tr := by
  induction tr using List.reverseRecOn with
  | nil => exact ⟨[], rfl, rfl⟩
  | append_singleton pre e ih =>
    obtain ⟨ticks, hexec, hout⟩ := ih
    rw [Machine.exec_snoc, Machine.emitted_snoc]
    cases e with
    | schedMigrateTask args cur time rooms =>
      refine ⟨ticks ++ [Tick.schedMigrateTask args cur time rooms], ?_, ?_⟩
      · rw [exec_migration, hexec]
        rfl
      · rw [Machine.emitted_snoc, hout]
        rfl
    | migratePrint keys room =>
      obtain ⟨post, hcall⟩ := migratePrint_leads room keys (-1) (machine.exec pre)
      have hstart : reader.step (reader.exec ticks) (.resume none room) =
          (⟨machine.exec pre, .reading (-1)⟩, []) := by
        rw [hexec]
        rfl
      obtain ⟨hexec', hout'⟩ := (hcall.after hstart).extends
      refine ⟨_, hexec', ?_⟩
      rw [hout', hout]
      rfl

end Uninterrupted

section Sample

def moves (pid : Int) (time : UInt64) : Tick :=
  .schedMigrateTask ⟨pid, 120, 0, 1⟩ idleQueue time ⟨true, true⟩

def goesOn : Tick := .resume none true

/-- A task migrates a third time while the user side prints the first two migrations. -/
def raced : List Tick :=
  [moves 5 100, moves 5 200, goesOn, .resume (some 5) true, goesOn, goesOn, moves 5 300, goesOn,
    goesOn, goesOn, goesOn, moves 5 400]

/-- The count of the task falls from 3 to 2, and the key `(5, 3)` is given twice. -/
theorem raced_lossy : ¬Throughout Lossless raced ∧
    ((reader.exec (raced.take 10)).maps.migrate.lookup 5).map MigrateEvent.count = some 3 ∧
    ((reader.exec (raced.take 11)).maps.migrate.lookup 5).map MigrateEvent.count = some 2 ∧
    ¬(keysGiven raced).Nodup := by
  have hnodup : ¬(keysGiven raced).Nodup := by decide
  exact ⟨fun h => hnodup (keysGiven_nodup h), by decide, by decide, hnodup⟩

end Sample

end CpuSubsystem.MigrateImage
