import CpuSubsystem.Lib.Latest
import CpuSubsystem.ProcImage.MigrateImage.Consistency

/-!
# What a call leaves unprinted

The user side takes `count = rear` for "nothing new".  That is so in the beginning only: a printed
record has `rear = count + 1`, and a record with `count = rear` has one element.  An element is
thus left when its task migrated exactly once since the call before.
-/

namespace CpuSubsystem.MigrateImage

/-- The event is a migration of the task. -/
def Event.isOf (p : Int) : Event → Bool
  | .schedMigrateTask args .. => args.pid = p
  | .migratePrint .. => false

/-- What is recorded of a migration, and its key. -/
def stored (s : State) : Event → Option (MinfoKey × PerMigrate)
  | .schedMigrateTask args cur time _ =>
    (assigned s args).map fun k => (k, perMigrate args cur time)
  | .migratePrint .. => none

/-- The migrations recorded in the run. -/
def recorded (tr : List Event) : List (MinfoKey × PerMigrate) :=
  collect (fun pre e => stored (machine.exec pre) e) tr

/-- The element was printed once and is removed. -/
def Done (tr : List Event) (m : MinfoKey × PerMigrate) : Prop :=
  (∃ delay, rowsOf m.1 (machine.emitted tr) = [m.2.row delay]) ∧
    (machine.exec tr).migrateInfo.lookup m.1 = none

/-- When a call returns, all that was recorded before it is done. -/
def Settled (pre : List Event) : Event → Prop
  | .schedMigrateTask .. => True
  | .migratePrint keys room => ∀ m ∈ recorded pre, Done (pre ++ [.migratePrint keys room]) m

/-- The number of migrations of the task since the last call. -/
def since (p : Int) (tr : List Event) : Nat :=
  tr.foldl (fun n e =>
    match e with
    | .schedMigrateTask args .. => if args.pid = p then n + 1 else n
    | .migratePrint .. => 0) 0

/-- No task has migrated exactly once when the call begins. -/
def Separated (pre : List Event) : Event → Prop
  | .schedMigrateTask .. => True
  | .migratePrint .. => ∀ p, since p pre ≠ 1

/-- What the maps and the output say of the migrations recorded so far. -/
structure Books (tr : List Event) : Prop where
  consistent : Consistent (machine.exec tr)
  total : ∀ p e, (machine.exec tr).migrate.lookup p = some e →
    e.count = tr.countP (Event.isOf p)
  absent : ∀ p, (machine.exec tr).migrate.lookup p = none → tr.countP (Event.isOf p) = 0
  entry : ∀ m ∈ recorded tr, ∃ e, (machine.exec tr).migrate.lookup m.1.pid = some e ∧
    m.1.count ≤ e.count
  printed : ∀ m ∈ recorded tr, ∀ e, (machine.exec tr).migrate.lookup m.1.pid = some e →
    m.1.count < e.rear → ∃ delay, rowsOf m.1 (machine.emitted tr) = [m.2.row delay]
  unprinted : ∀ m ∈ recorded tr, ∀ e, (machine.exec tr).migrate.lookup m.1.pid = some e →
    e.rear ≤ m.1.count → rowsOf m.1 (machine.emitted tr) = [] ∧
      (machine.exec tr).migrateInfo.lookup m.1 = some m.2
  future : ∀ k, (∀ e, (machine.exec tr).migrate.lookup k.pid = some e → e.count < k.count) →
    rowsOf k (machine.emitted tr) = []
  known : ∀ k info, (machine.exec tr).migrateInfo.lookup k = some info → (k, info) ∈ recorded tr
  nodup : ((recorded tr).map Prod.fst).Nodup

section Steps

variable {s : State} {args : Args} {cur : Current} {time : UInt64} {pre tr : List Event}

/-- The record of the task after one more migration. -/
def bumped (s : State) (args : Args) : MigrateEvent :=
  match s.migrate.lookup args.pid with
  | none => ⟨0, args.pid, args.prio, 1, 1⟩
  | some e => { e with count := e.count + 1 }

theorem bumped_of_some {e : MigrateEvent} (h : s.migrate.lookup args.pid = some e) :
    bumped s args = { e with count := e.count + 1 } := by
  rw [bumped, h]

theorem bumped_of_none (h : s.migrate.lookup args.pid = none) :
    bumped s args = ⟨0, args.pid, args.prio, 1, 1⟩ := by
  rw [bumped, h]

/-- A migration below the cap. -/
theorem schedMigrateTask_below (cur : Current) (time : UInt64) (h : Consistent s)
    (hcap : ∀ e, s.migrate.lookup args.pid = some e → e.count < maxMigrate) :
    assigned s args = some ⟨args.pid, (bumped s args).count⟩ ∧
    schedMigrateTask s args cur time ⟨true, true⟩ =
      { migrate := s.migrate.store args.pid (bumped s args)
        migrateInfo := s.migrateInfo.store ⟨args.pid, (bumped s args).count⟩
          (perMigrate args cur time) } := by
  cases hl : s.migrate.lookup args.pid with
  | none =>
    rw [bumped_of_none hl, schedMigrateTask_first hl, BpfMap.update_true, BpfMap.update_true]
    exact ⟨assigned_first hl, rfl⟩
  | some e =>
    have hcount : 0 < e.count ∧ e.count < maxMigrate := ⟨(h.count _ e hl).1, hcap e hl⟩
    rw [bumped_of_some hl, schedMigrateTask_next hl hcount, BpfMap.update_true]
    exact ⟨assigned_next hl hcount, rfl⟩

theorem bumped_rear (args : Args) (h : Consistent s) :
    (bumped s args).rear ≤ (bumped s args).count := by
  cases hl : s.migrate.lookup args.pid with
  | none =>
    rw [bumped_of_none hl]
  | some e =>
    rw [bumped_of_some hl]
    exact (h.rear _ e hl).2

theorem countP_isOf_snoc (p : Int) (pre : List Event) (args : Args) (cur : Current)
    (time : UInt64) (rooms : Rooms) :
    (pre ++ [Event.schedMigrateTask args cur time rooms]).countP (Event.isOf p) =
      pre.countP (Event.isOf p) + if args.pid = p then 1 else 0 := by
  rw [List.countP_append, List.countP_singleton]
  by_cases hp : args.pid = p <;> simp [Event.isOf, hp]

theorem countP_isOf_print (p : Int) (pre : List Event) (keys : List Int) (room : Bool) :
    (pre ++ [Event.migratePrint keys room]).countP (Event.isOf p) =
      pre.countP (Event.isOf p) := by
  rw [List.countP_append, List.countP_singleton]
  rfl

theorem recorded_print (pre : List Event) (keys : List Int) (room : Bool) :
    recorded (pre ++ [Event.migratePrint keys room]) = recorded pre := by
  rw [recorded, collect_snoc]
  exact List.append_nil _

theorem recorded_migration {k : MinfoKey} (cur : Current) (time : UInt64) (rooms : Rooms)
    (h : assigned (machine.exec pre) args = some k) :
    recorded (pre ++ [Event.schedMigrateTask args cur time rooms]) =
      recorded pre ++ [(k, perMigrate args cur time)] := by
  rw [recorded, collect_snoc]
  show _ ++ ((assigned (machine.exec pre) args).map _).toList = _
  rw [h]
  rfl

theorem lookup_migration (cur : Current) (time : UInt64) (h : Consistent (machine.exec pre))
    (hcap : ∀ e, (machine.exec pre).migrate.lookup args.pid = some e → e.count < maxMigrate)
    (p : Int) :
    (machine.exec (pre ++ [Event.schedMigrateTask args cur time ⟨true, true⟩])).migrate.lookup p =
      if p = args.pid then some (bumped (machine.exec pre) args)
      else (machine.exec pre).migrate.lookup p := by
  rw [Machine.exec_snoc]
  show (schedMigrateTask (machine.exec pre) args cur time ⟨true, true⟩).migrate.lookup p = _
  rw [(schedMigrateTask_below cur time h hcap).2, BpfMap.lookup_store]

theorem infos_migration (cur : Current) (time : UInt64) (h : Consistent (machine.exec pre))
    (hcap : ∀ e, (machine.exec pre).migrate.lookup args.pid = some e → e.count < maxMigrate)
    (k : MinfoKey) :
    (machine.exec (pre ++
        [Event.schedMigrateTask args cur time ⟨true, true⟩])).migrateInfo.lookup k =
      if k = ⟨args.pid, (bumped (machine.exec pre) args).count⟩ then
        some (perMigrate args cur time)
      else (machine.exec pre).migrateInfo.lookup k := by
  rw [Machine.exec_snoc]
  show (schedMigrateTask (machine.exec pre) args cur time ⟨true, true⟩).migrateInfo.lookup k = _
  rw [(schedMigrateTask_below cur time h hcap).2, BpfMap.lookup_store]

theorem books_nil : Books [] where
  consistent := consistent_initial
  total p e h := by cases h
  absent p _ := rfl
  entry m h := by cases h
  printed m h := by cases h
  unprinted m h := by cases h
  future k _ := rfl
  known k info h := by cases h
  nodup := List.nodup_nil

/-- The key of a migration is above those given before. -/
theorem Books.fresh (h : Books pre) (args : Args) {m : MinfoKey × PerMigrate}
    (hm : m ∈ recorded pre) : m.1 ≠ ⟨args.pid, (bumped (machine.exec pre) args).count⟩ := by
  intro heq
  obtain ⟨e, he, hle⟩ := h.entry m hm
  rw [heq] at he hle
  rw [bumped_of_some he] at hle
  exact absurd hle (by simp only; omega)

/-- It has not been printed. -/
theorem Books.unprinted_key (h : Books pre) (args : Args) :
    rowsOf ⟨args.pid, (bumped (machine.exec pre) args).count⟩ (machine.emitted pre) = [] := by
  apply h.future
  intro e he
  rw [bumped_of_some he]
  simp only
  omega

/-- The record of a task is as before the migration, but for its count. -/
theorem Books.before (h : Books pre)
    (hcap : ∀ e, (machine.exec pre).migrate.lookup args.pid = some e → e.count < maxMigrate)
    {m : MinfoKey × PerMigrate} (hm : m ∈ recorded pre) {e : MigrateEvent}
    (he : (machine.exec (pre ++ [Event.schedMigrateTask args cur time ⟨true, true⟩])).migrate.lookup
      m.1.pid = some e) :
    ∃ e₀, (machine.exec pre).migrate.lookup m.1.pid = some e₀ ∧ e.rear = e₀.rear := by
  obtain ⟨e₀, he₀, -⟩ := h.entry m hm
  refine ⟨e₀, he₀, ?_⟩
  rw [lookup_migration cur time h.consistent hcap] at he
  by_cases hp : m.1.pid = args.pid
  · rw [hp] at he₀
    rw [if_pos hp, bumped_of_some he₀] at he
    cases he
    rfl
  · rw [if_neg hp, he₀] at he
    rw [Option.some.inj he]

/-- The counts after a migration. -/
theorem Books.total_migration (h : Books pre)
    (hcap : ∀ e, (machine.exec pre).migrate.lookup args.pid = some e → e.count < maxMigrate)
    {p : Int} {e : MigrateEvent}
    (he : (machine.exec (pre ++
      [Event.schedMigrateTask args cur time ⟨true, true⟩])).migrate.lookup p = some e) :
    e.count =
      (pre ++ [Event.schedMigrateTask args cur time ⟨true, true⟩]).countP (Event.isOf p) := by
  rw [countP_isOf_snoc]
  rw [lookup_migration cur time h.consistent hcap] at he
  by_cases hp : p = args.pid
  · rw [if_pos hp] at he
    cases he
    rw [hp, if_pos rfl]
    cases hl : (machine.exec pre).migrate.lookup args.pid with
    | none =>
      rw [bumped_of_none hl, h.absent _ hl]
      rfl
    | some e =>
      rw [bumped_of_some hl]
      show e.count + 1 = _
      rw [h.total _ e hl]
      rfl
  · rw [if_neg hp] at he
    rw [if_neg (Ne.symm hp)]
    exact h.total p e he

theorem Books.migration (h : Books pre)
    (hcap : ∀ e, (machine.exec pre).migrate.lookup args.pid = some e → e.count < maxMigrate) :
    Books (pre ++ [Event.schedMigrateTask args cur time ⟨true, true⟩]) := by
  obtain ⟨hkey, -⟩ := schedMigrateTask_below cur time h.consistent hcap
  have hrec := recorded_migration cur time ⟨true, true⟩ hkey
  have hout : machine.emitted (pre ++ [Event.schedMigrateTask args cur time ⟨true, true⟩]) =
      machine.emitted pre := by
    rw [Machine.emitted_snoc]
    exact List.append_nil _
  have hlookup := lookup_migration cur time h.consistent hcap
  have hinfos := infos_migration cur time h.consistent hcap
  have hrear := bumped_rear args h.consistent
  refine ⟨?_, fun p e he => h.total_migration hcap he, fun p he => ?_, fun m hm => ?_,
    fun m hm e he hlt => ?_, fun m hm e he hle => ?_, fun k hk => ?_, fun k info hk => ?_, ?_⟩
  · rw [Machine.exec_snoc]
    exact h.consistent.schedMigrateTask
  · rw [countP_isOf_snoc]
    rw [hlookup] at he
    by_cases hp : p = args.pid
    · rw [if_pos hp] at he
      cases he
    · rw [if_neg hp] at he
      rw [if_neg (Ne.symm hp)]
      exact h.absent p he
  · rw [hrec] at hm
    rcases List.mem_append.mp hm with hm | hm
    · obtain ⟨e, he, hle⟩ := h.entry m hm
      rw [hlookup]
      by_cases hp : m.1.pid = args.pid
      · rw [hp] at he
        rw [if_pos hp, bumped_of_some he]
        exact ⟨_, rfl, Int.le_add_one hle⟩
      · rw [if_neg hp]
        exact ⟨e, he, hle⟩
    · rw [List.mem_singleton.mp hm, hlookup, if_pos rfl]
      exact ⟨_, rfl, Int.le_refl _⟩
  · rw [hout]
    rw [hrec] at hm
    rcases List.mem_append.mp hm with hm | hm
    · obtain ⟨e₀, he₀, hsame⟩ := h.before hcap hm he
      exact h.printed m hm e₀ he₀ (by omega)
    · -- the new element is not before `rear`
      rw [hlookup, List.mem_singleton.mp hm, if_pos rfl] at he
      cases he
      rw [List.mem_singleton.mp hm] at hlt
      simp only at hlt
      omega
  · rw [hout]
    rw [hrec] at hm
    rcases List.mem_append.mp hm with hm | hm
    · rw [hinfos, if_neg (h.fresh args hm)]
      obtain ⟨e₀, he₀, hsame⟩ := h.before hcap hm he
      exact h.unprinted m hm e₀ he₀ (by omega)
    · rw [List.mem_singleton.mp hm, hinfos, if_pos rfl]
      exact ⟨h.unprinted_key args, rfl⟩
  · rw [hout]
    apply h.future
    intro e he
    by_cases hp : k.pid = args.pid
    · have hlt := hk (bumped (machine.exec pre) args) (by rw [hlookup, if_pos hp])
      rw [hp] at he
      rw [bumped_of_some he] at hlt
      simp only at hlt
      omega
    · exact hk e (by rw [hlookup, if_neg hp, he])
  · rw [hrec]
    rw [hinfos] at hk
    by_cases hkey : k = ⟨args.pid, (bumped (machine.exec pre) args).count⟩
    · rw [if_pos hkey] at hk
      cases hk
      rw [hkey]
      exact List.mem_append_right _ (List.mem_singleton_self _)
    · rw [if_neg hkey] at hk
      exact List.mem_append_left _ (h.known k info hk)
  · rw [hrec, List.map_append]
    apply List.Nodup.append h.nodup (List.nodup_singleton _)
    intro k hk hk'
    obtain ⟨m, hm, rfl⟩ := List.mem_map.mp hk
    exact h.fresh args hm (List.mem_singleton.mp hk')

theorem advance_count (e : MigrateEvent) : e.advance.count = e.count := by
  unfold MigrateEvent.advance
  split <;> rfl

theorem advance_rear (e : MigrateEvent) :
    e.advance.rear = if e.count ≤ e.rear then e.rear else e.count + 1 := by
  unfold MigrateEvent.advance
  split <;> rfl

/-- A complete call, which comes to every record. -/
theorem migratePrint_all {keys : List Int} (h : Consistent s)
    (hkeys : ∀ p, p ∈ keys ↔ p ∈ s.migrate.keys) :
    (∀ p, (migratePrint true keys s).1.migrate.lookup p =
      (s.migrate.lookup p).map MigrateEvent.advance) ∧
    Prints (Due s keys) s (migratePrint true keys s).1 (migratePrint true keys s).2 ∧
    ∀ k e, s.migrate.lookup k.pid = some e →
      (Due s keys k ↔ e.rear < e.count ∧ e.rear ≤ k.count ∧ k.count ≤ e.count) := by
  obtain ⟨hmap, hprints, -⟩ := migratePrint_prints keys s h fun p hp => (hkeys p).mp hp
  refine ⟨fun p => ?_, hprints, fun k e he => ?_⟩
  · rw [hmap]
    cases hl : s.migrate.lookup p with
    | none => rfl
    | some e =>
      have hp : p ∈ keys := by
        rw [hkeys, BpfMap.mem_keys, hl]
        rfl
      rw [Option.map_some, Option.map_some, if_pos hp]
  · have hp : k.pid ∈ keys := by
      rw [hkeys, BpfMap.mem_keys, he]
      rfl
    unfold Due
    constructor
    · rintro ⟨-, e', he', hdue⟩
      rw [he] at he'
      cases he'
      exact hdue
    · exact fun hdue => ⟨hp, e, he, hdue⟩

section Call

variable {keys : List Int} {m : MinfoKey × PerMigrate} {e : MigrateEvent}

theorem lookup_print (h : Consistent (machine.exec pre))
    (hkeys : ∀ p, p ∈ keys ↔ p ∈ (machine.exec pre).migrate.keys) (p : Int) :
    (machine.exec (pre ++ [Event.migratePrint keys true])).migrate.lookup p =
      ((machine.exec pre).migrate.lookup p).map MigrateEvent.advance := by
  rw [Machine.exec_snoc]
  exact (migratePrint_all h hkeys).1 p

theorem rows_print (pre : List Event) (keys : List Int) (k : MinfoKey) :
    rowsOf k (machine.emitted (pre ++ [Event.migratePrint keys true])) =
      rowsOf k (machine.emitted pre) ++ rowsOf k (migratePrint true keys (machine.exec pre)).2 := by
  rw [Machine.emitted_snoc, rowsOf_append]
  rfl

/-- The record of an element, before the call. -/
theorem Books.advanced (h : Books pre)
    (hkeys : ∀ p, p ∈ keys ↔ p ∈ (machine.exec pre).migrate.keys) (hm : m ∈ recorded pre)
    (he : (machine.exec (pre ++ [Event.migratePrint keys true])).migrate.lookup m.1.pid = some e) :
    ∃ e₀, (machine.exec pre).migrate.lookup m.1.pid = some e₀ ∧ e₀.advance = e ∧
      m.1.count ≤ e₀.count := by
  obtain ⟨e₀, he₀, hle⟩ := h.entry m hm
  rw [lookup_print h.consistent hkeys, he₀] at he
  exact ⟨e₀, he₀, Option.some.inj he, hle⟩

/-- What lies before `rear` after a call was printed before, or by the call. -/
theorem Books.printed_print (h : Books pre)
    (hkeys : ∀ p, p ∈ keys ↔ p ∈ (machine.exec pre).migrate.keys) (hm : m ∈ recorded pre)
    (he : (machine.exec (pre ++ [Event.migratePrint keys true])).migrate.lookup m.1.pid = some e)
    (hlt : m.1.count < e.rear) :
    ∃ delay, rowsOf m.1 (machine.emitted (pre ++ [Event.migratePrint keys true])) =
      [m.2.row delay] := by
  obtain ⟨e₀, he₀, rfl, hle⟩ := h.advanced hkeys hm he
  obtain ⟨-, hprints, hdue⟩ := migratePrint_all h.consistent hkeys
  rw [advance_rear] at hlt
  rw [rows_print]
  by_cases hold : m.1.count < e₀.rear
  · obtain ⟨delay, hone⟩ := h.printed m hm e₀ he₀ hold
    have hnot : ¬Due (machine.exec pre) keys m.1 := by
      rw [hdue m.1 e₀ he₀]
      omega
    rw [hone, hprints.silent _ hnot]
    exact ⟨delay, rfl⟩
  · obtain ⟨hnone, hinfo⟩ := h.unprinted m hm e₀ he₀ (by omega)
    have hyes : Due (machine.exec pre) keys m.1 := by
      rw [hdue m.1 e₀ he₀]
      split at hlt <;> omega
    obtain ⟨info, delay, hl, hone⟩ := hprints.rows _ hyes
    rw [hinfo] at hl
    cases hl
    rw [hnone, hone]
    exact ⟨delay, rfl⟩

/-- What does not lie before `rear` after a call belongs to a record that the call passed by. -/
theorem Books.unprinted_print (h : Books pre)
    (hkeys : ∀ p, p ∈ keys ↔ p ∈ (machine.exec pre).migrate.keys) (hm : m ∈ recorded pre)
    (he : (machine.exec (pre ++ [Event.migratePrint keys true])).migrate.lookup m.1.pid = some e)
    (hle : e.rear ≤ m.1.count) :
    rowsOf m.1 (machine.emitted (pre ++ [Event.migratePrint keys true])) = [] ∧
      (machine.exec (pre ++ [Event.migratePrint keys true])).migrateInfo.lookup m.1 = some m.2 := by
  obtain ⟨e₀, he₀, rfl, hcount⟩ := h.advanced hkeys hm he
  obtain ⟨-, hprints, hdue⟩ := migratePrint_all h.consistent hkeys
  rw [advance_rear] at hle
  have hskip : e₀.count ≤ e₀.rear := by
    by_contra hgt
    rw [if_neg hgt] at hle
    omega
  rw [if_pos hskip] at hle
  obtain ⟨hnone, hinfo⟩ := h.unprinted m hm e₀ he₀ hle
  have hnot : ¬Due (machine.exec pre) keys m.1 := by
    rw [hdue m.1 e₀ he₀]
    omega
  rw [rows_print, hnone, hprints.silent _ hnot]
  refine ⟨rfl, ?_⟩
  rw [Machine.exec_snoc]
  exact (hprints.kept _ hnot).trans hinfo

theorem Books.print (h : Books pre)
    (hkeys : ∀ p, p ∈ keys ↔ p ∈ (machine.exec pre).migrate.keys) :
    Books (pre ++ [Event.migratePrint keys true]) := by
  obtain ⟨-, hprints, -⟩ := migratePrint_all h.consistent hkeys
  have hexec : machine.exec (pre ++ [Event.migratePrint keys true]) =
      (migratePrint true keys (machine.exec pre)).1 := machine.exec_snoc _ _
  have hlookup := lookup_print h.consistent hkeys
  have hrec := recorded_print pre keys true
  refine ⟨?_, fun p e he => ?_, fun p he => ?_, fun m hm => ?_, fun m hm e he hlt => ?_,
    fun m hm e he hle => ?_, fun k hk => ?_, fun k info hk => ?_, ?_⟩
  · rw [hexec]
    exact (migratePrint_prints keys _ h.consistent fun p hp => (hkeys p).mp hp).2.2
  · rw [hlookup] at he
    obtain ⟨e₀, he₀, rfl⟩ := Option.map_eq_some_iff.mp he
    rw [advance_count, countP_isOf_print]
    exact h.total p e₀ he₀
  · rw [hlookup] at he
    rw [countP_isOf_print]
    exact h.absent p (Option.map_eq_none_iff.mp he)
  · rw [hrec] at hm
    obtain ⟨e, he, hle⟩ := h.entry m hm
    refine ⟨e.advance, ?_, ?_⟩
    · rw [hlookup, he]
      rfl
    · rw [advance_count]
      exact hle
  · exact h.printed_print hkeys (hrec ▸ hm) he hlt
  · exact h.unprinted_print hkeys (hrec ▸ hm) he hle
  · have hbefore : ∀ e, (machine.exec pre).migrate.lookup k.pid = some e → e.count < k.count := by
      intro e he
      rw [← advance_count]
      apply hk
      rw [hlookup, he]
      rfl
    have hnot : ¬Due (machine.exec pre) keys k := by
      rintro ⟨-, e, he, -, -, hle⟩
      have hlt := hbefore e he
      omega
    rw [rows_print, h.future k hbefore, hprints.silent k hnot]
    rfl
  · rw [hrec]
    rw [hexec] at hk
    by_cases hd : Due (machine.exec pre) keys k
    · rw [hprints.gone k hd] at hk
      cases hk
    · rw [hprints.kept k hd] at hk
      exact h.known k info hk
  · rw [hrec]
    exact h.nodup

end Call

/-- Every task has migrated less often than `MAX_MIGRATE`. -/
def Below (tr : List Event) : Prop := ∀ p, (tr.countP (Event.isOf p) : Int) < maxMigrate

theorem Below.restrict (h : Below tr) (hp : pre <+: tr) : Below pre := by
  intro p
  have hle : pre.countP (Event.isOf p) ≤ tr.countP (Event.isOf p) := hp.sublist.countP_le
  have hlt := h p
  omega

theorem books (h : Throughout Smooth tr) (hbelow : Below tr) : Books tr := by
  induction tr using List.reverseRecOn with
  | nil => exact books_nil
  | append_singleton pre e ih =>
    have hpre := ih h.of_snoc (hbelow.restrict (List.prefix_append pre [e]))
    have hlast := h.last
    cases e with
    | schedMigrateTask args cur time rooms =>
      rw [show rooms = ⟨true, true⟩ from hlast]
      apply hpre.migration
      intro e he
      rw [hpre.total _ e he]
      exact hbelow.restrict (List.prefix_append pre _) args.pid
    | migratePrint keys room =>
      obtain ⟨hroom, hkeys⟩ := hlast
      rw [hroom]
      exact hpre.print hkeys

end Steps

section Run

variable {pre tr : List Event} {p : Int}

theorem since_migration (p : Int) (pre : List Event) (args : Args) (cur : Current) (time : UInt64)
    (rooms : Rooms) : since p (pre ++ [Event.schedMigrateTask args cur time rooms]) =
      if args.pid = p then since p pre + 1 else since p pre := by
  simp only [since, List.foldl_append, List.foldl_cons, List.foldl_nil]

theorem since_print (p : Int) (pre : List Event) (keys : List Int) (room : Bool) :
    since p (pre ++ [Event.migratePrint keys room]) = 0 := by
  simp only [since, List.foldl_append, List.foldl_cons, List.foldl_nil]

/-- The calls so far have left nothing. -/
structure Flushed (tr : List Event) : Prop where
  rear : ∀ p e, (machine.exec tr).migrate.lookup p = some e →
    e.rear + (since p tr : Int) = e.count + 1
  fresh : ∀ p, (machine.exec tr).migrate.lookup p = none → since p tr = 0

theorem flushed_nil : Flushed [] where
  rear p e h := by cases h
  fresh p _ := rfl

/-- After a call everything is done exactly if `rear` is past `count` in every record. -/
theorem Books.done_iff (h : Books tr) :
    (∀ m ∈ recorded tr, Done tr m) ↔
      ∀ p e, (machine.exec tr).migrate.lookup p = some e → e.rear = e.count + 1 := by
  constructor
  · intro hdone p e he
    have hrear := h.consistent.rear p e he
    by_contra hne
    -- the element at `count` is still there
    have hkey : ⟨p, e.count⟩ ∈ (machine.exec tr).migrateInfo.keys := by
      rw [h.consistent.infos p e he]
      omega
    obtain ⟨info, hinfo⟩ := Option.isSome_iff_exists.mp (BpfMap.mem_keys.mp hkey)
    have hgone := (hdone _ (h.known _ info hinfo)).2
    rw [hinfo] at hgone
    cases hgone
  · intro hall m hm
    obtain ⟨e, he, hle⟩ := h.entry m hm
    have hrear := hall _ e he
    refine ⟨h.printed m hm e he (by omega), ?_⟩
    have hkey : m.1 ∉ (machine.exec tr).migrateInfo.keys := by
      intro hk
      have hrange := (h.consistent.infos _ e he m.1.count).mp hk
      omega
    rw [BpfMap.mem_keys, Bool.not_eq_true, Option.isSome_eq_false_iff,
      Option.isNone_iff_eq_none] at hkey
    exact hkey

theorem Flushed.migration {args : Args} {cur : Current} {time : UInt64} (h : Flushed pre)
    (hb : Books pre)
    (hcap : ∀ e, (machine.exec pre).migrate.lookup args.pid = some e → e.count < maxMigrate) :
    Flushed (pre ++ [Event.schedMigrateTask args cur time ⟨true, true⟩]) := by
  have hlookup := lookup_migration cur time hb.consistent hcap
  refine ⟨fun p e he => ?_, fun p he => ?_⟩
  all_goals rw [hlookup] at he
  all_goals rw [since_migration]
  all_goals by_cases hp : p = args.pid
  · rw [if_pos hp] at he
    cases he
    rw [hp, if_pos rfl]
    cases hl : (machine.exec pre).migrate.lookup args.pid with
    | none =>
      rw [bumped_of_none hl, h.fresh _ hl]
      rfl
    | some e =>
      have hsum := h.rear _ e hl
      rw [bumped_of_some hl]
      simp only
      omega
  · rw [if_neg hp] at he
    rw [if_neg (Ne.symm hp)]
    exact h.rear p e he
  · rw [if_pos hp] at he
    cases he
  · rw [if_neg hp] at he
    rw [if_neg (Ne.symm hp)]
    exact h.fresh p he

/-- The records after a call that are not past `count` are those of tasks that migrated once. -/
theorem Flushed.print_iff {keys : List Int} (h : Flushed pre) (hb : Books pre)
    (hkeys : ∀ p, p ∈ keys ↔ p ∈ (machine.exec pre).migrate.keys) :
    (∀ p e, (machine.exec (pre ++ [Event.migratePrint keys true])).migrate.lookup p = some e →
      e.rear = e.count + 1) ↔ ∀ p, since p pre ≠ 1 := by
  have hlookup := lookup_print hb.consistent hkeys
  constructor
  · intro hall p hp
    cases hl : (machine.exec pre).migrate.lookup p with
    | none =>
      have hzero := h.fresh p hl
      omega
    | some e =>
      have hsum := h.rear p e hl
      have hrear := hall p e.advance (by rw [hlookup, hl]; rfl)
      rw [advance_rear, advance_count] at hrear
      split at hrear <;> omega
  · intro hall p e he
    rw [hlookup] at he
    obtain ⟨e₀, he₀, rfl⟩ := Option.map_eq_some_iff.mp he
    have hsum := h.rear p e₀ he₀
    have hne := hall p
    rw [advance_rear, advance_count]
    split <;> omega

/-- In a run of migrations and complete calls, no two migrations are recorded under one key; and
all calls print and remove what was recorded before exactly if no task migrates exactly once
between one call and the next. -/
theorem settled_iff_separated (tr : List Event) (h : Throughout Smooth tr) (hbelow : Below tr) :
    ((recorded tr).map Prod.fst).Nodup ∧ (Throughout Settled tr ↔ Throughout Separated tr) := by
  refine ⟨(books h hbelow).nodup, ?_⟩
  have hbooks : ∀ pre e, pre ++ [e] <+: tr → Books pre ∧ Books (pre ++ [e]) ∧ Smooth pre e := by
    intro pre e hp
    have hpre := (List.prefix_append pre [e]).trans hp
    exact ⟨books (h.restrict hpre) (hbelow.restrict hpre),
      books (h.restrict hp) (hbelow.restrict hp), h pre e hp⟩
  have hsettled : ∀ pre keys room, pre ++ [Event.migratePrint keys room] <+: tr → Flushed pre →
      (Settled pre (.migratePrint keys room) ↔ ∀ p, since p pre ≠ 1) := by
    intro pre keys room hp hf
    obtain ⟨hb, hb', hroom, hkeys⟩ := hbooks pre _ hp
    rw [hroom] at hb' ⊢
    rw [← hf.print_iff hb hkeys, ← hb'.done_iff, recorded_print]
    rfl
  refine (throughout_congr_of flushed_nil (fun pre e hp hf hs => ?_) fun pre e hp hf => ?_).1
  · obtain ⟨hb, hb', hsmooth⟩ := hbooks pre e hp
    cases e with
    | schedMigrateTask args cur time rooms =>
      rw [show rooms = ⟨true, true⟩ from hsmooth]
      apply hf.migration hb
      intro e he
      rw [hb.total _ e he]
      exact hbelow.restrict ((List.prefix_append pre _).trans hp) args.pid
    | migratePrint keys room =>
      obtain ⟨hroom, hkeys⟩ := hsmooth
      rw [hroom] at hb' hs ⊢
      have hall := hb'.done_iff.mp (by rw [recorded_print]; exact hs)
      refine ⟨fun p e he => ?_, fun p _ => since_print p pre keys true⟩
      rw [since_print, hall p e he]
      exact Int.add_zero _
  · cases e with
    | schedMigrateTask args cur time rooms => exact Iff.rfl
    | migratePrint keys room => exact hsettled pre keys room hp hf

end Run

section Sample

theorem below_of_length {tr : List Event} (h : (tr.length : Int) < maxMigrate) : Below tr := by
  intro p
  have hle : tr.countP (Event.isOf p) ≤ tr.length := List.countP_le_length
  omega

/-- A task migrates twice before the first call, and twice before the second. -/
def twice : List Event :=
  [migrates 5 100, migrates 5 200, .migratePrint [5] true, migrates 5 300, migrates 5 400,
    .migratePrint [5] true]

theorem settled_iff_separated_twice :
    ((recorded twice).map Prod.fst).Nodup ∧
      (Throughout Settled twice ↔ Throughout Separated twice) :=
  settled_iff_separated twice (by decide) (below_of_length (by decide))

/-- A task migrates once before the first call. -/
def once : List Event := [migrates 5 100, .migratePrint [5] true]

theorem once_unsettled : Throughout Smooth once ∧ Below once ∧ ¬Throughout Settled once := by
  refine ⟨by decide, below_of_length (by decide), fun h => ?_⟩
  have hcall : Settled [migrates 5 100] (.migratePrint [5] true) := h _ _ List.prefix_rfl
  have hgone := (hcall (⟨5, 1⟩, perMigrate ⟨5, 120, 0, 1⟩ idleQueue 100) (by decide)).2
  -- the element is still there
  exact absurd hgone (by decide)

end Sample

end CpuSubsystem.MigrateImage
