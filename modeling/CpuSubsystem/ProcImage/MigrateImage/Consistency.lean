import CpuSubsystem.ProcImage.MigrateImage.Model

/-!
# The two maps are consistent

Of every task with a record, the elements of `migrate_info` are those from `rear` to `count`.  The
kernel side extends the range at its end, the user side empties it or leaves it alone.
-/

namespace CpuSubsystem.MigrateImage

/-- The line says that a lookup failed. -/
def Line.isFailure : Line → Bool
  | .failed | .missing _ => true
  | .header .. | .row .. => false

/-- The row that the line is for the key. -/
def Line.rowOf (k : MinfoKey) : Line → Option Row
  | .row mkey r => if mkey = k then some r else none
  | _ => none

/-- The rows for the key. -/
def rowsOf (k : MinfoKey) (out : List Line) : List Row := out.filterMap (Line.rowOf k)

/-- The record after a visit of the user side. -/
def MigrateEvent.advance (e : MigrateEvent) : MigrateEvent :=
  if e.count ≤ e.rear then e else { e with rear := e.count + 1 }

/-- What is under a key that meets `P` is printed once and deleted, and nothing else is. -/
structure Prints (P : MinfoKey → Prop) (s s' : State) (out : List Line) : Prop where
  gone : ∀ k, P k → s'.migrateInfo.lookup k = none
  kept : ∀ k, ¬P k → s'.migrateInfo.lookup k = s.migrateInfo.lookup k
  rows : ∀ k, P k → ∃ info delay,
    s.migrateInfo.lookup k = some info ∧ rowsOf k out = [info.row delay]
  silent : ∀ k, ¬P k → rowsOf k out = []
  ok : ∀ l ∈ out, l.isFailure = false

/-- The maps of a run of complete calls. -/
structure Consistent (s : State) : Prop where
  pid : ∀ p e, s.migrate.lookup p = some e → e.pid = p
  count : ∀ p e, s.migrate.lookup p = some e → 1 ≤ e.count ∧ e.count ≤ maxMigrate
  rear : ∀ p e, s.migrate.lookup p = some e → 1 ≤ e.rear ∧ e.rear ≤ e.count + 1
  infos : ∀ p e, s.migrate.lookup p = some e →
    ∀ i, ⟨p, i⟩ ∈ s.migrateInfo.keys ↔ e.rear ≤ i ∧ i ≤ e.count
  absent : ∀ p, s.migrate.lookup p = none → ∀ i, ⟨p, i⟩ ∉ s.migrateInfo.keys

section Prints

variable {P Q : MinfoKey → Prop} {s s' s'' : State} {out out' : List Line} {k : MinfoKey}

theorem rowsOf_append : rowsOf k (out ++ out') = rowsOf k out ++ rowsOf k out' :=
  List.filterMap_append

theorem rowsOf_header {pid prio count rear : Int} :
    rowsOf k (.header pid prio count rear :: out) = rowsOf k out :=
  List.filterMap_cons_none rfl

theorem Prints.congr (h : Prints P s s' out) (hpq : ∀ k, P k ↔ Q k) : Prints Q s s' out where
  gone k hk := h.gone k ((hpq k).mpr hk)
  kept k hk := h.kept k (mt (hpq k).mp hk)
  rows k hk := h.rows k ((hpq k).mpr hk)
  silent k hk := h.silent k (mt (hpq k).mp hk)
  ok := h.ok

theorem prints_nothing (s : State) : Prints (fun _ => False) s s [] where
  gone _ h := h.elim
  kept _ _ := rfl
  rows _ h := h.elim
  silent _ _ := rfl
  ok l h := by cases h

/-- One iteration of the inner loop. -/
theorem prints_one {info : PerMigrate} (h : s.migrateInfo.lookup k = some info)
    (delay : Option Int) :
    Prints (· = k) s { s with migrateInfo := s.migrateInfo.delete k }
      [.row k (info.row delay)] where
  gone j hj := by
    rw [hj]
    exact BpfMap.lookup_delete_self _ k
  kept j hj := BpfMap.lookup_delete_of_ne _ hj
  rows j hj := by
    rw [hj]
    exact ⟨info, delay, h, List.filterMap_cons_some (if_pos rfl)⟩
  silent j hj := List.filterMap_cons_none (if_neg (Ne.symm hj))
  ok l hl := by
    rw [List.mem_singleton.mp hl]
    rfl

/-- What is gone is not printed again. -/
theorem Prints.append (h : Prints P s s' out) (h' : Prints Q s' s'' out') :
    Prints (fun k => P k ∨ Q k) s s'' (out ++ out') := by
  have hdisjoint : ∀ k, P k → ¬Q k := by
    intro k hp hq
    obtain ⟨info, -, hl, -⟩ := h'.rows k hq
    rw [h.gone k hp] at hl
    cases hl
  refine ⟨fun k hk => ?_, fun k hk => ?_, fun k hk => ?_, fun k hk => ?_, fun l hl => ?_⟩
  · by_cases hq : Q k
    · exact h'.gone k hq
    · rw [h'.kept k hq]
      exact h.gone k (hk.resolve_right hq)
  · rw [not_or] at hk
    rw [h'.kept k hk.2, h.kept k hk.1]
  · rw [rowsOf_append]
    by_cases hp : P k
    · obtain ⟨info, delay, hl, hrows⟩ := h.rows k hp
      rw [hrows, h'.silent k (hdisjoint k hp)]
      exact ⟨info, delay, hl, List.append_nil _⟩
    · obtain ⟨info, delay, hl, hrows⟩ := h'.rows k (hk.resolve_left hp)
      rw [h.kept k hp] at hl
      rw [hrows, h.silent k hp]
      exact ⟨info, delay, hl, rfl⟩
  · rw [not_or] at hk
    rw [rowsOf_append, h.silent k hk.1, h'.silent k hk.2]
    rfl
  · rcases List.mem_append.mp hl with hl | hl
    · exact h.ok l hl
    · exact h'.ok l hl

/-- The record map does not matter, nor do headers. -/
theorem Prints.header (h : Prints P s s' out) (m : BpfMap Int MigrateEvent)
    (pid prio count rear : Int) :
    Prints P s { s' with migrate := m } (.header pid prio count rear :: out) where
  gone := h.gone
  kept := h.kept
  rows k hk := by
    rw [rowsOf_header]
    exact h.rows k hk
  silent k hk := by
    rw [rowsOf_header]
    exact h.silent k hk
  ok l hl := by
    rcases List.mem_cons.mp hl with rfl | hl
    · rfl
    · exact h.ok l hl

end Prints

section Loops

variable {s : State} {e : MigrateEvent} {p : Int}

/-- The inner loop, when all the elements are there. -/
theorem printInfos_prints (e : MigrateEvent) (n : Nat) (i : Int) (last : UInt64) (s : State)
    (h : ∀ j, i ≤ j → j < i + n → (s.migrateInfo.lookup ⟨e.pid, j⟩).isSome = true) :
    (printInfos e n i last s).1.migrate = s.migrate ∧
    Prints (fun k => k.pid = e.pid ∧ i ≤ k.count ∧ k.count < i + n) s
      (printInfos e n i last s).1 (printInfos e n i last s).2 := by
  induction n generalizing i last s with
  | zero =>
    refine ⟨rfl, (prints_nothing s).congr fun k => ?_⟩
    simp only [Nat.cast_zero, false_iff]
    omega
  | succ n ih =>
    obtain ⟨info, hl⟩ := Option.isSome_iff_exists.mp (h i (Int.le_refl i) (by omega))
    have hone := prints_one hl (delayOf e i last info)
    -- the elements that remain to be printed are not the one that is deleted
    have hrest := ih (i + 1) info.time { s with migrateInfo := s.migrateInfo.delete ⟨e.pid, i⟩ }
      (by
        intro j hij hjn
        have hne : (⟨e.pid, j⟩ : MinfoKey) ≠ ⟨e.pid, i⟩ := by
          intro heq
          have hji : j = i := congrArg MinfoKey.count heq
          omega
        rw [hone.kept _ hne]
        exact h j (by omega) (by omega))
    simp only [printInfos, hl]
    refine ⟨hrest.1, (hone.append hrest.2).congr fun k => ?_⟩
    constructor
    · rintro (rfl | ⟨hk, hlo, hhi⟩)
      · exact ⟨rfl, Int.le_refl i, Int.lt_add_of_pos_right i (by omega)⟩
      · exact ⟨hk, by omega, by omega⟩
    · rintro ⟨hk, hlo, hhi⟩
      by_cases hi : k.count = i
      · left
        cases k
        simp only at hk hi
        rw [hk, hi]
      · exact Or.inr ⟨hk, by omega, by omega⟩

theorem Consistent.unprinted (h : Consistent s) (hl : s.migrate.lookup p = some e) :
    e.rear + (e.unprinted : Int) = e.count + 1 := by
  have hrear := h.rear p e hl
  unfold MigrateEvent.unprinted
  omega

theorem printPid_prints (h : Consistent s) (hl : s.migrate.lookup p = some e) :
    (printPid s p e true).1.migrate = s.migrate.store p { e with rear := e.count + 1 } ∧
    Prints (fun k => k.pid = p ∧ e.rear ≤ k.count ∧ k.count ≤ e.count) s (printPid s p e true).1
      (printPid s p e true).2 := by
  have hpid := h.pid p e hl
  have hlen := h.unprinted hl
  obtain ⟨hmap, hprints⟩ := printInfos_prints e e.unprinted e.rear 0 s (by
    intro j hlo hhi
    rw [← BpfMap.mem_keys, hpid]
    exact (h.infos p e hl j).mpr ⟨hlo, by omega⟩)
  refine ⟨?_, (hprints.header _ _ _ _ _).congr fun k => ?_⟩
  · show (printInfos e e.unprinted e.rear 0 s).1.migrate.update true p _ = _
    rw [hmap, BpfMap.update_true]
  · rw [hpid]
    constructor
    · rintro ⟨hk, hlo, hhi⟩
      exact ⟨hk, hlo, by omega⟩
    · rintro ⟨hk, hlo, hhi⟩
      exact ⟨hk, hlo, by omega⟩

/-- The record and the elements of one task are replaced by others that fit together. -/
theorem Consistent.replace {s' : State} (h : Consistent s)
    (hmap : s'.migrate = s.migrate.store p e)
    (hother : ∀ q i, q ≠ p → (⟨q, i⟩ ∈ s'.migrateInfo.keys ↔ ⟨q, i⟩ ∈ s.migrateInfo.keys))
    (hpid : e.pid = p) (hcount : 1 ≤ e.count ∧ e.count ≤ maxMigrate)
    (hrear : 1 ≤ e.rear ∧ e.rear ≤ e.count + 1)
    (hinfos : ∀ i, ⟨p, i⟩ ∈ s'.migrateInfo.keys ↔ e.rear ≤ i ∧ i ≤ e.count) : Consistent s' := by
  have hlookup : ∀ q, s'.migrate.lookup q = if q = p then some e else s.migrate.lookup q := by
    intro q
    rw [hmap, BpfMap.lookup_store]
  refine ⟨fun q e' he => ?_, fun q e' he => ?_, fun q e' he => ?_, fun q e' he i => ?_,
    fun q he i => ?_⟩
  all_goals rw [hlookup] at he
  all_goals by_cases hq : q = p
  · rw [if_pos hq] at he
    cases he
    rw [hq, hpid]
  · rw [if_neg hq] at he
    exact h.pid q e' he
  · rw [if_pos hq] at he
    cases he
    exact hcount
  · rw [if_neg hq] at he
    exact h.count q e' he
  · rw [if_pos hq] at he
    cases he
    exact hrear
  · rw [if_neg hq] at he
    exact h.rear q e' he
  · rw [if_pos hq] at he
    cases he
    rw [hq]
    exact hinfos i
  · rw [if_neg hq] at he
    rw [hother q i hq]
    exact h.infos q e' he i
  · rw [if_pos hq] at he
    cases he
  · rw [if_neg hq] at he
    rw [hother q i hq]
    exact h.absent q he i

theorem Consistent.printPid (h : Consistent s) (hl : s.migrate.lookup p = some e) :
    Consistent (printPid s p e true).1 := by
  obtain ⟨hmap, hprints⟩ := printPid_prints h hl
  have hcount := h.count p e hl
  apply h.replace hmap
  · intro q i hq
    rw [BpfMap.mem_keys, BpfMap.mem_keys, hprints.kept _ fun hk => hq hk.1]
  · exact h.pid p e hl
  · exact hcount
  · show 1 ≤ e.count + 1 ∧ e.count + 1 ≤ e.count + 1
    omega
  · -- the range is empty, and so is what the map holds
    intro i
    rw [BpfMap.mem_keys]
    simp only
    constructor
    · intro hi
      by_cases hdue : e.rear ≤ i ∧ i ≤ e.count
      · rw [hprints.gone ⟨p, i⟩ ⟨rfl, hdue⟩] at hi
        cases hi
      · rw [hprints.kept ⟨p, i⟩ fun hk => hdue hk.2, ← BpfMap.mem_keys] at hi
        exact absurd ((h.infos p e hl i).mp hi) hdue
    · intro hi
      omega

/-- The elements that a walk over `keys` prints. -/
def Due (s : State) (keys : List Int) (k : MinfoKey) : Prop :=
  k.pid ∈ keys ∧ ∃ e, s.migrate.lookup k.pid = some e ∧ e.rear < e.count ∧
    e.rear ≤ k.count ∧ k.count ≤ e.count

/-- Nothing of a record that was printed is due. -/
theorem due_cons_printed {s : State} {q : Int} {e : MigrateEvent}
    (hl : s.migrate.lookup q = some e) (hskip : e.count ≤ e.rear) (keys : List Int)
    (k : MinfoKey) : Due s keys k ↔ Due s (q :: keys) k := by
  unfold Due
  constructor
  · rintro ⟨hk, hdue⟩
    exact ⟨List.mem_cons_of_mem q hk, hdue⟩
  · rintro ⟨hk, e', he', hlt, hrange⟩
    refine ⟨(List.mem_cons.mp hk).resolve_left fun hkq => ?_, e', he', hlt, hrange⟩
    rw [hkq, hl] at he'
    cases he'
    omega

/-- What is due of a record, and what is due of the others after it was moved on. -/
theorem due_cons {s s' : State} {q : Int} {e : MigrateEvent} (hl : s.migrate.lookup q = some e)
    (hskip : ¬ e.count ≤ e.rear)
    (hlookup : ∀ p, s'.migrate.lookup p =
      if p = q then some { e with rear := e.count + 1 } else s.migrate.lookup p)
    (keys : List Int) (k : MinfoKey) :
    (k.pid = q ∧ e.rear ≤ k.count ∧ k.count ≤ e.count) ∨ Due s' keys k ↔
      Due s (q :: keys) k := by
  unfold Due
  constructor
  · rintro (⟨hk, hrange⟩ | ⟨hk, e', he', hlt, hrange⟩)
    · exact ⟨by rw [hk]; exact List.mem_cons_self, e, by rw [hk, hl], by omega, hrange⟩
    · refine ⟨List.mem_cons_of_mem q hk, e', ?_, hlt, hrange⟩
      rw [hlookup] at he'
      split at he'
      -- the record of `q` was moved on, so that nothing of it is due
      · cases he'
        simp only at hlt
        omega
      · exact he'
  · rintro ⟨hk, e', he', hlt, hrange⟩
    by_cases hkq : k.pid = q
    · left
      rw [hkq, hl] at he'
      cases he'
      exact ⟨hkq, hrange⟩
    · refine Or.inr ⟨(List.mem_cons.mp hk).resolve_left hkq, e', ?_, hlt, hrange⟩
      rw [hlookup, if_neg hkq]
      exact he'

/-- A complete call, when the keys are those of records. -/
theorem migratePrint_prints (keys : List Int) (s : State) (h : Consistent s)
    (hkeys : ∀ p ∈ keys, p ∈ s.migrate.keys) :
    (∀ p, (migratePrint true keys s).1.migrate.lookup p =
      (s.migrate.lookup p).map fun e => if p ∈ keys then e.advance else e) ∧
    Prints (Due s keys) s (migratePrint true keys s).1 (migratePrint true keys s).2 ∧
    Consistent (migratePrint true keys s).1 := by
  induction keys generalizing s with
  | nil =>
    refine ⟨fun p => ?_, (prints_nothing s).congr fun k => ?_, h⟩
    · rw [migratePrint]
      cases s.migrate.lookup p <;> simp
    · simp [Due]
  | cons q keys ih =>
    obtain ⟨e, hl⟩ := Option.isSome_iff_exists.mp
      (BpfMap.mem_keys.mp (hkeys q List.mem_cons_self))
    have hrest : ∀ p ∈ keys, p ∈ s.migrate.keys :=
      fun p hp => hkeys p (List.mem_cons_of_mem q hp)
    by_cases hskip : e.count ≤ e.rear
    · obtain ⟨hmap, hprints, hcons⟩ := ih s h hrest
      have hadv : e.advance = e := if_pos hskip
      simp only [migratePrint, hl, if_pos hskip]
      refine ⟨fun p => ?_, hprints.congr (due_cons_printed hl hskip keys), hcons⟩
      rw [hmap]
      by_cases hp : p = q
      · rw [hp, hl]
        simp [hadv]
      · simp [hp]
    · obtain ⟨hstore, hfirst⟩ := printPid_prints h hl
      have hlookup : ∀ p, (printPid s q e true).1.migrate.lookup p =
          if p = q then some { e with rear := e.count + 1 } else s.migrate.lookup p := by
        intro p
        rw [hstore, BpfMap.lookup_store]
      obtain ⟨hmap, hprints, hcons⟩ := ih (printPid s q e true).1 (h.printPid hl) (by
        intro p hp
        rw [BpfMap.mem_keys, hlookup]
        split
        · rfl
        · exact BpfMap.mem_keys.mp (hrest p hp))
      have hadv : e.advance = { e with rear := e.count + 1 } := if_neg hskip
      have hagain : MigrateEvent.advance { e with rear := e.count + 1 } =
          { e with rear := e.count + 1 } := if_pos (by simp only; omega)
      simp only [migratePrint, hl, if_neg hskip]
      refine ⟨fun p => ?_, (hfirst.append hprints).congr (due_cons hl hskip hlookup keys), hcons⟩
      rw [hmap, hlookup]
      by_cases hp : p = q
      · rw [if_pos hp, hp, hl]
        simp [hadv, hagain]
      · rw [if_neg hp]
        simp [hp]

end Loops

/-- No update is refused, and `bpf_map_get_next_key` comes to every key and to no other. -/
def Smooth (pre : List Event) : Event → Prop
  | .schedMigrateTask _ _ _ rooms => rooms = ⟨true, true⟩
  | .migratePrint keys room => room = true ∧ ∀ p, p ∈ keys ↔ p ∈ (machine.exec pre).migrate.keys

instance (pre : List Event) : DecidablePred (Smooth pre)
  | .schedMigrateTask _ _ _ rooms => inferInstanceAs (Decidable (rooms = _))
  | .migratePrint keys room =>
    decidable_of_iff (room = true ∧ keys.toFinset = (machine.exec pre).migrate.keys) (by
      simp only [Smooth, Finset.ext_iff, List.mem_toFinset])

section Run

variable {s : State} {args : Args} {cur : Current} {time : UInt64} {pre tr : List Event}

theorem consistent_initial : Consistent initial where
  pid p e h := by cases h
  count p e h := by cases h
  rear p e h := by cases h
  infos p e h := by cases h
  absent p _ i := by simp [BpfMap.mem_keys, initial]

/-- The migrations of other tasks keep their keys. -/
theorem mem_store_of_ne {m : BpfMap MinfoKey PerMigrate} {p q i j : Int} (h : q ≠ p)
    (info : PerMigrate) : ⟨q, i⟩ ∈ (m.store ⟨p, j⟩ info).keys ↔ ⟨q, i⟩ ∈ m.keys := by
  rw [BpfMap.mem_keys, BpfMap.mem_keys, BpfMap.lookup_store_of_ne]
  intro heq
  exact h (congrArg MinfoKey.pid heq)

theorem mem_store_same {m : BpfMap MinfoKey PerMigrate} {p i j : Int} (info : PerMigrate) :
    ⟨p, i⟩ ∈ (m.store ⟨p, j⟩ info).keys ↔ i = j ∨ ⟨p, i⟩ ∈ m.keys := by
  rw [BpfMap.mem_keys, BpfMap.mem_keys, BpfMap.lookup_store]
  by_cases hij : i = j <;> simp [hij]

/-- A record that is stored with a new element keeps the maps consistent if its range is right. -/
theorem Consistent.store (h : Consistent s) {e : MigrateEvent} {p : Int} (info : PerMigrate)
    (hpid : e.pid = p) (hcount : 1 ≤ e.count ∧ e.count ≤ maxMigrate)
    (hrear : 1 ≤ e.rear ∧ e.rear ≤ e.count)
    (hinfos : ∀ i, ⟨p, i⟩ ∈ s.migrateInfo.keys ↔ e.rear ≤ i ∧ i < e.count) :
    Consistent
      { s with
        migrate := s.migrate.store p e
        migrateInfo := s.migrateInfo.store ⟨p, e.count⟩ info } := by
  apply h.replace rfl
  · exact fun q i hq => mem_store_of_ne hq info
  · exact hpid
  · exact hcount
  · exact ⟨hrear.1, by omega⟩
  · intro i
    show ⟨p, i⟩ ∈ (s.migrateInfo.store ⟨p, e.count⟩ info).keys ↔ _
    rw [mem_store_same, hinfos]
    omega

theorem Consistent.schedMigrateTask (h : Consistent s) :
    Consistent (schedMigrateTask s args cur time ⟨true, true⟩) := by
  cases hl : s.migrate.lookup args.pid with
  | none =>
    rw [schedMigrateTask_first hl, BpfMap.update_true, BpfMap.update_true]
    have hnew : ∀ i, ⟨args.pid, i⟩ ∈ s.migrateInfo.keys ↔ 1 ≤ i ∧ i < 1 := by
      intro i
      constructor
      · exact fun hi => absurd hi (h.absent _ hl i)
      · intro hi
        omega
    have hone : (1 : Int) ≤ maxMigrate := by decide
    exact h.store (e := ⟨0, args.pid, args.prio, 1, 1⟩) _ rfl ⟨Int.le_refl 1, hone⟩
      ⟨Int.le_refl 1, Int.le_refl 1⟩ hnew
  | some e =>
    by_cases hc : 0 < e.count ∧ e.count < maxMigrate
    · rw [schedMigrateTask_next hl hc, BpfMap.update_true]
      have hrear := h.rear _ e hl
      refine h.store (e := { e with count := e.count + 1 }) _ (h.pid _ e hl)
        ⟨by simp only; omega, by simp only; omega⟩ hrear fun i => ?_
      rw [h.infos _ e hl]
      simp only
      omega
    -- at the cap nothing happens
    · rw [schedMigrateTask_full hl hc]
      exact h

theorem consistent (h : Throughout Smooth tr) : Consistent (machine.exec tr) := by
  induction tr using List.reverseRecOn with
  | nil => exact consistent_initial
  | append_singleton pre e ih =>
    have hpre := ih h.of_snoc
    have hlast := h.last
    rw [Machine.exec_snoc]
    cases e with
    | schedMigrateTask args cur time rooms =>
      rw [show rooms = ⟨true, true⟩ from hlast]
      exact hpre.schedMigrateTask
    | migratePrint keys room =>
      obtain ⟨hroom, hkeys⟩ := hlast
      rw [hroom]
      exact (migratePrint_prints keys _ hpre fun p hp => (hkeys p).mp hp).2.2

/-- In every run of migrations and complete calls the elements of `migrate_info` are exactly those
from `rear` to `count` of the records, and no lookup of the user side fails. -/
theorem maps_consistent (tr : List Event) (h : Throughout Smooth tr) :
    (∀ pre, pre <+: tr → Consistent (machine.exec pre)) ∧
    ∀ l ∈ machine.emitted tr, l.isFailure = false := by
  refine ⟨fun pre hp => consistent (h.restrict hp), fun l hl => ?_⟩
  obtain ⟨pre, e, hp, hout⟩ := machine.mem_emitted hl
  cases e with
  | schedMigrateTask args cur time rooms => cases hout
  | migratePrint keys room =>
    have hpre := consistent (h.restrict ((List.prefix_append pre [_]).trans hp))
    obtain ⟨hroom, hkeys⟩ := h pre _ hp
    rw [hroom] at hout
    exact (migratePrint_prints keys _ hpre fun p hp => (hkeys p).mp hp).2.1.ok l hout

end Run

section Sample

def idleQueue : Current := ⟨1024, 1024, 0, 0, 0, 16, 0, 0, 1, 0⟩

/-- The task `pid` migrates, and both maps have room. -/
def migrates (pid : Int) (time : UInt64) : Event :=
  .schedMigrateTask ⟨pid, 120, 0, 1⟩ idleQueue time ⟨true, true⟩

/-- Two tasks migrate between two calls, one of them once and again afterwards. -/
def twoTasks : List Event :=
  [migrates 5 100, migrates 7 150, migrates 5 200, .migratePrint [7, 5] true, migrates 7 300,
    migrates 5 400, .migratePrint [5, 7] true]

theorem maps_consistent_twoTasks :
    (∀ pre, pre <+: twoTasks → Consistent (machine.exec pre)) ∧
    ∀ l ∈ machine.emitted twoTasks, l.isFailure = false :=
  maps_consistent twoTasks (by decide)

end Sample

end CpuSubsystem.MigrateImage
