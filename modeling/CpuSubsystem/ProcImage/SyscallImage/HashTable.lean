import CpuSubsystem.Lib.Capacity
import CpuSubsystem.Lib.Machine
import CpuSubsystem.ProcImage.Hashmap.Operations
import CpuSubsystem.ProcImage.SyscallImage.Table

/-!
# Syscall image: the tables in the hash map

`print_syscall` finds the table of a process through the hash map, and updates it in its place.  It
prints what it would print with a finite map, as long as there is memory; a process that gets none
starts again with its next record.
-/

namespace CpuSubsystem.SyscallImage

open Hashmap (Keyed contents)

/-- `struct syscall_hash`. -/
structure SyscallHash where
  key : Int
  value : ProcSyscallInfo

/-- `struct syscall_hash syscall_hash = {}`. -/
instance : Inhabited SyscallHash := ⟨⟨0, ProcSyscallInfo.zero⟩⟩

/-- A pid is not negative: the difference of two of them is an `int`. -/
def userCompare (a b : SyscallHash) : Int := a.key - b.key

/-- `sprintf(key_str, "%d", user->key)`. -/
def keyStr (key : Int) : List UInt8 := (toString key).toList.map fun c => UInt8.ofNat c.toNat

def userHash (item : SyscallHash) (seed0 seed1 : UInt64) : UInt64 :=
  Hashmap.sip (keyStr item.key) seed0 seed1

/-- What `print_syscall` hands to `hashmap_new`. -/
def userConfig : Hashmap.Config SyscallHash where
  seed0 := 0
  seed1 := 0
  hash := userHash
  compare := some userCompare

inductive HashFault where
  | reader (fault : Fault)
  | nullMap
  | endless
deriving DecidableEq, Repr

/-- The totals over all processes, and the hash map, which can be `NULL`. -/
structure Reader where
  sumDelay : UInt64
  sumCount : UInt64
  maxDelay : UInt64
  minDelay : UInt64
  enableHashmap : Bool
  map : Option (Hashmap SyscallHash)

def Reader.initial : Reader where
  sumDelay := 0
  sumCount := 0
  maxDelay := 0
  minDelay := 0
  enableHashmap := false
  map := none

def Reader.add (r : Reader) (e : SyscallSeq) : Reader :=
  { r with
    sumDelay := r.sumDelay + e.sumDelay
    maxDelay := if e.maxDelay > r.maxDelay then e.maxDelay else r.maxDelay
    minDelay := if r.minDelay == 0 || e.minDelay < r.minDelay then e.minDelay else r.minDelay
    sumCount := r.sumCount + UInt64.ofNat e.count }

/-- The map is made once.  Its first item needs no more memory, so that one call of `print_syscall`
asks for memory once at most. -/
def Reader.enable (r : Reader) (alloc : Bool) : Reader :=
  if r.enableHashmap then r
  else { r with
    map := if alloc then some (Hashmap.new SyscallHash 0) else none
    enableHashmap := true }

def ended {α : Type} : Option α → Except HashFault α
  | some a => .ok a
  | none => .error .endless

/-- The table of the process with the record, and the hash map with this table. -/
def track (map : Hashmap SyscallHash) (e : SyscallSeq) (alloc : Bool) :
    Except HashFault (Hashmap SyscallHash × ProcSyscallInfo) := do
  match ← ended (map.get userConfig ⟨e.pid, ProcSyscallInfo.zero⟩) with
  | some i =>
    let item := (map.buckets.get i).item
    let info ← (updateSyscalls item.value e).mapError .reader
    return (map.writeItem i { item with value := info }, info)
  | none =>
    let info ← (updateSyscalls ProcSyscallInfo.zero e).mapError .reader
    let (map, _) ← ended (map.set userConfig ⟨e.pid, info⟩ alloc)
    return (map, info)

/-- The line for the record of a process with this table. -/
def rowOf (c : ScCtrl) (e : SyscallSeq) (info : ProcSyscallInfo)
    (avgDelay maxDelay minDelay : UInt64) : Except Fault Row := do
  let first ← info.num info.firstSyscall
  let second ← info.num info.secondSyscall
  let third ← info.num info.thirdSyscall
  let procAvg ← divide e.procSd (UInt64.ofNat e.procCount)
  let ids ← (List.range e.count).mapM e.recordAt
  return {
    tgid := if c.targetTgid != -1 then some e.tgid else none
    pid := e.pid
    first := (info.firstSyscall, first)
    second := (info.secondSyscall, second)
    third := (info.thirdSyscall, third)
    procAvgDelay := procAvg
    sysAvgDelay := avgDelay
    procMaxDelay := e.maxDelay
    sysMaxDelay := maxDelay
    procMinDelay := e.minDelay
    sysMinDelay := minDelay
    syscalls := ids }

/-- `print_syscall`, less the header and the time of day. -/
def Reader.print (c : ScCtrl) (r : Reader) (e : SyscallSeq) (alloc : Bool) :
    Except HashFault (Reader × Option Row) := do
  if c.scFunc then
    let r := r.add e
    let avgDelay ← (divide r.sumDelay r.sumCount).mapError .reader
    let r := r.enable alloc
    if printed c e then
      match r.map with
      | none => .error .nullMap
      | some map =>
        let (map, info) ← track map e alloc
        let row ← (rowOf c e info avgDelay r.maxDelay r.minDelay).mapError .reader
        return ({ r with map := some map }, some row)
    else
      return (r, none)
  else
    return (r, none)

/-- A record that is taken out of the ring buffer, and the memory at that moment. -/
structure Poll where
  ctrl : ScCtrl
  record : SyscallSeq
  alloc : Bool

def readOne {σ ι ε : Type} (print : σ → ι → Except ε (σ × Option Row)) (s : Except ε σ) (i : ι) :
    Except ε σ × List Row :=
  match s.bind fun a => print a i with
  | .error f => (.error f, [])
  | .ok (a, row) => (.ok a, row.toList)

/-- A reader prints the lines of one record after the other, until a fault ends it. -/
def reading {σ ι ε : Type} (print : σ → ι → Except ε (σ × Option Row)) (init : σ) :
    Machine (Except ε σ) ι Row where
  init := .ok init
  step := readOne print

def hashReader : Machine (Except HashFault Reader) Poll Row :=
  reading (fun r p => r.print p.ctrl p.record p.alloc) Reader.initial

/-- `print_syscall` with a finite map.  The first table of a process is kept, or it is not. -/
def printKept (env : Env) (p : Poll) (kept : Bool) : Except Fault (Env × Option Row) := do
  let (env', row) ← printSyscall p.ctrl env p.record
  let known := kept || (env.map.lookup p.record.pid).isSome
  return (if known then env' else { env' with map := env.map }, row)

def mapReader : Machine (Except Fault Env) (Poll × Bool) Row :=
  reading (fun env p => printKept env p.1 p.2) Env.initial

theorem user_keyed : Keyed userConfig SyscallHash.key := by
  intro a b
  have hcompare : userConfig.equal a b = true ↔ a.key = b.key := by
    show (a.key - b.key == 0) = true ↔ a.key = b.key
    rw [beq_iff_eq, Int.sub_eq_zero]
  refine ⟨fun h => hcompare.mp h.2, fun h => ⟨?_, hcompare.mpr h⟩⟩
  have hhash : userHash a 0 0 = userHash b 0 0 := by
    unfold userHash
    rw [h]
  exact congrArg Hashmap.clipHash hhash

/-! ## One record -/

section Record

variable {map : Hashmap SyscallHash} {tables : BpfMap Int ProcSyscallInfo} {r : Reader} {env : Env}
  {c : ScCtrl} {e : SyscallSeq} {pids : Finset Int}

/-- The hash map has these tables. -/
structure Keeps (map : Hashmap SyscallHash) (tables : BpfMap Int ProcSyscallInfo) : Prop where
  inv : Hashmap.Inv userConfig SyscallHash.key map
  items : ∃ abs, Represents SyscallHash.key (contents map.buckets) abs ∧
    ∀ p, tables.lookup p = (abs.lookup p).map SyscallHash.value

theorem keeps_new (h : ∀ p, tables.lookup p = none) : Keeps (Hashmap.new SyscallHash 0) tables := by
  refine ⟨Hashmap.inv_new 0, BpfMap.empty, ?_, fun p => ?_⟩
  · rw [Hashmap.contents_new]
    exact Represents.empty
  · rw [h, BpfMap.lookup_empty]
    rfl

theorem Keeps.count (h : Keeps map tables) : map.count = tables.keys.card := by
  obtain ⟨abs, hr, htables⟩ := h.items
  have hkeys : tables.keys = abs.keys := by
    ext p
    rw [BpfMap.mem_keys, BpfMap.mem_keys, htables, Option.isSome_map]
  rw [hkeys, hr.card_keys h.inv.distinct, h.inv.count]

theorem lookup_stored {abs : BpfMap Int SyscallHash}
    (h : ∀ p, tables.lookup p = (abs.lookup p).map SyscallHash.value) (pid : Int)
    (info : ProcSyscallInfo) (p : Int) :
    (tables.store pid info).lookup p =
      ((abs.store pid ⟨pid, info⟩).lookup p).map SyscallHash.value := by
  rw [BpfMap.lookup_store, BpfMap.lookup_store]
  split
  · rfl
  · exact h p

/-- The table that is found is written in its place. -/
theorem Keeps.write (h : Keeps map tables) {i : Fin map.nbuckets}
    (hi : (map.buckets.get i).dib ≠ 0) (info : ProcSyscallInfo) :
    Keeps (map.writeItem i { (map.buckets.get i).item with value := info })
      (tables.store (map.buckets.get i).item.key info) := by
  obtain ⟨abs, hr, htables⟩ := h.items
  have hd := h.inv.distinct
  rw [Hashmap.contents_busy hi, distinct_cons] at hd
  rw [Hashmap.contents_busy hi] at hr
  refine ⟨h.inv.writeItem user_keyed hi rfl, _, ?_, lookup_stored htables _ info⟩
  rw [Hashmap.writeItem, Hashmap.contents_write hi]
  exact hr.replace hd.1 rfl

theorem track_found {i : Fin map.nbuckets} {alloc : Bool}
    (h : map.get userConfig ⟨e.pid, ProcSyscallInfo.zero⟩ = some (some i)) :
    track map e alloc = (do
      let info ← (updateSyscalls (map.buckets.get i).item.value e).mapError HashFault.reader
      return (map.writeItem i { (map.buckets.get i).item with value := info }, info)) := by
  rw [track, h]
  rfl

theorem track_missing {alloc : Bool}
    (h : map.get userConfig ⟨e.pid, ProcSyscallInfo.zero⟩ = some none) :
    track map e alloc = (do
      let info ← (updateSyscalls ProcSyscallInfo.zero e).mapError HashFault.reader
      let (map, _) ← ended (map.set userConfig ⟨e.pid, info⟩ alloc)
      return (map, info)) := by
  rw [track, h]
  rfl

/-- The same update, with a finite map. -/
theorem track_spec (h : Keeps map tables)
    (hfits : tables.lookup e.pid = none → map.count < 65535) (alloc : Bool) :
    ∃ kept, (alloc = true → kept = true) ∧
      Agrees (fun f f' => f = .reader f')
        (fun x info => x.2 = info ∧ Keeps x.1
          (if kept || (tables.lookup e.pid).isSome then tables.store e.pid info else tables))
        (track map e alloc)
        (updateSyscalls ((tables.lookup e.pid).getD ProcSyscallInfo.zero) e) := by
  obtain ⟨abs, hr, htables⟩ := h.items
  obtain ⟨found, hget, hfinds⟩ := Hashmap.get_spec user_keyed h.inv
    ⟨e.pid, ProcSyscallInfo.zero⟩
  cases found with
  | some i =>
    obtain ⟨hbusy, hkey⟩ := hfinds
    have hlookup : tables.lookup e.pid = some (map.buckets.get i).item.value := by
      have hmem := hr.lookup_of_mem (Hashmap.item_mem hbusy)
      rw [← hkey] at hmem
      rw [htables, hmem]
      rfl
    refine ⟨true, fun _ => rfl, ?_⟩
    rw [hlookup, track_found hget, Option.getD_some]
    cases updateSyscalls (map.buckets.get i).item.value e with
    | error f => exact rfl
    | ok info =>
      have hwrite := h.write hbusy info
      rw [← hkey] at hwrite
      exact ⟨rfl, hwrite⟩
  | none =>
    have hlookup : tables.lookup e.pid = none := by
      rw [htables, hr.lookup_of_absent hfinds]
      rfl
    rw [hlookup, track_missing hget, Option.getD_none]
    cases hinfo : updateSyscalls ProcSyscallInfo.zero e with
    | error f => exact ⟨true, fun _ => rfl, rfl⟩
    | ok info =>
      obtain ⟨map', old, hset, hinv, hsets, halloc⟩ := Hashmap.set_spec (a := ⟨e.pid, info⟩)
        user_keyed h.inv (fun _ => hfits hlookup) alloc
      refine ⟨!map'.oom, fun ha => ?_, ?_⟩
      · cases hoom : map'.oom with
        | false => rfl
        | true =>
          rw [halloc hoom] at ha
          cases ha
      · show Agrees _ _ (ended (map.set userConfig ⟨e.pid, info⟩ alloc) >>= _) (.ok info)
        rw [hset]
        refine ⟨rfl, hinv, ?_⟩
        generalize map'.oom = oom at hsets ⊢
        cases hsets with
        | fresh hs hkey =>
          refine ⟨_, ?_, lookup_stored htables e.pid info⟩
          rw [hs]
          exact hr.store hkey
        | @replaced b _ hs hs' hkey =>
          have hb : b ∈ contents map.buckets := hs ▸ Multiset.mem_cons_self b _
          exact absurd hkey (hfinds b hb)
        | refused hs => exact ⟨abs, hs ▸ hr, htables⟩

theorem printSyscall_eq (c : ScCtrl) (env : Env) (e : SyscallSeq) :
    printSyscall c env e =
      if c.scFunc then do
        let avgDelay ← divide (env.add e).sumDelay (env.add e).sumCount
        if printed c e then do
          let info ← updateSyscalls ((env.map.lookup e.pid).getD ProcSyscallInfo.zero) e
          let row ← rowOf c e info avgDelay (env.add e).maxDelay (env.add e).minDelay
          return ({ env.add e with map := env.map.store e.pid info }, some row)
        else
          return (env.add e, none)
      else
        return (env, none) := by
  unfold printSyscall rowOf
  simp only [bind_assoc, pure_bind]
  rfl

/-- The same totals, and the same tables once there is a map. -/
structure Tracks (r : Reader) (env : Env) : Prop where
  sumDelay : r.sumDelay = env.sumDelay
  sumCount : r.sumCount = env.sumCount
  maxDelay : r.maxDelay = env.maxDelay
  minDelay : r.minDelay = env.minDelay
  empty : r.enableHashmap = false → ∀ p, env.map.lookup p = none
  keeps : r.enableHashmap = true → ∃ map, r.map = some map ∧ Keeps map env.map

theorem Tracks.add (h : Tracks r env) (e : SyscallSeq) : Tracks (r.add e) (env.add e) where
  sumDelay := by rw [Reader.add, Env.add, h.sumDelay]
  sumCount := by rw [Reader.add, Env.add, h.sumCount]
  maxDelay := by rw [Reader.add, Env.add, h.maxDelay]
  minDelay := by rw [Reader.add, Env.add, h.minDelay]
  empty := h.empty
  keeps := h.keeps

theorem Tracks.enable (h : Tracks r env) {alloc : Bool}
    (halloc : r.enableHashmap = false → alloc = true) :
    Tracks (r.enable alloc) env ∧ (r.enable alloc).enableHashmap = true := by
  unfold Reader.enable
  cases hen : r.enableHashmap with
  | true => exact ⟨h, hen⟩
  | false =>
    rw [halloc hen]
    exact ⟨⟨h.sumDelay, h.sumCount, h.maxDelay, h.minDelay, nofun,
      fun _ => ⟨_, rfl, keeps_new (h.empty hen)⟩⟩, rfl⟩

theorem print_spec (h : Tracks r env) {p : Poll}
    (halloc : p.ctrl.scFunc = true → r.enableHashmap = false → p.alloc = true)
    (hfits : env.map.lookup p.record.pid = none → env.map.keys.card < 65535) :
    ∃ kept, (p.alloc = true → kept = true) ∧
      Agrees (fun f f' => f = .reader f')
        (fun x y => x.2 = y.2 ∧ Tracks x.1 y.1 ∧
          x.1.enableHashmap = (r.enableHashmap || p.ctrl.scFunc) ∧
          y.1.map.keys ⊆ insert p.record.pid env.map.keys)
        (r.print p.ctrl p.record p.alloc) (printKept env p kept) := by
  obtain ⟨c, e, alloc⟩ := p
  unfold printKept Reader.print
  simp only [printSyscall_eq]
  cases hon : c.scFunc with
  | false =>
    refine ⟨true, fun _ => rfl, rfl, h, ?_, ?_⟩
    · rw [Bool.or_false]
    · exact Finset.subset_insert _ _
  | true =>
    obtain ⟨ht, hen⟩ := (h.add e).enable (halloc hon)
    obtain ⟨map, hmap, hkeep⟩ : ∃ map, _ = some map ∧ Keeps map env.map := ht.keeps hen
    obtain ⟨kept, hkept, htrack⟩ := track_spec (e := e) hkeep
      (fun hnone => hkeep.count ▸ hfits hnone) alloc
    refine ⟨kept, hkept, ?_⟩
    simp only [if_true, bind_assoc, ← (h.add e).sumDelay, ← (h.add e).sumCount]
    apply (agrees_mapError HashFault.reader _).bind
    rintro avgDelay _ rfl
    cases hprinted : printed c e with
    | false =>
      refine ⟨rfl, ?_, ?_, ?_⟩
      · split <;> exact ht
      · rw [hen, Bool.or_true]
      · split <;> exact Finset.subset_insert _ _
    | true =>
      simp only [if_true, hmap, bind_assoc]
      apply htrack.bind
      rintro x _ ⟨rfl, hkeep'⟩
      have hmax : ((r.add e).enable alloc).maxDelay = (env.add e).maxDelay := ht.maxDelay
      have hmin : ((r.add e).enable alloc).minDelay = (env.add e).minDelay := ht.minDelay
      simp only [hmax, hmin]
      apply (agrees_mapError HashFault.reader _).bind
      rintro row _ rfl
      have hdelay := ht.sumDelay.trans (h.add e).sumDelay.symm
      have hcount := ht.sumCount.trans (h.add e).sumCount.symm
      have hstays : ((r.add e).enable alloc).enableHashmap = (r.enableHashmap || true) := by
        rw [hen, Bool.or_true]
      generalize (kept || (env.map.lookup e.pid).isSome) = known at hkeep' ⊢
      cases known with
      | true =>
        exact ⟨rfl, ⟨hdelay, hcount, rfl, rfl, fun hoff => Bool.noConfusion (hen.symm.trans hoff),
          fun _ => ⟨x.1, rfl, hkeep'⟩⟩, hstays, (BpfMap.keys_store _ _ _).subset⟩
      | false =>
        exact ⟨rfl, ⟨hdelay, hcount, rfl, rfl, fun hoff => Bool.noConfusion (hen.symm.trans hoff),
          fun _ => ⟨x.1, rfl, hkeep'⟩⟩, hstays, Finset.subset_insert _ _⟩

end Record

/-! ## Any number of records -/

section Reading

variable {σ ι ε σ' ι' ε' : Type} {print : σ → ι → Except ε (σ × Option Row)} {init : σ}
  {print' : σ' → ι' → Except ε' (σ' × Option Row)} {init' : σ'} {exc : ε → ε' → Prop}
  {pre : List ι} {pre' : List ι'} {i : ι} {s : σ} {s' : σ'} {rel : σ → σ' → Prop}

theorem reading_error {f : ε} (h : (reading print init).exec pre = .error f) :
    (reading print init).exec (pre ++ [i]) = .error f ∧
      (reading print init).emits pre i = [] := by
  rw [Machine.exec_snoc, Machine.emits, h]
  exact ⟨rfl, rfl⟩

/-- Two readers that agree on the next record print the same line for it. -/
theorem reading_agrees (i : ι) (i' : ι') (h : (reading print init).exec pre = .ok s)
    (h' : (reading print' init').exec pre' = .ok s')
    (hstep : Agrees exc (fun x y => x.2 = y.2 ∧ rel x.1 y.1) (print s i) (print' s' i')) :
    Agrees exc rel ((reading print init).exec (pre ++ [i]))
        ((reading print' init').exec (pre' ++ [i'])) ∧
      (reading print init).emits pre i = (reading print' init').emits pre' i' := by
  rw [Machine.exec_snoc, Machine.exec_snoc, Machine.emits, Machine.emits, h, h']
  simp only [reading, readOne, Except.bind]
  generalize print s i = x at hstep ⊢
  generalize print' s' i' = y at hstep ⊢
  cases x with
  | error f =>
    cases y with
    | error f' => exact ⟨hstep, rfl⟩
    | ok y => exact hstep.elim
  | ok x =>
    cases y with
    | error f' => exact hstep.elim
    | ok y =>
      obtain ⟨hrow, hrel⟩ := hstep
      exact ⟨hrel, congrArg Option.toList hrow⟩

end Reading

variable {polls : List Poll}

/-- There is memory for the hash map when the first record comes. -/
def MapGiven (polls : List Poll) : Prop :=
  Throughout (fun pre p => p.ctrl.scFunc = true → (∀ q ∈ pre, q.ctrl.scFunc = false) →
    p.alloc = true) polls

def recordPids (polls : List Poll) : Finset Int := (polls.map fun p => p.record.pid).toFinset

theorem recordPids_snoc (pre : List Poll) (p : Poll) :
    recordPids (pre ++ [p]) = insert p.record.pid (recordPids pre) := by
  rw [recordPids, List.map_append, List.toFinset_append, List.map_singleton,
    List.toFinset_cons, List.toFinset_nil, Finset.union_insert, Finset.union_empty, recordPids]

/-- What the two readers have in common after some records. -/
structure InStep (polls : List Poll) (r : Reader) (env : Env) : Prop where
  tracks : Tracks r env
  enabled : r.enableHashmap = true ↔ ∃ p ∈ polls, p.ctrl.scFunc = true
  keys : env.map.keys ⊆ recordPids polls

theorem inStep_nil : InStep [] Reader.initial Env.initial where
  tracks := ⟨rfl, rfl, rfl, rfl, fun _ p => BpfMap.lookup_empty p, nofun⟩
  enabled := ⟨nofun, fun ⟨_, hp, _⟩ => absurd hp List.not_mem_nil⟩
  keys := by
    show (BpfMap.empty : BpfMap Int ProcSyscallInfo).keys ⊆ _
    rw [BpfMap.keys_eq_empty BpfMap.lookup_empty]
    exact Finset.empty_subset _

theorem inStep_snoc {pre : List Poll} {p : Poll} {r : Reader} {env : Env} (h : InStep pre r env)
    (hgiven : MapGiven (pre ++ [p])) (hfew : (recordPids (pre ++ [p])).card ≤ 65535) :
    ∃ kept, (p.alloc = true → kept = true) ∧
      Agrees (fun f f' => f = .reader f')
        (fun x y => x.2 = y.2 ∧ InStep (pre ++ [p]) x.1 y.1)
        (r.print p.ctrl p.record p.alloc) (printKept env p kept) := by
  have halloc : p.ctrl.scFunc = true → r.enableHashmap = false → p.alloc = true := by
    intro hon hoff
    refine hgiven.last hon fun q hq => ?_
    by_contra hq'
    have hen := h.enabled.mpr ⟨q, hq, Bool.eq_true_of_not_eq_false hq'⟩
    rw [hoff] at hen
    cases hen
  have hfits : env.map.lookup p.record.pid = none → env.map.keys.card < 65535 := by
    intro hnone
    have hnot : p.record.pid ∉ env.map.keys := by
      rw [BpfMap.mem_keys, hnone]
      exact Bool.false_ne_true
    have hle := Finset.card_le_card (Finset.insert_subset_insert p.record.pid h.keys)
    rw [Finset.card_insert_of_notMem hnot, ← recordPids_snoc] at hle
    omega
  obtain ⟨kept, hkept, hagrees⟩ := print_spec h.tracks halloc hfits
  refine ⟨kept, hkept, hagrees.mono ?_⟩
  rintro x y ⟨hrow, htracks, hen, hkeys⟩
  refine ⟨hrow, htracks, ?_, ?_⟩
  · rw [hen, Bool.or_eq_true, h.enabled]
    simp only [List.mem_append, List.mem_singleton, or_and_right, exists_or, exists_eq_left]
  · rw [recordPids_snoc]
    exact hkeys.trans (Finset.insert_subset_insert _ h.keys)

/-- The lines that are printed with the hash map are those of a reader with a finite map, and so is
the fault that ends the run.  That reader forgets new processes only that come without memory. -/
theorem hashReader_refines (hgiven : MapGiven polls) (hfew : (recordPids polls).card ≤ 65535) :
    ∃ runs : List (Poll × Bool), runs.map Prod.fst = polls ∧
      (∀ x ∈ runs, x.1.alloc = true → x.2 = true) ∧
      hashReader.emitted polls = mapReader.emitted runs ∧
      Agrees (fun f f' => f = .reader f') (InStep polls) (hashReader.exec polls)
        (mapReader.exec runs) := by
  induction polls using List.reverseRecOn with
  | nil =>
    refine ⟨[], rfl, fun x hx => absurd hx List.not_mem_nil, ?_, ?_⟩
    · rw [Machine.emitted_nil, Machine.emitted_nil]
    · rw [Machine.exec_nil, Machine.exec_nil]
      exact inStep_nil
  | append_singleton pre p ih =>
    have hless : (recordPids pre).card ≤ (recordPids (pre ++ [p])).card := by
      rw [recordPids_snoc]
      exact Finset.card_le_card (Finset.subset_insert _ _)
    obtain ⟨runs, hruns, hkept, hrows, hagrees⟩ := ih hgiven.of_snoc (hless.trans hfew)
    have hmap : ∀ kept, (runs ++ [(p, kept)]).map Prod.fst = pre ++ [p] := by
      intro kept
      rw [List.map_append, hruns, List.map_singleton]
    have hall : ∀ kept, (p.alloc = true → kept = true) →
        ∀ x ∈ runs ++ [(p, kept)], x.1.alloc = true → x.2 = true := by
      intro kept h x hx
      rcases List.mem_append.mp hx with hx | hx
      · exact hkept x hx
      · rw [List.mem_singleton.mp hx]
        exact h
    cases hs : hashReader.exec pre with
    | error f =>
      cases hs' : mapReader.exec runs with
      | ok env =>
        rw [hs, hs'] at hagrees
        exact hagrees.elim
      | error f' =>
        refine ⟨_, hmap true, hall true fun _ => rfl, ?_, ?_⟩
        · rw [Machine.emitted_snoc, Machine.emitted_snoc, hrows]
          exact congrArg _ ((reading_error hs).2.trans (reading_error hs').2.symm)
        · rw [hs, hs'] at hagrees
          have hexec : hashReader.exec (pre ++ [p]) = .error f := (reading_error hs).1
          have hexec' : mapReader.exec (runs ++ [(p, true)]) = .error f' := (reading_error hs').1
          rw [hexec, hexec']
          exact hagrees
    | ok r =>
      cases hs' : mapReader.exec runs with
      | error f' =>
        rw [hs, hs'] at hagrees
        exact hagrees.elim
      | ok env =>
        rw [hs, hs'] at hagrees
        obtain ⟨kept, hkept', hstep⟩ := inStep_snoc hagrees hgiven hfew
        obtain ⟨hagrees', hemits⟩ := reading_agrees p (p, kept) hs hs' hstep
        refine ⟨_, hmap kept, hall kept hkept', ?_, hagrees'⟩
        rw [Machine.emitted_snoc, Machine.emitted_snoc, hrows]
        exact congrArg _ hemits

/-- A record of the process, with one call. -/
def pollOf (pid : Int) (alloc : Bool) : Poll where
  ctrl := ⟨true, true, false, -1, -1, 1⟩
  record := { SyscallSeq.zero with pid := pid, count := 1, procCount := 1 }
  alloc := alloc

def samplePolls : List Poll := [pollOf 5 true, pollOf 6 false, pollOf 5 true]

theorem hashReader_refines_sample :
    ∃ runs : List (Poll × Bool), runs.map Prod.fst = samplePolls ∧
      (∀ x ∈ runs, x.1.alloc = true → x.2 = true) ∧
      hashReader.emitted samplePolls = mapReader.emitted runs ∧
      Agrees (fun f f' => f = .reader f') (InStep samplePolls) (hashReader.exec samplePolls)
        (mapReader.exec runs) := by
  have hgiven : MapGiven samplePolls := by
    intro pre p hp hon hfirst
    cases pre with
    | nil =>
      cases (List.cons_prefix_cons.mp hp).1
      rfl
    | cons q pre =>
      have hq := hfirst q List.mem_cons_self
      rw [(List.cons_prefix_cons.mp hp).1] at hq
      cases hq
  exact hashReader_refines hgiven (by decide)

end CpuSubsystem.SyscallImage
