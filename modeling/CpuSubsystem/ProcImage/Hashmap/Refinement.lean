import CpuSubsystem.Lib.Capacity
import CpuSubsystem.Lib.Machine
import CpuSubsystem.ProcImage.Hashmap.Operations

/-!
# The hash map is a finite map

Any sequence of calls gets the answers of a finite map from keys to items, however often the table
grows and shrinks on the way, and whichever allocations fail.
-/

namespace CpuSubsystem.Hashmap

variable {α κ : Type*}

/-- A call.  `modify` writes through the pointer that `hashmap_get` returns. -/
inductive Op (α : Type*) where
  | set (item : α) (alloc : Bool)
  | get (key : α)
  | modify (key : α) (f : α → α)
  | del (key : α) (alloc : Bool)
  | clear (updateCap : Bool)
  | setGrowByPower (power : Nat)

inductive Answer (α : Type*) where
  | replaced (old : Option α) (oom : Bool)
  | found (item : Option α)
  | deleted (item : Option α)
  | freed (items : List α)
  | done

section Machine

variable [Inhabited α] (cfg : Config α)

def step (m : Hashmap α) : Op α → Option (Hashmap α × Answer α)
  | .set item alloc => do
    let (m, old) ← m.set cfg item alloc
    return (m, .replaced old m.oom)
  | .get key => (m.get cfg key).map fun r => (m, .found (r.map fun i => (m.buckets.get i).item))
  | .modify key f => (m.get cfg key).map fun
    | none => (m, .found none)
    | some i => (m.writeItem i (f (m.buckets.get i).item), .found (some (m.buckets.get i).item))
  | .del key alloc => do
    let (m, old) ← m.del cfg key alloc
    return (m, .deleted old)
  | .clear updateCap => some (m.clear updateCap, .freed m.freeElements)
  | .setGrowByPower power => some (m.setGrowByPower power, .done)

/-- A map that is made with the capacity `cap`; the state is `none` after a loop that does not end.
The records are the calls and their answers. -/
def machine (cap : Nat) : Machine (Option (Hashmap α)) (Op α) (Op α × Answer α) where
  init := some (new α cap)
  step s op :=
    match s.bind fun m => m.step cfg op with
    | none => (none, [])
    | some (m, answer) => (some m, [(op, answer)])

end Machine

/-- The answers of a finite map.  A call of `hashmap_set` that gets no memory does nothing. -/
inductive Does [DecidableEq κ] (key : α → κ) (abs : BpfMap κ α) :
    Op α → Answer α → BpfMap κ α → Prop where
  | set (item : α) (alloc : Bool) :
      Does key abs (.set item alloc) (.replaced (abs.lookup (key item)) false)
        (abs.store (key item) item)
  | refused (item : α) : Does key abs (.set item false) (.replaced none true) abs
  | get (a : α) : Does key abs (.get a) (.found (abs.lookup (key a))) abs
  | modify {a b : α} (f : α → α) (h : abs.lookup (key a) = some b) :
      Does key abs (.modify a f) (.found (some b)) (abs.store (key a) (f b))
  | missing {a : α} (f : α → α) (h : abs.lookup (key a) = none) :
      Does key abs (.modify a f) (.found none) abs
  | del (a : α) (alloc : Bool) :
      Does key abs (.del a alloc) (.deleted (abs.lookup (key a))) (abs.delete (key a))
  | clear (updateCap : Bool) {items : List α} (h : Represents key (items : Multiset α) abs) :
      Does key abs (.clear updateCap) (.freed items) BpfMap.empty
  | setGrowByPower (power : Nat) : Does key abs (.setGrowByPower power) .done abs

inductive Run [DecidableEq κ] (key : α → κ) : List (Op α × Answer α) → BpfMap κ α → Prop where
  | nil : Run key [] BpfMap.empty
  | snoc {log : List (Op α × Answer α)} {abs abs' : BpfMap κ α} {op : Op α} {answer : Answer α}
      (h : Run key log abs) (hdoes : Does key abs op answer abs') :
      Run key (log ++ [(op, answer)]) abs'

/-- An item that is set finds room, and no key is written over. -/
def Op.Fits (key : α → κ) (m : Hashmap α) : Op α → Prop
  | .set item _ => Hashmap.Fits key m item
  | .modify _ f => ∀ b, key (f b) = key b
  | _ => True

variable [DecidableEq κ] {cfg : Config α} {key : α → κ} {m : Hashmap α} {abs : BpfMap κ α}
  {op : Op α} {cap : Nat} {ops : List (Op α)}

theorem Sets.does {s s' : Multiset α} {a : α} {old : Option α} {oom alloc : Bool}
    (h : Sets key s s' a old oom) (hd : Distinct key s) (hr : Represents key s abs)
    (halloc : oom = true → alloc = false) :
    ∃ abs', Does key abs (.set a alloc) (.replaced old oom) abs' ∧ Represents key s' abs' := by
  cases h with
  | fresh hs hkey =>
    refine ⟨abs.store (key a) a, ?_, hs ▸ hr.store hkey⟩
    have hdoes : Does key abs (.set a alloc) _ _ := .set a alloc
    rw [hr.lookup_of_absent hkey] at hdoes
    exact hdoes
  | @replaced b r hs hs' hkey =>
    subst hs
    rw [distinct_cons] at hd
    refine ⟨abs.store (key a) a, ?_, hs' ▸ hr.replace hd.1 hkey⟩
    have hdoes : Does key abs (.set a alloc) _ _ := .set a alloc
    rw [hkey, hr.lookup_of_mem (Multiset.mem_cons_self b r), ← hkey] at hdoes
    exact hdoes
  | refused hs =>
    rw [halloc rfl]
    exact ⟨abs, .refused a, hs ▸ hr⟩

theorem Deletes.does {s s' : Multiset α} {a : α} {old : Option α} (h : Deletes key s s' a old)
    (hd : Distinct key s) (hr : Represents key s abs) (alloc : Bool) :
    ∃ abs', Does key abs (.del a alloc) (.deleted old) abs' ∧ Represents key s' abs' := by
  have hdoes : Does key abs (.del a alloc) _ _ := .del a alloc
  refine ⟨abs.delete (key a), ?_⟩
  cases h with
  | @found b hs hkey =>
    subst hs
    rw [distinct_cons] at hd
    rw [hkey, hr.lookup_of_mem (Multiset.mem_cons_self b s')] at hdoes
    rw [hkey]
    exact ⟨hdoes, hr.delete hd.1⟩
  | missing hs hkey =>
    have habsent := hr.lookup_of_absent hkey
    rw [habsent] at hdoes
    exact ⟨hdoes, by rw [BpfMap.delete_of_absent habsent, hs]; exact hr⟩

variable [Inhabited α]

/-- Every call ends, and does what it does to a finite map. -/
theorem step_spec (hk : Keyed cfg key) (h : Inv cfg key m)
    (hr : Represents key (contents m.buckets) abs) (hfits : op.Fits key m) :
    ∃ m' answer abs', m.step cfg op = some (m', answer) ∧ Inv cfg key m' ∧
      Represents key (contents m'.buckets) abs' ∧ Does key abs op answer abs' := by
  cases op with
  | set a alloc =>
    obtain ⟨m', old, hm', hinv, hsets, halloc⟩ := set_spec hk h hfits alloc
    obtain ⟨abs', hdoes, hr'⟩ := hsets.does h.distinct hr halloc
    exact ⟨m', _, abs', by rw [step, hm']; rfl, hinv, hr', hdoes⟩
  | get a =>
    obtain ⟨r, hm', hfinds⟩ := get_spec hk h a
    refine ⟨m, _, abs, by rw [step, hm']; rfl, h, hr, ?_⟩
    have hdoes : Does key abs (.get a) _ _ := .get a
    cases r with
    | none =>
      rw [hr.lookup_of_absent hfinds] at hdoes
      exact hdoes
    | some i =>
      rw [hfinds.2, hr.lookup_of_mem (item_mem hfinds.1)] at hdoes
      exact hdoes
  | modify a f =>
    obtain ⟨r, hm', hfinds⟩ := get_spec hk h a
    cases r with
    | none =>
      exact ⟨m, _, abs, by rw [step, hm']; rfl, h, hr, .missing f (hr.lookup_of_absent hfinds)⟩
    | some i =>
      obtain ⟨hbusy, hkey⟩ := hfinds
      have hold := contents_busy hbusy
      have hd := h.distinct
      have hlookup := hr.lookup_of_mem (item_mem hbusy)
      rw [hold, distinct_cons] at hd
      rw [hold] at hr
      rw [← hkey] at hlookup
      have hsame := hfits (m.buckets.get i).item
      have hr' := hr.replace hd.1 hsame
      rw [hsame, ← hkey] at hr'
      refine ⟨_, _, _, by rw [step, hm']; rfl, h.writeItem hk hbusy hsame, ?_, .modify f hlookup⟩
      rw [writeItem, contents_write hbusy]
      exact hr'
  | del a alloc =>
    obtain ⟨m', old, hm', hinv, hdel⟩ := del_spec hk h a alloc
    obtain ⟨abs', hdoes, hr'⟩ := hdel.does h.distinct hr alloc
    exact ⟨m', _, abs', by rw [step, hm']; rfl, hinv, hr', hdoes⟩
  | clear updateCap =>
    refine ⟨_, _, BpfMap.empty, rfl, h.clear updateCap, ?_, .clear updateCap ?_⟩
    · rw [Hashmap.clear, contents_replicate _ _ rfl]
      exact Represents.empty
    · rw [freeElements, coe_bucketItems]
      exact hr
  | setGrowByPower power =>
    exact ⟨_, _, abs, rfl, h.setGrowByPower power, hr, .setGrowByPower power⟩

theorem machine_snoc {pre : List (Op α)} {m' : Hashmap α} {answer : Answer α}
    (h : (machine cfg cap).exec pre = some m) (hstep : m.step cfg op = some (m', answer)) :
    (machine cfg cap).exec (pre ++ [op]) = some m' ∧
      (machine cfg cap).emitted (pre ++ [op]) =
        (machine cfg cap).emitted pre ++ [(op, answer)] := by
  rw [Machine.exec_snoc, Machine.emitted_snoc, Machine.emits, h]
  simp only [machine, Option.bind_some, hstep, and_self]

/-- Sizes of tables fit in their type, and every item that is set finds room when it comes. -/
structure Roomy (cfg : Config α) (key : α → κ) (cap : Nat) (ops : List (Op α)) : Prop where
  cap_le : cap ≤ 2 ^ 32
  fits : Throughout (fun pre op => ∀ m, (machine cfg cap).exec pre = some m → op.Fits key m) ops

omit [DecidableEq κ] in
theorem Roomy.of_snoc {pre : List (Op α)} (h : Roomy cfg key cap (pre ++ [op])) :
    Roomy cfg key cap pre :=
  ⟨h.cap_le, h.fits.of_snoc⟩

omit [DecidableEq κ] in
theorem Roomy.last {pre : List (Op α)} (h : Roomy cfg key cap (pre ++ [op]))
    (hm : (machine cfg cap).exec pre = some m) : op.Fits key m :=
  h.fits.last m hm

theorem machine_run (hk : Keyed cfg key) (h : Roomy cfg key cap ops) :
    ∃ m abs, (machine cfg cap).exec ops = some m ∧ Inv cfg key m ∧
      Represents key (contents m.buckets) abs ∧
      ((machine cfg cap).emitted ops).map Prod.fst = ops ∧
      Run key ((machine cfg cap).emitted ops) abs := by
  induction ops using List.reverseRecOn with
  | nil =>
    refine ⟨new α cap, BpfMap.empty, rfl, inv_new cap, ?_, rfl, .nil⟩
    rw [contents_new]
    exact Represents.empty
  | append_singleton pre op ih =>
    obtain ⟨m, abs, hm, hinv, hr, hops, hrun⟩ := ih h.of_snoc
    obtain ⟨m', answer, abs', hstep, hinv', hr', hdoes⟩ := step_spec hk hinv hr (h.last hm)
    obtain ⟨hexec, hemitted⟩ := machine_snoc hm hstep
    refine ⟨m', abs', hexec, hinv', hr', ?_, ?_⟩
    · rw [hemitted, List.map_append, hops, List.map_singleton]
    · rw [hemitted]
      exact hrun.snoc hdoes

omit [Inhabited α] in
theorem Does.card_le {abs' : BpfMap κ α} {answer : Answer α} (h : Does key abs op answer abs') :
    abs'.keys.card ≤ abs.keys.card + 1 := by
  have hstore : ∀ k a, (abs.store k a).keys.card ≤ abs.keys.card + 1 := by
    intro k a
    rw [BpfMap.keys_store]
    exact Finset.card_insert_le _ _
  cases h with
  | set item alloc => exact hstore _ _
  | modify f h => exact hstore _ _
  | del a alloc =>
    rw [BpfMap.keys_delete]
    exact (Finset.card_erase_le).trans (Nat.le_succ _)
  | clear updateCap h => exact Nat.zero_le _
  | refused item => exact Nat.le_succ _
  | get a => exact Nat.le_succ _
  | missing f h => exact Nat.le_succ _
  | setGrowByPower power => exact Nat.le_succ _

omit [Inhabited α] in
theorem Run.card_le {log : List (Op α × Answer α)} (h : Run key log abs) :
    abs.keys.card ≤ log.length := by
  induction h with
  | nil => exact Nat.le_refl 0
  | snoc h hdoes ih =>
    rw [List.length_append, List.length_singleton]
    exact hdoes.card_le.trans (Nat.succ_le_succ ih)

/-- No key is written over. -/
def Op.KeepsKeys (key : α → κ) : Op α → Prop
  | .modify _ f => ∀ b, key (f b) = key b
  | _ => True

/-- A run of 65535 calls has room for all its items. -/
theorem roomy_of_few (hk : Keyed cfg key) (hcap : cap ≤ 2 ^ 32)
    (hops : ∀ op ∈ ops, op.KeepsKeys key) (hlen : ops.length ≤ 65535) :
    Roomy cfg key cap ops := by
  induction ops using List.reverseRecOn with
  | nil => exact ⟨hcap, throughout_nil⟩
  | append_singleton pre op ih =>
    rw [List.length_append, List.length_singleton] at hlen
    have hroomy := ih (fun x hx => hops x (List.mem_append_left _ hx)) (by omega)
    have hop := hops op (List.mem_append_right _ (List.mem_singleton_self op))
    refine ⟨hcap, hroomy.fits.snoc fun m hm => ?_⟩
    obtain ⟨m', abs, hm', hinv, hr, hlog, hrun⟩ := machine_run hk hroomy
    cases hm.symm.trans hm'
    cases op with
    | set item alloc =>
      intro _
      have hcard := hrun.card_le
      rw [← hlog, List.length_map] at hlen
      rw [hinv.count, ← hr.card_keys hinv.distinct]
      omega
    | modify a f => exact hop
    | get a => trivial
    | del a alloc => trivial
    | clear updateCap => trivial
    | setGrowByPower power => trivial

/-- While the items find room, every call of a run ends, and all answers are those of a finite map
from the keys to the items, which has what is in the buckets in the end. -/
theorem machine_refines (hk : Keyed cfg key) (h : Roomy cfg key cap ops) :
    ∃ m abs, (machine cfg cap).exec ops = some m ∧
      ((machine cfg cap).emitted ops).map Prod.fst = ops ∧
      Run key ((machine cfg cap).emitted ops) abs ∧ m.count = abs.keys.card ∧
      ∀ k a, abs.lookup k = some a ↔ a ∈ bucketItems m.buckets ∧ key a = k := by
  obtain ⟨m, abs, hm, hinv, hr, hops, hrun⟩ := machine_run hk h
  refine ⟨m, abs, hm, hops, hrun, ?_, fun k a => ?_⟩
  · rw [hinv.count, hr.card_keys hinv.distinct]
  · rw [← Multiset.mem_coe, coe_bucketItems]
    exact hr k a

section Words

/-- Words that are their own hash, and are not compared. -/
def words : Config UInt64 where
  seed0 := 0
  seed1 := 0
  hash a _ _ := a
  compare := none

theorem words_keyed : Keyed words clipHash := fun _ _ => ⟨And.left, fun h => ⟨h, rfl⟩⟩

def wordCalls : List (Op UInt64) := [.set 5 true, .set 21 true, .get 5, .del 5 true]

theorem wordCalls_roomy : Roomy words clipHash 0 wordCalls := by
  apply roomy_of_few words_keyed (by decide) _ (by decide)
  intro op hop
  simp only [wordCalls, List.mem_cons, List.not_mem_nil, or_false] at hop
  rcases hop with rfl | rfl | rfl | rfl <;> trivial

theorem machine_refines_words :
    ∃ m abs, (machine words 0).exec wordCalls = some m ∧
      ((machine words 0).emitted wordCalls).map Prod.fst = wordCalls ∧
      Run clipHash ((machine words 0).emitted wordCalls) abs ∧ m.count = abs.keys.card ∧
      ∀ k a, abs.lookup k = some a ↔ a ∈ bucketItems m.buckets ∧ clipHash a = k :=
  machine_refines words_keyed wordCalls_roomy

end Words

end CpuSubsystem.Hashmap
