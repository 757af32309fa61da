import CpuSubsystem.ProcImage.Hashmap.Refinement

/-!
# Visiting the items of the hash map

`hashmap_scan` and a loop around `hashmap_iter` meet the items in the order of the buckets.  What is
handed to the map is handed back once, or is still there.
-/

namespace CpuSubsystem.Hashmap

open Displacement

variable {α κ σ : Type*} {cfg : Config α} {key : α → κ} {m : Hashmap α}

/-! ## `hashmap_scan` -/

/-- The items that a visitor was given, before it refused one or until there were no more. -/
inductive Visited (iter : σ → α → σ × Bool) : σ → List α → List α → σ × Bool → Prop where
  | all (udata : σ) : Visited iter udata [] [] (udata, true)
  | next {udata : σ} {a : α} {items seen : List α} {r : σ × Bool} (hgo : (iter udata a).2 = true)
      (h : Visited iter (iter udata a).1 items seen r) :
      Visited iter udata (a :: items) (a :: seen) r
  | refused {udata : σ} {a : α} (items : List α) (hgo : (iter udata a).2 = false) :
      Visited iter udata (a :: items) [a] ((iter udata a).1, false)

theorem scanFrom_visits (iter : σ → α → σ × Bool) (udata : σ) (l : List (Bucket α)) :
    ∃ seen, Visited iter udata (l.filterMap Bucket.present) seen (scanFrom iter udata l) := by
  induction l generalizing udata with
  | nil => exact ⟨[], .all udata⟩
  | cons b l ih =>
    unfold scanFrom
    by_cases h : b.dib = 0
    · simp only [h, if_true, List.filterMap_cons, Bucket.present]
      exact ih udata
    · simp only [h, if_false, List.filterMap_cons, Bucket.present]
      cases hgo : (iter udata b.item).2 with
      | true =>
        obtain ⟨seen, hseen⟩ := ih (iter udata b.item).1
        have hpair : iter udata b.item = ((iter udata b.item).1, true) := Prod.ext rfl hgo
        rw [hpair]
        exact ⟨b.item :: seen, .next hgo hseen⟩
      | false =>
        have hpair : iter udata b.item = ((iter udata b.item).1, false) := Prod.ext rfl hgo
        rw [hpair]
        exact ⟨[b.item], .refused _ hgo⟩

/-! ## `hashmap_iter` -/

/-- `while (hashmap_iter(map, &i, &item))`: what the loop gets, in `fuel` rounds at most. -/
def iterated (m : Hashmap α) : Nat → Nat → List α
  | 0, _ => []
  | fuel + 1, i =>
    match m.iter i with
    | none => []
    | some (item, i) => item :: m.iterated fuel i

/-- The next item is the first one that is in use from the cursor on. -/
theorem iter_spec (m : Hashmap α) (i : Nat) :
    match m.iter i with
    | none => (m.buckets.toList.drop i).filterMap Bucket.present = []
    | some (item, j) => i < j ∧ (m.buckets.toList.drop i).filterMap Bucket.present =
        item :: (m.buckets.toList.drop j).filterMap Bucket.present := by
  fun_induction m.iter i with
  | case1 i hi bucket hzero ih =>
    have hlen : i < m.buckets.toList.length := by rwa [Vector.length_toList]
    have hget : m.buckets.toList[i] = bucket := Vector.getElem_toList _
    rw [List.drop_eq_getElem_cons hlen, hget, List.filterMap_cons, Bucket.present, if_pos hzero]
    split at ih
    · exact ih
    · exact ⟨by omega, ih.2⟩
  | case2 i hi bucket hbusy =>
    have hlen : i < m.buckets.toList.length := by rwa [Vector.length_toList]
    have hget : m.buckets.toList[i] = bucket := Vector.getElem_toList _
    refine ⟨by omega, ?_⟩
    rw [List.drop_eq_getElem_cons hlen, hget, List.filterMap_cons, Bucket.present, if_neg hbusy]
  | case3 i hi =>
    rw [List.drop_eq_nil_of_le (by rw [Vector.length_toList]; omega)]
    rfl

theorem iterated_eq (m : Hashmap α) {fuel i : Nat} (h : m.nbuckets < fuel + i) :
    m.iterated fuel i = (m.buckets.toList.drop i).filterMap Bucket.present := by
  induction fuel generalizing i with
  | zero =>
    rw [List.drop_eq_nil_of_le (by rw [Vector.length_toList]; omega)]
    rfl
  | succ fuel ih =>
    have hspec := m.iter_spec i
    unfold iterated
    split at hspec
    · exact hspec.symm
    · rw [hspec.2, ih (by omega)]

/-! ## Items of a run -/

section Run

variable [Inhabited α] [DecidableEq κ] {cap : Nat} {ops : List (Op α)}

/-- In every state of a run both ways to visit the items meet each item of the finite map once, and
nothing else. -/
theorem visits_once (hk : Keyed cfg key) (h : Roomy cfg key cap ops) :
    ∃ m abs, (machine cfg cap).exec ops = some m ∧
      Run key ((machine cfg cap).emitted ops) abs ∧
      (∀ k a, abs.lookup k = some a ↔ a ∈ m.iterated (m.nbuckets + 1) 0 ∧ key a = k) ∧
      ((m.iterated (m.nbuckets + 1) 0).map key).Nodup ∧
      ∀ (iter : σ → α → σ × Bool) (udata : σ), ∃ seen,
        Visited iter udata (m.iterated (m.nbuckets + 1) 0) seen (m.scan iter udata) := by
  obtain ⟨m, abs, hm, hinv, hr, hops, hrun⟩ := machine_run hk h
  have hitems : m.iterated (m.nbuckets + 1) 0 = bucketItems m.buckets :=
    m.iterated_eq (by omega)
  refine ⟨m, abs, hm, hrun, fun k a => ?_, ?_, fun iter udata => ?_⟩
  · rw [hitems, ← Multiset.mem_coe, coe_bucketItems]
    exact hr k a
  · rw [hitems, ← Multiset.coe_nodup, ← Multiset.map_coe, coe_bucketItems]
    exact hinv.distinct
  · rw [hitems]
    exact scanFrom_visits iter udata m.buckets.toList

theorem visits_once_words :
    ∃ m abs, (machine words 0).exec wordCalls = some m ∧
      Run clipHash ((machine words 0).emitted wordCalls) abs ∧
      (∀ k a, abs.lookup k = some a ↔ a ∈ m.iterated (m.nbuckets + 1) 0 ∧ clipHash a = k) ∧
      ((m.iterated (m.nbuckets + 1) 0).map clipHash).Nodup ∧
      ∀ (iter : Nat → UInt64 → Nat × Bool) (udata : Nat), ∃ seen,
        Visited iter udata (m.iterated (m.nbuckets + 1) 0) seen (m.scan iter udata) :=
  visits_once words_keyed wordCalls_roomy

/-! ## Items that go in and out -/

/-- What a call hands to the map, unless it is refused. -/
def given : Op α × Answer α → Multiset α
  | (.set item _, .replaced _ false) => {item}
  | _ => 0

/-- What the map hands back for good. -/
def returned : Op α × Answer α → Multiset α
  | (_, .replaced (some old) _) => {old}
  | (_, .deleted (some old)) => {old}
  | (_, .freed items) => items
  | _ => 0

def Op.modifies : Op α → Bool
  | .modify .. => true
  | _ => false

omit [DecidableEq κ] in
/-- One call loses no item and makes none. -/
theorem step_ledger (hk : Keyed cfg key) (h : Inv cfg key m) {op : Op α} (hfits : op.Fits key m)
    (hop : op.modifies = false) {m' : Hashmap α} {answer : Answer α}
    (hstep : m.step cfg op = some (m', answer)) :
    contents m.buckets + given (op, answer) = contents m'.buckets + returned (op, answer) := by
  cases op with
  | set a alloc =>
    obtain ⟨m₁, old, hm₁, -, hsets, -⟩ := set_spec hk h hfits alloc
    rw [step, hm₁] at hstep
    cases hstep
    generalize m'.oom = oom at hsets ⊢
    cases hsets with
    | fresh hs hkey =>
      show contents m.buckets + {a} = contents m'.buckets + 0
      rw [hs, add_zero, add_comm, Multiset.singleton_add]
    | @replaced b r hs hs' hkey =>
      show contents m.buckets + {a} = contents m'.buckets + {b}
      rw [hs, hs', add_comm, Multiset.singleton_add, add_comm, Multiset.singleton_add,
        Multiset.cons_swap]
    | refused hs =>
      rw [hs]
      rfl
  | get a =>
    obtain ⟨r, hm₁, -⟩ := get_spec hk h a
    rw [step, hm₁] at hstep
    cases hstep
    rfl
  | modify a f => cases hop
  | del a alloc =>
    obtain ⟨m₁, old, hm₁, -, hdel⟩ := del_spec hk h a alloc
    rw [step, hm₁] at hstep
    cases hstep
    cases hdel with
    | @found b hs hkey =>
      show contents m.buckets + 0 = contents m'.buckets + {b}
      rw [hs, add_zero, add_comm, Multiset.singleton_add]
    | missing hs hkey =>
      rw [hs]
      rfl
  | clear updateCap =>
    cases hstep
    show contents m.buckets + 0 = contents (m.clear updateCap).buckets + m.freeElements
    rw [Hashmap.clear, contents_replicate _ _ rfl, freeElements, coe_bucketItems, add_comm]
  | setGrowByPower power =>
    cases hstep
    rfl

/-- What was handed to the map in a run was handed back once, or is still there, as long as nothing
is written through a pointer. -/
theorem ledger (hk : Keyed cfg key) (h : Roomy cfg key cap ops)
    (hops : ∀ op ∈ ops, op.modifies = false) :
    ∃ m, (machine cfg cap).exec ops = some m ∧
      (((machine cfg cap).emitted ops).map given).sum =
        (((machine cfg cap).emitted ops).map returned).sum +
          (bucketItems m.buckets : Multiset α) := by
  induction ops using List.reverseRecOn with
  | nil =>
    refine ⟨new α cap, rfl, ?_⟩
    rw [coe_bucketItems, contents_new]
    rfl
  | append_singleton pre op ih =>
    obtain ⟨m, hm, hsum⟩ := ih h.of_snoc fun x hx => hops x (List.mem_append_left _ hx)
    obtain ⟨m', abs, hm', hinv, hr, -, -⟩ := machine_run hk h.of_snoc
    cases hm.symm.trans hm'
    obtain ⟨m', answer, -, hstep, -, -, -⟩ := step_spec hk hinv hr (h.last hm)
    have hop := hops op (List.mem_append_right _ (List.mem_singleton_self op))
    have hledger := step_ledger hk hinv (h.last hm) hop hstep
    obtain ⟨hexec, hemitted⟩ := machine_snoc hm hstep
    refine ⟨m', hexec, ?_⟩
    rw [coe_bucketItems] at hsum ⊢
    rw [hemitted, List.map_append, List.map_append, List.sum_append, List.sum_append, hsum,
      List.map_singleton, List.map_singleton, List.sum_singleton, List.sum_singleton, add_assoc,
      hledger, add_assoc, add_comm (contents m'.buckets)]

theorem ledger_words :
    ∃ m, (machine words 0).exec wordCalls = some m ∧
      (((machine words 0).emitted wordCalls).map given).sum =
        (((machine words 0).emitted wordCalls).map returned).sum +
          (bucketItems m.buckets : Multiset UInt64) :=
  ledger words_keyed wordCalls_roomy (by decide)

end Run

end CpuSubsystem.Hashmap
