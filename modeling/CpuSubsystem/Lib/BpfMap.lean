import Mathlib.Data.Finmap

/-!
# Hash maps of the kernel

`BpfMap κ ν` is the value of a `BPF_MAP_TYPE_HASH` map.  Existing elements are reached through the
pointer that a lookup returns, so writing to one always succeeds; inserting a *new* key can fail
(the map is full, or no memory is left).  Whether there is room at that moment is an input of
`update`, so that a proof covers every pattern of failures.
-/

namespace CpuSubsystem

/-- A finite map with the operations of the `bpf_map_*_elem` helpers. -/
structure BpfMap (κ ν : Type*) where
  table : Finmap fun _ : κ => ν

namespace BpfMap

variable {κ ν : Type*} [DecidableEq κ]

instance [DecidableEq ν] : DecidableEq (BpfMap κ ν) := fun a b =>
  decidable_of_iff (a.table = b.table) ⟨fun h => by cases a; cases b; simp_all, congrArg _⟩

def empty : BpfMap κ ν := ⟨∅⟩

/-- `bpf_map_lookup_elem`. -/
def lookup (m : BpfMap κ ν) (k : κ) : Option ν := m.table.lookup k

/-- Writing through the pointer to an element, or a successful `bpf_map_update_elem`. -/
def store (m : BpfMap κ ν) (k : κ) (v : ν) : BpfMap κ ν := ⟨m.table.insert k v⟩

/-- Whether `bpf_map_update_elem` returns 0 when there is (or is not) room for a new key. -/
def accepts (m : BpfMap κ ν) (room : Bool) (k : κ) : Bool := room || (m.lookup k).isSome

/-- `bpf_map_update_elem` with `BPF_ANY`. -/
def update (m : BpfMap κ ν) (room : Bool) (k : κ) (v : ν) : BpfMap κ ν :=
  if m.accepts room k then m.store k v else m

/-- `bpf_map_delete_elem`. -/
def delete (m : BpfMap κ ν) (k : κ) : BpfMap κ ν := ⟨m.table.erase k⟩

/-- The keys of the elements. -/
def keys (m : BpfMap κ ν) : Finset κ := m.table.keys

theorem mem_keys {m : BpfMap κ ν} {k : κ} : k ∈ m.keys ↔ (m.lookup k).isSome = true := by
  rw [keys, Finmap.mem_keys, lookup, Finmap.lookup_isSome]

theorem keys_eq_empty {m : BpfMap κ ν} (h : ∀ k, m.lookup k = none) : m.keys = ∅ := by
  apply Finset.eq_empty_of_forall_notMem
  intro k hk
  rw [mem_keys, h k] at hk
  cases hk

@[simp] theorem lookup_empty (k : κ) : (empty : BpfMap κ ν).lookup k = none :=
  Finmap.lookup_empty k

theorem lookup_store (m : BpfMap κ ν) (k k' : κ) (v : ν) :
    (m.store k v).lookup k' = if k' = k then some v else m.lookup k' := by
  unfold lookup store
  by_cases h : k' = k
  · rw [if_pos h, h, Finmap.lookup_insert]
  · rw [if_neg h, Finmap.lookup_insert_of_ne _ h]

@[simp] theorem lookup_store_self (m : BpfMap κ ν) (k : κ) (v : ν) :
    (m.store k v).lookup k = some v := by
  rw [lookup_store, if_pos rfl]

theorem lookup_store_of_ne (m : BpfMap κ ν) {k k' : κ} (v : ν) (h : k' ≠ k) :
    (m.store k v).lookup k' = m.lookup k' := by
  rw [lookup_store, if_neg h]

theorem isSome_lookup_store {m : BpfMap κ ν} {k' : κ} (h : (m.lookup k').isSome = true) (k : κ)
    (v : ν) : ((m.store k v).lookup k').isSome = true := by
  rw [lookup_store]
  split
  · rfl
  · exact h

theorem lookup_delete (m : BpfMap κ ν) (k k' : κ) :
    (m.delete k).lookup k' = if k' = k then none else m.lookup k' := by
  unfold lookup delete
  by_cases h : k' = k
  · rw [if_pos h, h, Finmap.lookup_erase]
  · rw [if_neg h, Finmap.lookup_erase_ne h]

@[simp] theorem lookup_delete_self (m : BpfMap κ ν) (k : κ) : (m.delete k).lookup k = none := by
  rw [lookup_delete, if_pos rfl]

theorem lookup_delete_of_ne (m : BpfMap κ ν) {k k' : κ} (h : k' ≠ k) :
    (m.delete k).lookup k' = m.lookup k' := by
  rw [lookup_delete, if_neg h]

theorem delete_of_absent {m : BpfMap κ ν} {k : κ} (h : m.lookup k = none) : m.delete k = m := by
  have htable : m.table.erase k = m.table := by
    apply Finmap.ext_lookup
    intro k'
    by_cases hk : k' = k
    · rw [hk, Finmap.lookup_erase]
      exact h.symm
    · exact Finmap.lookup_erase_ne hk
  exact congrArg _ htable

/-- Storing changes the map unless the value is there already. -/
theorem store_eq_self {m : BpfMap κ ν} {k : κ} {v : ν} :
    m.store k v = m ↔ m.lookup k = some v := by
  constructor
  · intro h
    rw [← h]
    exact lookup_store_self m k v
  · intro h
    have htable : m.table.insert k v = m.table := by
      apply Finmap.ext_lookup
      intro k'
      by_cases hk : k' = k
      · rw [hk, Finmap.lookup_insert]
        exact h.symm
      · exact Finmap.lookup_insert_of_ne _ hk
    exact congrArg _ htable

@[simp] theorem accepts_true (m : BpfMap κ ν) (k : κ) : m.accepts true k = true := by
  simp only [accepts, Bool.true_or]

theorem update_of_accepts {m : BpfMap κ ν} {room : Bool} {k : κ} (v : ν)
    (h : m.accepts room k = true) : m.update room k v = m.store k v := by
  rw [update, if_pos h]

theorem update_of_not_accepts {m : BpfMap κ ν} {room : Bool} {k : κ} (v : ν)
    (h : m.accepts room k = false) : m.update room k v = m := by
  rw [update, h, if_neg Bool.false_ne_true]

@[simp] theorem update_true (m : BpfMap κ ν) (k : κ) (v : ν) :
    m.update true k v = m.store k v :=
  update_of_accepts v (accepts_true m k)

theorem lookup_update_of_ne (m : BpfMap κ ν) {k k' : κ} (room : Bool) (v : ν) (h : k' ≠ k) :
    (m.update room k v).lookup k' = m.lookup k' := by
  unfold update
  split
  · exact lookup_store_of_ne m v h
  · rfl

/-- A refused update leaves the key absent: it was absent already. -/
theorem lookup_of_not_accepts {m : BpfMap κ ν} {room : Bool} {k : κ}
    (h : m.accepts room k = false) : m.lookup k = none := by
  simp only [accepts, Bool.or_eq_false_iff, Option.isSome_eq_false_iff,
    Option.isNone_iff_eq_none] at h
  exact h.2

/-- What is under the key after an update: the new value, or nothing when it was refused. -/
theorem lookup_update_self (m : BpfMap κ ν) (room : Bool) (k : κ) (v : ν) :
    (m.update room k v).lookup k = if m.accepts room k then some v else none := by
  cases h : m.accepts room k with
  | true => rw [update_of_accepts v h, lookup_store_self, if_pos rfl]
  | false =>
    rw [update_of_not_accepts v h, lookup_of_not_accepts h, if_neg Bool.false_ne_true]

/-- An update leaves everything as it is when it is refused, or when the value is there already. -/
theorem update_eq_self {m : BpfMap κ ν} {room : Bool} {k : κ} {v : ν} :
    m.update room k v = m ↔ m.accepts room k = false ∨ m.lookup k = some v := by
  cases h : m.accepts room k with
  | true => simp [update_of_accepts v h, store_eq_self]
  | false => simp [update_of_not_accepts v h]

/-- What holds of every value of a map holds after a value of which it holds is stored. -/
theorem forall_store {P : ν → Prop} {m : BpfMap κ ν} (h : ∀ k v, m.lookup k = some v → P v)
    (k : κ) {v : ν} (hv : P v) : ∀ k' v', (m.store k v).lookup k' = some v' → P v' := by
  intro k' v' hl
  rw [lookup_store] at hl
  split at hl
  · cases hl
    exact hv
  · exact h k' v' hl

/-- And it holds after a deletion. -/
theorem forall_delete {P : ν → Prop} {m : BpfMap κ ν} (h : ∀ k v, m.lookup k = some v → P v)
    (k : κ) : ∀ k' v', (m.delete k).lookup k' = some v' → P v' := by
  intro k' v' hl
  rw [lookup_delete] at hl
  split at hl
  · cases hl
  · exact h k' v' hl

theorem delete_eq_self {m : BpfMap κ ν} {k : κ} : m.delete k = m ↔ m.lookup k = none := by
  constructor
  · intro h
    rw [← h]
    exact lookup_delete_self m k
  · exact delete_of_absent

end BpfMap

end CpuSubsystem
