import CpuSubsystem.Lib.BpfMap

/-!
# Maps with a number of places

A map with `n` places has room for a new key while it holds fewer than `n`.  When nothing is deleted
it keeps the first `n` distinct keys that are stored, and refuses all others for ever.
-/

namespace CpuSubsystem

variable {κ ν : Type*} [DecidableEq κ]

namespace BpfMap

variable (m : BpfMap κ ν) (k : κ) (v : ν)

theorem keys_store : (m.store k v).keys = insert k m.keys := by
  ext j
  rw [mem_keys, lookup_store, Finset.mem_insert, mem_keys]
  by_cases hj : j = k
  · simp [hj]
  · simp [hj]

theorem keys_delete : (m.delete k).keys = m.keys.erase k := by
  ext j
  rw [mem_keys, lookup_delete, Finset.mem_erase, mem_keys]
  by_cases hj : j = k
  · simp [hj]
  · simp [hj]

theorem keys_empty : (empty : BpfMap κ ν).keys = ∅ := by
  ext j
  rw [mem_keys, lookup_empty]
  simp

end BpfMap

/-- When `k` came first, fewer than `n` other keys had come. -/
def AmongFirst (n : Nat) (l : List κ) (k : κ) : Prop :=
  ∃ pre post, l = pre ++ k :: post ∧ k ∉ pre ∧ pre.toFinset.card < n

section AmongFirst

variable {n : Nat} {l : List κ} {j k : κ}

theorem AmongFirst.mem (h : AmongFirst n l k) : k ∈ l := by
  obtain ⟨pre, post, rfl, -, -⟩ := h
  simp

theorem amongFirst_snoc :
    AmongFirst n (l ++ [k]) j ↔ AmongFirst n l j ∨ j = k ∧ k ∉ l ∧ l.toFinset.card < n := by
  constructor
  · rintro ⟨pre, post, heq, hnot, hcard⟩
    rcases List.eq_nil_or_concat post with rfl | ⟨post, x, rfl⟩
    · obtain ⟨rfl, hkj⟩ := List.append_inj' heq rfl
      cases hkj
      exact Or.inr ⟨rfl, hnot, hcard⟩
    · rw [List.concat_eq_append, ← List.cons_append, ← List.append_assoc] at heq
      obtain ⟨rfl, -⟩ := List.append_inj' heq rfl
      exact Or.inl ⟨pre, post, rfl, hnot, hcard⟩
  · rintro (⟨pre, post, rfl, hnot, hcard⟩ | ⟨rfl, hnot, hcard⟩)
    · exact ⟨pre, post ++ [k], by simp, hnot, hcard⟩
    · exact ⟨l, [], rfl, hnot, hcard⟩

/-- As long as there were fewer than `n` keys, all of them are among the first `n`. -/
theorem amongFirst_of_card (hcard : l.toFinset.card < n) (h : k ∈ l) : AmongFirst n l k := by
  obtain ⟨pre, post, rfl, hnot⟩ := List.eq_append_cons_of_mem h
  refine ⟨pre, post, rfl, hnot, lt_of_le_of_lt ?_ hcard⟩
  apply Finset.card_le_card
  intro x hx
  rw [List.mem_toFinset] at hx ⊢
  exact List.mem_append_left _ hx

end AmongFirst

/-- The map holds the first `n` of the keys `l`. -/
structure HoldsFirst (n : Nat) (l : List κ) (m : BpfMap κ ν) : Prop where
  card : m.keys.card = min n l.toFinset.card
  mem : ∀ k, k ∈ m.keys ↔ AmongFirst n l k

section HoldsFirst

variable {n : Nat} {l : List κ} {m : BpfMap κ ν} {room : Bool} {k : κ} {v : ν}

theorem holdsFirst_empty : HoldsFirst n [] (BpfMap.empty : BpfMap κ ν) where
  card := by
    rw [BpfMap.keys_empty]
    simp
  mem k := by
    rw [BpfMap.keys_empty]
    constructor
    · intro h
      cases h
    · intro h
      cases h.mem

/-- An update with the room that there is. -/
theorem HoldsFirst.update (h : HoldsFirst n l m) (hroom : room = decide (m.keys.card < n)) :
    HoldsFirst n (l ++ [k]) (m.update room k v) := by
  have htoFinset : (l ++ [k]).toFinset = insert k l.toFinset := by
    rw [List.toFinset_append, List.toFinset_cons, List.toFinset_nil, insert_empty_eq,
      Finset.union_comm, Finset.singleton_union]
  by_cases hin : k ∈ m.keys
  -- the key is there already
  · have hmem : k ∈ l := ((h.mem k).mp hin).mem
    have hacc : m.accepts room k = true := by
      rw [BpfMap.accepts, BpfMap.mem_keys.mp hin, Bool.or_true]
    have hkeys : (m.update room k v).keys = m.keys := by
      rw [BpfMap.update_of_accepts v hacc, BpfMap.keys_store, Finset.insert_eq_self.mpr hin]
    refine ⟨?_, ?_⟩
    · rw [hkeys, htoFinset, Finset.insert_eq_self.mpr (List.mem_toFinset.mpr hmem)]
      exact h.card
    · intro j
      rw [hkeys, amongFirst_snoc, or_iff_left fun hj => hj.2.1 hmem]
      exact h.mem j
  · have hnone : (m.lookup k).isSome = false := by
      rw [← Bool.not_eq_true, ← BpfMap.mem_keys]
      exact hin
    have hacc : m.accepts room k = room := by
      rw [BpfMap.accepts, hnone, Bool.or_false]
    have hcard := h.card
    by_cases hlt : m.keys.card < n
    -- there is room, so all keys so far were kept
    · have hl : l.toFinset.card < n := by omega
      have hnot : k ∉ l := fun hk => hin ((h.mem k).mpr (amongFirst_of_card hl hk))
      have hkeys : (m.update room k v).keys = insert k m.keys := by
        rw [BpfMap.update_of_accepts v (hacc.trans (hroom.trans (decide_eq_true hlt))),
          BpfMap.keys_store]
      refine ⟨?_, ?_⟩
      · rw [hkeys, htoFinset, Finset.card_insert_of_notMem hin,
          Finset.card_insert_of_notMem (by rwa [List.mem_toFinset]), h.card]
        omega
      · intro j
        rw [hkeys, Finset.mem_insert, h.mem j, amongFirst_snoc, and_iff_left ⟨hnot, hl⟩]
        exact or_comm
    -- the map is full
    · have hl : ¬l.toFinset.card < n := by omega
      have hkeys : (m.update room k v).keys = m.keys := by
        rw [BpfMap.update_of_not_accepts v (hacc.trans (hroom.trans (decide_eq_false hlt)))]
      refine ⟨?_, ?_⟩
      · have hle := Finset.card_le_card (Finset.subset_insert k l.toFinset)
        rw [hkeys, htoFinset, h.card]
        omega
      · intro j
        rw [hkeys, amongFirst_snoc, or_iff_left fun hj => hl hj.2.2]
        exact h.mem j

end HoldsFirst

end CpuSubsystem
