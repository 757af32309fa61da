import CpuSubsystem.Lib.BpfMap
import Mathlib.Data.Multiset.MapFold
import Mathlib.Data.Multiset.UnionInter

/-!
# Items with keys

A collection of items with different keys is a finite map from the keys to the items.
-/

namespace CpuSubsystem

variable {α κ : Type*} {key : α → κ} {s : Multiset α} {a b : α} {k : κ}

def Distinct (key : α → κ) (s : Multiset α) : Prop := (s.map key).Nodup

theorem distinct_zero : Distinct key 0 := Multiset.nodup_zero

theorem distinct_cons : Distinct key (a ::ₘ s) ↔ (∀ b ∈ s, key a ≠ key b) ∧ Distinct key s := by
  rw [Distinct, Multiset.map_cons, Multiset.nodup_cons, Distinct, Multiset.mem_map]
  simp only [not_exists, not_and, ne_eq, eq_comm]

/-- The item of each key of the map is in the collection, and no others. -/
def Represents [DecidableEq κ] (key : α → κ) (s : Multiset α) (abs : BpfMap κ α) : Prop :=
  ∀ k a, abs.lookup k = some a ↔ a ∈ s ∧ key a = k

namespace Represents

variable [DecidableEq κ] {abs : BpfMap κ α}

theorem empty : Represents key 0 (BpfMap.empty : BpfMap κ α) := by
  intro k a
  rw [BpfMap.lookup_empty]
  simp

theorem lookup_of_mem (h : Represents key s abs) (ha : a ∈ s) : abs.lookup (key a) = some a :=
  (h _ a).mpr ⟨ha, rfl⟩

theorem lookup_of_absent (h : Represents key s abs) (ha : ∀ b ∈ s, k ≠ key b) :
    abs.lookup k = none := by
  rw [Option.eq_none_iff_forall_ne_some]
  intro b hb
  obtain ⟨hmem, hkey⟩ := (h k b).mp hb
  exact ha b hmem hkey.symm

theorem store (h : Represents key s abs) (ha : ∀ b ∈ s, key a ≠ key b) :
    Represents key (a ::ₘ s) (abs.store (key a) a) := by
  intro k b
  rw [BpfMap.lookup_store, Multiset.mem_cons]
  split
  · rename_i hk
    subst hk
    constructor
    · intro heq
      cases heq
      exact ⟨Or.inl rfl, rfl⟩
    · rintro ⟨rfl | hmem, hkey⟩
      · rfl
      · exact absurd hkey.symm (ha b hmem)
  · rename_i hk
    rw [h k b]
    constructor
    · rintro ⟨hmem, hkey⟩
      exact ⟨Or.inr hmem, hkey⟩
    · rintro ⟨rfl | hmem, hkey⟩
      · exact absurd hkey.symm hk
      · exact ⟨hmem, hkey⟩

theorem delete (h : Represents key (b ::ₘ s) abs) (hb : ∀ a ∈ s, key b ≠ key a) :
    Represents key s (abs.delete (key b)) := by
  intro k a
  rw [BpfMap.lookup_delete]
  split
  · rename_i hk
    subst hk
    constructor
    · intro heq
      cases heq
    · rintro ⟨hmem, hkey⟩
      exact absurd hkey.symm (hb a hmem)
  · rename_i hk
    rw [h k a, Multiset.mem_cons]
    constructor
    · rintro ⟨rfl | hmem, hkey⟩
      · exact absurd hkey.symm hk
      · exact ⟨hmem, hkey⟩
    · rintro ⟨hmem, hkey⟩
      exact ⟨Or.inr hmem, hkey⟩

/-- The new item comes in the place of the old one with the same key. -/
theorem replace (h : Represents key (b ::ₘ s) abs) (hb : ∀ a ∈ s, key b ≠ key a)
    (hkey : key a = key b) : Represents key (a ::ₘ s) (abs.store (key a) a) := by
  have hdel := (h.delete hb).store (a := a) (fun c hc => by rw [hkey]; exact hb c hc)
  intro k c
  rw [← hdel k c, BpfMap.lookup_store, BpfMap.lookup_store]
  split
  · rfl
  · rename_i hk
    rw [BpfMap.lookup_delete_of_ne _ (hkey ▸ hk)]

/-- There are as many keys as items. -/
theorem card_keys (h : Represents key s abs) (hd : Distinct key s) :
    abs.keys.card = s.card := by
  have hnodup : (s.map key).Nodup := hd
  have hkeys : abs.keys = ⟨s.map key, hnodup⟩ := by
    ext k
    rw [BpfMap.mem_keys, Option.isSome_iff_exists, Finset.mem_mk, Multiset.mem_map]
    exact exists_congr (h k)
  rw [hkeys, Finset.card_mk, Multiset.card_map]

end Represents

end CpuSubsystem
