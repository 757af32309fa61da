import Mathlib.Logic.Function.Basic

/-!
# Arrays of the kernel

`BpfArray n ν` is the value of a `BPF_MAP_TYPE_ARRAY` map of `n` elements.  All elements are there
from the beginning; an index beyond the end is not found, and an update under it fails.
-/

namespace CpuSubsystem

structure BpfArray (n : Nat) (ν : Type*) where
  cells : Fin n → ν

namespace BpfArray

variable {n : Nat} {ν : Type*}

/-- The elements of a new array have all bytes zero. -/
def replicate (v : ν) : BpfArray n ν := ⟨fun _ => v⟩

/-- `bpf_map_lookup_elem`. -/
def lookup (a : BpfArray n ν) (k : Nat) : Option ν :=
  if h : k < n then some (a.cells ⟨k, h⟩) else none

/-- `bpf_map_update_elem`. -/
def update (a : BpfArray n ν) (k : Nat) (v : ν) : BpfArray n ν :=
  if h : k < n then ⟨Function.update a.cells ⟨k, h⟩ v⟩ else a

theorem lookup_replicate {k : Nat} (v : ν) (h : k < n) :
    (replicate v : BpfArray n ν).lookup k = some v := by
  rw [lookup, dif_pos h]
  rfl

theorem exists_lookup (a : BpfArray n ν) {k : Nat} (h : k < n) : ∃ v, a.lookup k = some v := by
  rw [lookup, dif_pos h]
  exact ⟨_, rfl⟩

/-- Nothing is found beyond the end. -/
theorem lookup_of_le (a : BpfArray n ν) {k : Nat} (h : n ≤ k) : a.lookup k = none := by
  rw [lookup, dif_neg (by omega)]

theorem lookup_update_self (a : BpfArray n ν) {k : Nat} (v : ν) (h : k < n) :
    (a.update k v).lookup k = some v := by
  rw [lookup, dif_pos h, update, dif_pos h]
  exact congrArg some (Function.update_self _ _ _)

theorem lookup_update_of_ne (a : BpfArray n ν) {k k' : Nat} (v : ν) (h : k' ≠ k) :
    (a.update k v).lookup k' = a.lookup k' := by
  unfold lookup update
  by_cases hk : k < n
  · rw [dif_pos hk]
    by_cases hk' : k' < n
    · have hne : (⟨k', hk'⟩ : Fin n) ≠ ⟨k, hk⟩ := fun heq => h (congrArg Fin.val heq)
      rw [dif_pos hk', dif_pos hk']
      exact congrArg some (Function.update_of_ne hne _ _)
    · rw [dif_neg hk', dif_neg hk']
  · rw [dif_neg hk]

/-- An update leaves everything as it is beyond the end, or when the value is there already. -/
theorem update_eq_self {a : BpfArray n ν} {k : Nat} {v : ν} :
    a.update k v = a ↔ ∀ old, a.lookup k = some old → old = v := by
  unfold update lookup
  by_cases h : k < n
  · simp only [dif_pos h, Option.some.injEq, forall_eq']
    constructor
    · intro heq
      have hcell := congrFun (congrArg BpfArray.cells heq) ⟨k, h⟩
      exact hcell.symm.trans (Function.update_self _ _ _)
    · intro heq
      rw [← heq, Function.update_eq_self]
  · simp [h]

end BpfArray

end CpuSubsystem
