import CpuSubsystem.Lib.BpfMap
import Mathlib.Logic.Function.Basic

/-!
# Hash maps with one value for each CPU

`PercpuMap κ γ ν` is the value of a `BPF_MAP_TYPE_PERCPU_HASH` map.  An element belongs to all CPUs
at once, and a program sees and writes the value of its own CPU only.  A new element has the value 0
on the other CPUs.
-/

namespace CpuSubsystem

structure PercpuMap (κ γ ν : Type*) where
  table : BpfMap κ (γ → ν)

namespace PercpuMap

variable {κ γ ν : Type*} [DecidableEq κ]

def empty : PercpuMap κ γ ν := ⟨BpfMap.empty⟩

/-- The element under the key, whatever its values are. -/
def contains (m : PercpuMap κ γ ν) (k : κ) : Bool := (m.table.lookup k).isSome

/-- `bpf_map_lookup_elem` on a CPU. -/
def lookup (m : PercpuMap κ γ ν) (cpu : γ) (k : κ) : Option ν :=
  (m.table.lookup k).map fun values => values cpu

/-- `bpf_map_delete_elem`. -/
def delete (m : PercpuMap κ γ ν) (k : κ) : PercpuMap κ γ ν := ⟨m.table.delete k⟩

theorem lookup_of_not_contains {m : PercpuMap κ γ ν} {k : κ} (h : m.contains k = false)
    (cpu : γ) : m.lookup cpu k = none := by
  rw [lookup, Option.map_eq_none_iff]
  simpa [contains] using h

theorem delete_eq_self {m : PercpuMap κ γ ν} {k : κ} : m.delete k = m ↔ m.contains k = false := by
  cases m with
  | mk t =>
    rw [delete, mk.injEq, BpfMap.delete_eq_self, contains, Option.isSome_eq_false_iff,
      Option.isNone_iff_eq_none]

variable [DecidableEq γ] [Zero ν]

/-- `bpf_map_update_elem` with `BPF_ANY` on a CPU. -/
def update (m : PercpuMap κ γ ν) (room : Bool) (cpu : γ) (k : κ) (v : ν) : PercpuMap κ γ ν :=
  ⟨m.table.update room k (Function.update ((m.table.lookup k).getD fun _ => 0) cpu v)⟩

variable {m : PercpuMap κ γ ν} {k : κ} {room : Bool} {cpu : γ} {v : ν}

/-- An update leaves everything as it is when it is refused, or when the value is there already. -/
theorem update_eq_self :
    m.update room cpu k v = m ↔ m.table.accepts room k = false ∨ m.lookup cpu k = some v := by
  cases m with
  | mk t =>
    show (⟨_⟩ : PercpuMap κ γ ν) = ⟨t⟩ ↔ _
    rw [PercpuMap.mk.injEq]
    cases ha : t.accepts room k with
    | false => simp [BpfMap.update_of_not_accepts _ ha]
    | true =>
      rw [BpfMap.update_of_accepts _ ha, BpfMap.store_eq_self]
      show _ ↔ true = false ∨ (t.lookup k).map _ = some v
      cases t.lookup k with
      | none => simp
      | some values =>
        simp only [Option.getD_some, Option.some.injEq, Option.map_some, Bool.true_eq_false,
          false_or]
        constructor
        · intro h
          have hcpu := congrFun h cpu
          rw [Function.update_self] at hcpu
          exact hcpu
        · intro h
          rw [← h, Function.update_eq_self]

end PercpuMap

end CpuSubsystem
