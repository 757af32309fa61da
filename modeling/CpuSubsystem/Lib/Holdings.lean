import CpuSubsystem.Lib.Latest
import Mathlib.Tactic.Common

/-!
# What a program still holds

A log of resources that are acquired and released: a resource is held when the latest entry about it
is an acquisition.  Cleaning up releases the resources of a list that have a pointer to them.
-/

namespace CpuSubsystem

variable {ρ : Type*} [DecidableEq ρ]

inductive Hold (ρ : Type*) where
  | acquired (r : ρ)
  | released (r : ρ)
deriving DecidableEq, Repr

/-- What an entry says about a resource. -/
def Hold.about (r : ρ) : Hold ρ → Option Bool
  | .acquired r' => if r' = r then some true else none
  | .released r' => if r' = r then some false else none

def Held (log : List (Hold ρ)) (r : ρ) : Prop := latest (Hold.about r) log = some true

instance (log : List (Hold ρ)) (r : ρ) : Decidable (Held log r) :=
  inferInstanceAs (Decidable (_ = _))

variable {log : List (Hold ρ)} {r s : ρ}

@[simp] theorem not_held_nil : ¬ Held [] r := nofun

@[simp] theorem held_acquired : Held (log ++ [.acquired s]) r ↔ s = r ∨ Held log r := by
  unfold Held
  rw [latest_snoc]
  by_cases h : s = r <;> simp [Hold.about, h]

@[simp] theorem held_released : Held (log ++ [.released s]) r ↔ s ≠ r ∧ Held log r := by
  unfold Held
  rw [latest_snoc]
  by_cases h : s = r <;> simp [Hold.about, h]

/-- The resources of the list that have a pointer are released, in order. -/
def releaseAll (pointer : ρ → Bool) (rs : List ρ) (log : List (Hold ρ)) : List (Hold ρ) :=
  rs.foldl (fun log r => if pointer r then log ++ [.released r] else log) log

theorem held_releaseAll (pointer : ρ → Bool) (rs : List ρ) :
    Held (releaseAll pointer rs log) r ↔ Held log r ∧ ¬ (r ∈ rs ∧ pointer r = true) := by
  unfold releaseAll
  induction rs generalizing log with
  | nil => simp
  | cons s rs ih =>
    rw [List.foldl_cons, ih]
    by_cases hs : pointer s = true
    · rw [if_pos hs, held_released, List.mem_cons]
      constructor
      · rintro ⟨⟨hne, hheld⟩, hrest⟩
        refine ⟨hheld, ?_⟩
        rintro ⟨rfl | hmem, hptr⟩
        · exact hne rfl
        · exact hrest ⟨hmem, hptr⟩
      · rintro ⟨hheld, hnot⟩
        refine ⟨⟨?_, hheld⟩, fun hrest => hnot ⟨.inr hrest.1, hrest.2⟩⟩
        rintro rfl
        exact hnot ⟨.inl rfl, hs⟩
    · rw [if_neg hs, List.mem_cons]
      refine and_congr_right fun _ => not_congr ?_
      constructor
      · rintro ⟨hmem, hptr⟩
        exact ⟨.inr hmem, hptr⟩
      · rintro ⟨rfl | hmem, hptr⟩
        · exact absurd hptr hs
        · exact ⟨hmem, hptr⟩

end CpuSubsystem
