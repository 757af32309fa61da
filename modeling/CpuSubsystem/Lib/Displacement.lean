import Mathlib.Data.Fintype.EquivFin
import Mathlib.Data.Nat.Find
import Mathlib.Logic.Function.Iterate
import Mathlib.Tactic.Common

/-!
# Displacements

In a table with open addressing `dib i` tells how far the slot `i` is from the slot where the search
for its element begins, counted from 1; it is 0 for a free slot.  Where the farther one of two
elements always has the slot, `dib` goes up by one at most from a slot to the next.
-/

namespace CpuSubsystem

namespace Displacement

variable {ι : Type*} {next : ι → ι} {dib : ι → Nat} {s i j : ι} {d m fuel : Nat}

def Smooth (next : ι → ι) (dib : ι → Nat) : Prop := ∀ i, dib (next i) ≤ dib i + 1

/-- A free slot comes within `fuel` slots from `i` on. -/
def FreeWithin (next : ι → ι) (dib : ι → Nat) (fuel : Nat) (i : ι) : Prop :=
  ∃ r < fuel, dib (next^[r] i) = 0

theorem smooth_free : Smooth next fun _ => 0 := fun _ => Nat.zero_le _

/-- Whoever searches from `s` and comes `m` slots far meets elements that are as far from home. -/
theorem Smooth.chain (h : Smooth next dib) (hm : m < dib (next^[m] s)) {k : Nat} (hk : k ≤ m) :
    k < dib (next^[k] s) := by
  induction hk using Nat.decreasingInduction with
  | of_succ k hk ih =>
    have hstep := h (next^[k] s)
    rw [Function.iterate_succ_apply'] at ih
    omega
  | self => exact hm

theorem Smooth.update [DecidableEq ι] (h : Smooth next dib)
    (hprev : ∀ i, next i = j → d ≤ dib i + 1) (hnext : dib (next j) ≤ d + 1) :
    Smooth next (Function.update dib j d) := by
  intro i
  by_cases hi : i = j
  · subst hi
    rw [Function.update_self]
    by_cases hn : next i = i
    · rw [hn, Function.update_self]
      exact Nat.le_succ d
    · rw [Function.update_of_ne hn]
      exact hnext
  · rw [Function.update_of_ne hi]
    by_cases hn : next i = j
    · rw [hn, Function.update_self]
      exact hprev i hn
    · rw [Function.update_of_ne hn]
      exact h i

theorem FreeWithin.zero_lt (h : FreeWithin next dib fuel i) : 0 < fuel := by
  obtain ⟨r, hr, -⟩ := h
  omega

theorem FreeWithin.mono {fuel' : Nat} (h : FreeWithin next dib fuel i) (hle : fuel ≤ fuel') :
    FreeWithin next dib fuel' i := by
  obtain ⟨r, hr, hfree⟩ := h
  exact ⟨r, by omega, hfree⟩

/-- A free slot that is not the first one is met from the second one on. -/
theorem FreeWithin.step (h : FreeWithin next dib (fuel + 1) i) (hi : dib i ≠ 0) :
    FreeWithin next dib fuel (next i) := by
  obtain ⟨r, hr, hfree⟩ := h
  cases r with
  | zero => exact absurd hfree hi
  | succ r => exact ⟨r, by omega, hfree⟩

theorem FreeWithin.congr {dib' : ι → Nat} (h : FreeWithin next dib fuel i)
    (hfree : ∀ j, dib j = 0 → dib' j = 0) : FreeWithin next dib' fuel i := by
  obtain ⟨r, hr, hj⟩ := h
  exact ⟨r, hr, hfree _ hj⟩

section Finite

variable [Fintype ι] (hcycle : ∀ i j : ι, ∃ d < Fintype.card ι, next^[d] i = j)
include hcycle

theorem freeWithin_of_free (hj : dib j = 0) (i : ι) :
    FreeWithin next dib (Fintype.card ι) i := by
  obtain ⟨r, hr, hij⟩ := hcycle i j
  exact ⟨r, hr, hij ▸ hj⟩

theorem next_injective : Function.Injective next := by
  apply Finite.injective_iff_surjective.mpr
  intro j
  obtain ⟨d, -, hd⟩ := hcycle (next j) j
  exact ⟨next^[d] j, by rw [← Function.iterate_succ_apply' next, Function.iterate_succ_apply, hd]⟩

/-- Within one round no slot is met twice. -/
theorem iterate_injOn (s : ι) {a b : Nat} (ha : a < Fintype.card ι) (hb : b < Fintype.card ι)
    (h : next^[a] s = next^[b] s) : a = b := by
  let walk : Fin (Fintype.card ι) → ι := fun d => next^[d.val] s
  have hsurj : Function.Surjective walk := fun j => by
    obtain ⟨d, hd, hj⟩ := hcycle s j
    exact ⟨⟨d, hd⟩, hj⟩
  have hinj : Function.Injective walk :=
    ((Fintype.bijective_iff_surjective_and_card walk).mpr ⟨hsurj, Fintype.card_fin _⟩).1
  have heq := @hinj ⟨a, ha⟩ ⟨b, hb⟩ h
  exact congrArg Fin.val heq

/-- A walk over slots that are not free has not gone round, and it has met as many elements. -/
theorem walk_le [DecidableEq ι] (hfree : dib j = 0) (hbusy : ∀ k < m, dib (next^[k] s) ≠ 0) :
    m < Fintype.card ι ∧ m ≤ (Finset.univ.filter fun i => dib i ≠ 0).card := by
  have hround : m < Fintype.card ι := by
    obtain ⟨r, hr, hrj⟩ := hcycle s j
    by_contra hm
    exact hbusy r (by omega) (hrj ▸ hfree)
  refine ⟨hround, ?_⟩
  have hinj : Set.InjOn (fun k => next^[k] s) (Finset.range m : Set Nat) := by
    intro a ha b hb hab
    rw [Finset.coe_range, Set.mem_Iio] at ha hb
    exact iterate_injOn hcycle s (by omega) (by omega) hab
  calc m = ((Finset.range m).image fun k => next^[k] s).card := by
        rw [Finset.card_image_of_injOn hinj, Finset.card_range]
    _ ≤ _ := Finset.card_le_card fun i hi => by
        obtain ⟨k, hk, rfl⟩ := Finset.mem_image.mp hi
        exact Finset.mem_filter.mpr ⟨Finset.mem_univ _, hbusy k (Finset.mem_range.mp hk)⟩

/-- A free slot comes behind as many slots as there are elements, at most. -/
theorem freeWithin_card [DecidableEq ι] (hj : dib j = 0) (i : ι) :
    FreeWithin next dib ((Finset.univ.filter fun i => dib i ≠ 0).card + 1) i := by
  have hfree : ∃ r, dib (next^[r] i) = 0 := by
    obtain ⟨r, -, hr⟩ := hcycle i j
    exact ⟨r, hr ▸ hj⟩
  have hbusy : ∀ k < Nat.find hfree, dib (next^[k] i) ≠ 0 := fun k hk => Nat.find_min hfree hk
  have hle := (walk_le hcycle hj hbusy).2
  exact ⟨Nat.find hfree, Nat.lt_succ_of_le hle, Nat.find_spec hfree⟩

end Finite

end Displacement

end CpuSubsystem
