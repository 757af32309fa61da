import Mathlib.Data.Fintype.Card
import Mathlib.Data.Nat.Find
import Mathlib.Logic.Function.Iterate
import Mathlib.Tactic.Common

/-!
# Tables with open addressing

A key is searched from its own slot on, slot by slot, until a slot is free or holds the key.
Nothing is ever removed. The order in which the slots are tried is any cycle through all of them.
-/

namespace CpuSubsystem

namespace Probing

variable {ι κ : Type*} (next : ι → ι) (start : κ → ι)

/-- Another key is in the slot, so that the search of `k` goes on. -/
def Busy (slots : ι → Option κ) (k : κ) (i : ι) : Prop := slots i ≠ none ∧ slots i ≠ some k

/-- The search of `k` comes to the slot `i`, past slots that hold other keys. -/
def Path (slots : ι → Option κ) (k : κ) (i : ι) : Prop :=
  ∃ d, next^[d] (start k) = i ∧ ∀ e < d, Busy slots k (next^[e] (start k))

/-- Every key that is stored is found by its search. -/
def Sound (slots : ι → Option κ) : Prop := ∀ i k, slots i = some k → Path next start slots k i

instance [DecidableEq κ] (slots : ι → Option κ) (k : κ) (i : ι) : Decidable (Busy slots k i) :=
  inferInstanceAs (Decidable (_ ∧ _))

/-- The slot where the search of `k` from `i` on ends, if it does so within `fuel` slots. -/
def search [DecidableEq κ] (slots : ι → Option κ) (k : κ) : Nat → ι → Option ι
  | 0, _ => none
  | fuel + 1, i => if Busy slots k i then search slots k fuel (next i) else some i

variable {next start} {slots : ι → Option κ} {k : κ} {i j : ι} {fuel : Nat}

theorem not_busy : ¬Busy slots k i ↔ slots i = none ∨ slots i = some k := by
  unfold Busy
  tauto

/-- A key is in one slot only: the search of the second one would have ended at the first. -/
theorem Sound.unique (hs : Sound next start slots) (hi : slots i = some k) (hj : slots j = some k) :
    i = j := by
  obtain ⟨d, hdi, hd⟩ := hs i k hi
  obtain ⟨e, hej, he⟩ := hs j k hj
  rcases Nat.lt_trichotomy d e with hlt | heq | hgt
  · exact absurd (he d hlt) (not_busy.mpr (Or.inr (hdi ▸ hi)))
  · rw [← hdi, ← hej, heq]
  · exact absurd (hd e hgt) (not_busy.mpr (Or.inr (hej ▸ hj)))

theorem sound_empty : Sound next start (fun _ => (none : Option κ)) := fun i k hi => by cases hi

/-- A key written into the free slot that its search came to. The other searches do not pass it. -/
theorem Sound.store [DecidableEq ι] (hs : Sound next start slots) (hfree : slots j = none)
    (hpath : Path next start slots k j) :
    Sound next start (Function.update slots j (some k)) := by
  have hpass : ∀ i k', Busy slots k' i → Busy (Function.update slots j (some k)) k' i := by
    intro i k' hi
    have hij : i ≠ j := fun h => hi.1 (h ▸ hfree)
    unfold Busy
    rw [Function.update_of_ne hij]
    exact hi
  intro i k' hi
  by_cases hij : i = j
  · rw [hij, Function.update_self] at hi
    cases hi
    obtain ⟨d, hd, hbusy⟩ := hpath
    exact ⟨d, hd.trans hij.symm, fun e he => hpass _ _ (hbusy e he)⟩
  · rw [Function.update_of_ne hij] at hi
    obtain ⟨d, hd, hbusy⟩ := hs i k' hi
    exact ⟨d, hd, fun e he => hpass _ _ (hbusy e he)⟩

/-- There is a free slot as long as there are fewer keys than slots. -/
theorem Sound.free_iff [Fintype ι] [DecidableEq ι] (hs : Sound next start slots) {keys : Finset κ}
    (hkeys : ∀ k, k ∈ keys ↔ ∃ i, slots i = some k) :
    (∃ i, slots i = none) ↔ keys.card < Fintype.card ι := by
  let used := Finset.univ.filter fun i => slots i ≠ none
  have hcard : used.card = keys.card := by
    refine Finset.card_bij (fun i hi => (slots i).get ?_) ?_ ?_ ?_
    · exact Option.isSome_iff_ne_none.mpr (Finset.mem_filter.mp hi).2
    · intro i hi
      exact (hkeys _).mpr ⟨i, (Option.some_get _).symm⟩
    · intro i hi j hj hij
      have hsi := (Option.some_get (Option.isSome_iff_ne_none.mpr (Finset.mem_filter.mp hi).2)).symm
      have hsj := (Option.some_get (Option.isSome_iff_ne_none.mpr (Finset.mem_filter.mp hj).2)).symm
      exact hs.unique hsi (hij ▸ hsj)
    · intro k hk
      obtain ⟨i, hi⟩ := (hkeys k).mp hk
      have hmem : i ∈ used := Finset.mem_filter.mpr ⟨Finset.mem_univ i, by simp [hi]⟩
      exact ⟨i, hmem, by simp [hi]⟩
  rw [← hcard, Finset.card_lt_iff_ne_univ]
  constructor
  · rintro ⟨i, hi⟩ huniv
    have hmem : i ∈ used := huniv ▸ Finset.mem_univ i
    exact (Finset.mem_filter.mp hmem).2 hi
  · intro hne
    by_contra hfull
    refine hne (Finset.eq_univ_of_forall fun i => ?_)
    exact Finset.mem_filter.mpr ⟨Finset.mem_univ i, fun hi => hfull ⟨i, hi⟩⟩

variable [DecidableEq κ]

theorem search_eq_some : search next slots k fuel i = some j ↔
    ∃ d < fuel, next^[d] i = j ∧ ¬Busy slots k j ∧ ∀ e < d, Busy slots k (next^[e] i) := by
  induction fuel generalizing i with
  | zero => simp [search]
  | succ fuel ih =>
    unfold search
    by_cases hi : Busy slots k i
    · rw [if_pos hi, ih]
      constructor
      · rintro ⟨d, hd, hj, hstop, hpath⟩
        refine ⟨d + 1, by omega, hj, hstop, ?_⟩
        intro e he
        cases e with
        | zero => exact hi
        | succ e => exact hpath e (by omega)
      · rintro ⟨d, hd, hj, hstop, hpath⟩
        cases d with
        | zero => exact absurd (hj ▸ hi) hstop
        | succ d => exact ⟨d, by omega, hj, hstop, fun e he => hpath (e + 1) (by omega)⟩
    · rw [if_neg hi]
      constructor
      · intro h
        cases h
        exact ⟨0, by omega, rfl, hi, fun e he => absurd he (Nat.not_lt_zero e)⟩
      · rintro ⟨d, hd, hj, hstop, hpath⟩
        cases d with
        | zero => exact congrArg some hj
        | succ d => exact absurd (hpath 0 (by omega)) hi

theorem search_none_of_busy (h : ∀ i, Busy slots k i) : search next slots k fuel i = none := by
  rw [Option.eq_none_iff_forall_ne_some]
  intro j hj
  obtain ⟨d, hd, hdj, hstop, hpath⟩ := search_eq_some.mp hj
  exact hstop (h j)

section Finite

variable [Fintype ι] (hcycle : ∀ i j : ι, ∃ d < Fintype.card ι, next^[d] i = j)
include hcycle

variable (start) in
/-- A search that can end somewhere ends within one round. -/
theorem search_stops (hi : ¬Busy slots k i) (hfuel : Fintype.card ι ≤ fuel) :
    ∃ j, search next slots k fuel (start k) = some j ∧ ¬Busy slots k j ∧
      Path next start slots k j := by
  have hstop : ∃ d, ¬Busy slots k (next^[d] (start k)) := by
    obtain ⟨d, -, hd⟩ := hcycle (start k) i
    exact ⟨d, hd ▸ hi⟩
  have hpath : ∀ e < Nat.find hstop, Busy slots k (next^[e] (start k)) := fun e he =>
    not_not.mp (Nat.find_min hstop he)
  have hround : Nat.find hstop < Fintype.card ι := by
    obtain ⟨d, hd, hdi⟩ := hcycle (start k) i
    exact lt_of_le_of_lt (Nat.find_min' hstop (hdi ▸ hi)) hd
  refine ⟨next^[Nat.find hstop] (start k), ?_, Nat.find_spec hstop, _, rfl, hpath⟩
  exact search_eq_some.mpr ⟨_, by omega, rfl, Nat.find_spec hstop, hpath⟩

/-- A stored key is found. -/
theorem Sound.search_found (hs : Sound next start slots) (hi : slots i = some k)
    (hfuel : Fintype.card ι ≤ fuel) : search next slots k fuel (start k) = some i := by
  obtain ⟨j, hj, hstop, d, hdj, hd⟩ :=
    search_stops start hcycle (not_busy.mpr (Or.inr hi)) hfuel
  obtain ⟨e, hei, he⟩ := hs i k hi
  -- neither search passes the slot where the other one ends
  rcases Nat.lt_trichotomy d e with hlt | heq | hgt
  · exact absurd (hdj ▸ he d hlt) hstop
  · rw [hj, ← hdj, ← hei, heq]
  · exact absurd (hd e hgt) (not_busy.mpr (Or.inr (hei ▸ hi)))

variable (start) in
/-- The search of a key that is not stored ends at a free slot, if there is one. -/
theorem search_missing (hk : ∀ i, slots i ≠ some k) (hfree : slots i = none)
    (hfuel : Fintype.card ι ≤ fuel) :
    ∃ j, search next slots k fuel (start k) = some j ∧ slots j = none ∧
      Path next start slots k j := by
  obtain ⟨j, hj, hstop, hpath⟩ :=
    search_stops start hcycle (not_busy.mpr (Or.inl hfree)) hfuel
  exact ⟨j, hj, (not_busy.mp hstop).resolve_right (hk j), hpath⟩

end Finite

end Probing

end CpuSubsystem
