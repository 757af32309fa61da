import CpuSubsystem.Lib.Displacement
import CpuSubsystem.ProcImage.Hashmap.Model
import Mathlib.Algebra.BigOperators.Fin
import Mathlib.Algebra.Order.BigOperators.Group.Multiset

/-!
# The table of the hash map

In a table that is `Placed` every item is as far from home as its `dib` says, and no item is farther
than the one before it by more than one bucket.  The loops keep this, and they end at a free bucket.
-/

namespace CpuSubsystem

def Bucket.used {α : Type*} (b : Bucket α) : Multiset α := if b.dib = 0 then 0 else {b.item}

namespace Hashmap

open Displacement

variable {α κ : Type*} {n : Nat}

/-! ## Buckets in a ring -/

section Ring

variable [NeZero n]

theorem masked_val (hpow : ∃ k, n = 2 ^ k) (i : Nat) : (masked n i).val = i % n := by
  obtain ⟨k, rfl⟩ := hpow
  exact Nat.and_two_pow_sub_one_eq_mod i k

theorem next_iterate (hpow : ∃ k, n = 2 ^ k) (i : Fin n) (d : Nat) :
    (next^[d] i).val = (i.val + d) % n := by
  induction d with
  | zero => exact (Nat.mod_eq_of_lt i.isLt).symm
  | succ d ih =>
    rw [Function.iterate_succ_apply', next, masked_val hpow, ih, Nat.mod_add_mod, Nat.add_assoc]

theorem next_cycle (hpow : ∃ k, n = 2 ^ k) (i j : Fin n) :
    ∃ d < Fintype.card (Fin n), next^[d] i = j := by
  refine ⟨(j.val + n - i.val) % n, ?_, Fin.ext ?_⟩
  · rw [Fintype.card_fin]
    exact Nat.mod_lt _ (Nat.pos_of_ne_zero (NeZero.ne n))
  · have hround : i.val + (j.val + n - i.val) = j.val + n := by omega
    rw [next_iterate hpow, Nat.add_mod_mod, hround, Nat.add_mod_right, Nat.mod_eq_of_lt j.isLt]

end Ring

/-! ## Contents -/

section Contents

variable {t : Vector (Bucket α) n} {i j : Fin n} {b : Bucket α}

@[simp] theorem get_set_self (t : Vector (Bucket α) n) (i : Fin n) (b : Bucket α) :
    (t.set i b i.isLt).get i = b :=
  Vector.getElem_set_self i.isLt

theorem get_set_of_ne (t : Vector (Bucket α) n) (b : Bucket α) (h : j ≠ i) :
    (t.set i b i.isLt).get j = t.get j :=
  Vector.getElem_set_ne i.isLt j.isLt fun heq => h (Fin.ext heq.symm)

/-- The displacements, 0 for a free bucket. -/
def dibs (t : Vector (Bucket α) n) (i : Fin n) : Nat := (t.get i).dib.toNat

theorem dibs_eq_zero : dibs t i = 0 ↔ (t.get i).dib = 0 := by
  rw [dibs, ← UInt16.toNat_zero, UInt16.toNat_inj]

theorem dibs_set (t : Vector (Bucket α) n) (i : Fin n) (b : Bucket α) :
    dibs (t.set i b i.isLt) = Function.update (dibs t) i b.dib.toNat := by
  funext j
  by_cases h : j = i
  · rw [h, Function.update_self, dibs, get_set_self]
  · rw [Function.update_of_ne h, dibs, get_set_of_ne t b h, dibs]

def contents (t : Vector (Bucket α) n) : Multiset α := ∑ i, (t.get i).used

/-- What is in the other buckets. -/
def others (t : Vector (Bucket α) n) (i : Fin n) : Multiset α :=
  ∑ j ∈ Finset.univ.erase i, (t.get j).used

theorem contents_eq (t : Vector (Bucket α) n) (i : Fin n) :
    contents t = (t.get i).used + others t i :=
  (Finset.add_sum_erase _ _ (Finset.mem_univ i)).symm

theorem others_set (t : Vector (Bucket α) n) (i : Fin n) (b : Bucket α) :
    others (t.set i b i.isLt) i = others t i :=
  Finset.sum_congr rfl fun _ hj => by rw [get_set_of_ne t b (Finset.ne_of_mem_erase hj)]

theorem contents_set (t : Vector (Bucket α) n) (i : Fin n) (b : Bucket α) :
    contents (t.set i b i.isLt) = b.used + others t i := by
  rw [contents_eq _ i, others_set, get_set_self]

theorem Bucket.used_free (h : b.dib = 0) : b.used = 0 := if_pos h

theorem Bucket.used_busy (h : b.dib ≠ 0) : b.used = {b.item} := if_neg h

theorem contents_busy (h : (t.get i).dib ≠ 0) :
    contents t = (t.get i).item ::ₘ others t i := by
  rw [contents_eq t i, Bucket.used_busy h, Multiset.singleton_add]

theorem contents_set_busy (h : b.dib ≠ 0) :
    contents (t.set i b i.isLt) = b.item ::ₘ others t i := by
  rw [contents_set, Bucket.used_busy h, Multiset.singleton_add]

theorem contents_free (h : (t.get i).dib = 0) : contents t = others t i := by
  rw [contents_eq t i, Bucket.used_free h, zero_add]

theorem mem_contents {a : α} : a ∈ contents t ↔ ∃ i, (t.get i).dib ≠ 0 ∧ (t.get i).item = a := by
  simp only [contents, Multiset.mem_sum, Finset.mem_univ, true_and]
  refine exists_congr fun i => ?_
  by_cases h : (t.get i).dib = 0
  · simp [Bucket.used_free h, h]
  · simp [Bucket.used_busy h, h, eq_comm]

theorem card_contents (t : Vector (Bucket α) n) :
    (contents t).card = (Finset.univ.filter fun i => dibs t i ≠ 0).card := by
  rw [contents, Multiset.card_sum, Finset.card_filter]
  refine Finset.sum_congr rfl fun i _ => ?_
  by_cases h : (t.get i).dib = 0
  · rw [Bucket.used_free h, if_neg (not_not.mpr (dibs_eq_zero.mpr h)), Multiset.card_zero]
  · rw [Bucket.used_busy h, if_pos (mt dibs_eq_zero.mp h), Multiset.card_singleton]

theorem toList_eq_map (t : Vector (Bucket α) n) : t.toList = (List.finRange n).map t.get := by
  apply List.ext_getElem
  · simp
  · intro k h₁ h₂
    simp [Vector.get]

theorem sum_used_toList (t : Vector (Bucket α) n) :
    (t.toList.map Bucket.used).sum = contents t := by
  rw [toList_eq_map, List.map_map, contents, Fin.sum_univ_def]
  rfl

/-- The items in the order of the buckets are the contents. -/
theorem coe_bucketItems (t : Vector (Bucket α) n) :
    ((bucketItems t : List α) : Multiset α) = contents t := by
  have hsum : ∀ l : List (Bucket α),
      ((l.filterMap Bucket.present : List α) : Multiset α) = (l.map Bucket.used).sum := by
    intro l
    induction l with
    | nil => rfl
    | cons b l ih =>
      rw [List.map_cons, List.sum_cons, ← ih]
      by_cases h : b.dib = 0
      · simp [Bucket.used_free h, Bucket.present, h]
      · simp [Bucket.used_busy h, Bucket.present, h]
  rw [bucketItems, hsum, sum_used_toList]

/-- A table with fewer items than buckets has a free one. -/
theorem exists_free (h : (contents t).card < n) : ∃ j, dibs t j = 0 := by
  by_contra hall
  push Not at hall
  have huniv : (Finset.univ.filter fun i => dibs t i ≠ 0) = Finset.univ :=
    Finset.filter_true_of_mem fun i _ => hall i
  rw [card_contents, huniv, Finset.card_univ, Fintype.card_fin] at h
  exact absurd h (Nat.lt_irrefl n)

end Contents

/-! ## Placed tables -/

section Placed

variable [NeZero n] {cfg : Config α}

/-- The hash of a bucket is that of its item. -/
def Hashed (cfg : Config α) (b : Bucket α) : Prop := b.hash = clipHash (cfg.hashOf b.item)

structure Placed (cfg : Config α) (t : Vector (Bucket α) n) : Prop where
  hash : ∀ i, (t.get i).dib ≠ 0 → Hashed cfg (t.get i)
  home : ∀ i, (t.get i).dib ≠ 0 → next^[dibs t i - 1] (masked n (t.get i).hash) = i
  smooth : Smooth next (dibs t)

/-- An entry that has come to the bucket `i`. -/
structure Incoming (cfg : Config α) (t : Vector (Bucket α) n) (e : Bucket α) (i : Fin n) :
    Prop where
  hash : Hashed cfg e
  busy : e.dib ≠ 0
  home : next^[e.dib.toNat - 1] (masked n e.hash) = i
  prev : ∀ j, next j = i → e.dib.toNat ≤ dibs t j + 1

variable {t : Vector (Bucket α) n} {e : Bucket α} {i j : Fin n} {fuel : Nat}

theorem placed_free (b : Bucket α) (h : b.dib = 0) : Placed cfg (Vector.replicate n b) where
  hash i hi := absurd (by simp [Vector.get, h]) hi
  home i hi := absurd (by simp [Vector.get, h]) hi
  smooth := by
    have hdibs : dibs (Vector.replicate n b) = fun _ => 0 := by
      funext i
      rw [dibs_eq_zero]
      simp [Vector.get, h]
    rw [hdibs]
    exact smooth_free

/-- An entry begins at the bucket of its hash. -/
theorem Incoming.start (h : Hashed cfg e) (hdib : e.dib = 1) :
    Incoming cfg t e (masked n e.hash) where
  hash := h
  busy := by rw [hdib]; decide
  home := by rw [hdib]; rfl
  prev _ _ := by rw [hdib]; exact Nat.le_add_left 1 _

/-- It takes the bucket of an item that is not as far from home, or a free one. -/
theorem Incoming.take (he : Incoming cfg t e i) (ht : Placed cfg t)
    (hle : dibs t i ≤ e.dib.toNat) : Placed cfg (t.set i e i.isLt) where
  hash j hj := by
    by_cases hji : j = i
    · rw [hji, get_set_self]
      exact he.hash
    · rw [get_set_of_ne t e hji] at hj ⊢
      exact ht.hash j hj
  home j hj := by
    by_cases hji : j = i
    · rw [hji, dibs_set, Function.update_self, get_set_self]
      exact he.home
    · rw [get_set_of_ne t e hji] at hj ⊢
      rw [dibs_set, Function.update_of_ne hji]
      exact ht.home j hj
  smooth := by
    rw [dibs_set]
    apply ht.smooth.update he.prev
    have hstep := ht.smooth i
    omega

theorem toNat_succ {d : UInt16} (h : d.toNat < 65535) : (d + 1).toNat = d.toNat + 1 := by
  rw [UInt16.toNat_add, UInt16.toNat_one]
  omega

theorem succ_ne_zero {d : UInt16} (h : d.toNat < 65535) : d + 1 ≠ 0 := by
  intro heq
  have hsucc := toNat_succ h
  rw [heq, UInt16.toNat_zero] at hsucc
  omega

theorem toNat_pos {d : UInt16} (h : d ≠ 0) : 0 < d.toNat := by
  apply Nat.pos_of_ne_zero
  rw [← UInt16.toNat_zero]
  exact mt UInt16.toNat_inj.mp h

/-- One bucket on. -/
theorem home_succ {d : UInt16} {h : Nat} (hd : d ≠ 0) (hlt : d.toNat < 65535)
    (hhome : next^[d.toNat - 1] (masked n h) = i) :
    next^[(d + 1).toNat - 1] (masked n h) = next i := by
  have hpos := toNat_pos hd
  have heq : (d + 1).toNat - 1 = d.toNat - 1 + 1 := by
    rw [toNat_succ hlt]
    omega
  rw [heq, Function.iterate_succ_apply', hhome]

variable (hpow : ∃ k, n = 2 ^ k)
include hpow

/-- The item whose bucket is taken goes on to the next one. -/
theorem Incoming.displaced (ht : Placed cfg t) (hbusy : (t.get i).dib ≠ 0)
    (hlt : (t.get i).dib < e.dib) (hroom : dibs t i < 65535) :
    Incoming cfg (t.set i e i.isLt) { t.get i with dib := (t.get i).dib + 1 } (next i) where
  hash := ht.hash i hbusy
  busy := succ_ne_zero hroom
  home := home_succ hbusy hroom (ht.home i hbusy)
  prev j hj := by
    rw [next_injective (next_cycle hpow) hj, dibs_set, Function.update_self, toNat_succ hroom]
    have hdib := UInt16.lt_iff_toNat_lt.mp hlt
    omega

theorem Incoming.pass (he : Incoming cfg t e i) (hlt : ¬ (t.get i).dib < e.dib)
    (hroom : dibs t i < 65535) : Incoming cfg t { e with dib := e.dib + 1 } (next i) := by
  have hle : e.dib.toNat ≤ dibs t i := Nat.not_lt.mp (mt UInt16.lt_iff_toNat_lt.mpr hlt)
  exact {
    hash := he.hash
    busy := succ_ne_zero (by omega)
    home := home_succ he.busy (by omega) he.home
    prev := fun j hj => by
      rw [next_injective (next_cycle hpow) hj, toNat_succ (by omega)]
      omega }

/-- No item is farther from home than there are items, nor has any gone round. -/
theorem Placed.dib_le (ht : Placed cfg t) (hfree : dibs t j = 0) (i : Fin n) :
    dibs t i ≤ (contents t).card ∧ dibs t i < n := by
  by_cases hi : dibs t i = 0
  · rw [hi]
    exact ⟨Nat.zero_le _, Nat.pos_of_ne_zero (NeZero.ne n)⟩
  · have hhome := ht.home i (mt dibs_eq_zero.mpr hi)
    have hfar : dibs t i - 1 < dibs t (next^[dibs t i - 1] (masked n (t.get i).hash)) := by
      rw [hhome]
      omega
    have hbusy : ∀ k < dibs t i, dibs t (next^[k] (masked n (t.get i).hash)) ≠ 0 := by
      intro k hk
      exact Nat.ne_of_gt (Nat.zero_lt_of_lt (ht.smooth.chain hfar (by omega)))
    obtain ⟨hround, hcard⟩ := walk_le (next_cycle hpow) hfree hbusy
    rw [Fintype.card_fin] at hround
    exact ⟨card_contents t ▸ hcard, hround⟩

/-- The loop of `resize0` finds a place. -/
theorem place_spec (ht : Placed cfg t) (he : Incoming cfg t e i)
    (hfuel : FreeWithin next (dibs t) fuel i) (hroom : (contents t).card < 65535) :
    ∃ t', place t e fuel i = some t' ∧ Placed cfg t' ∧ contents t' = e.item ::ₘ contents t := by
  induction fuel generalizing t e i with
  | zero => exact absurd hfuel.zero_lt (Nat.lt_irrefl 0)
  | succ fuel ih =>
    have hfree : ∃ j, dibs t j = 0 := hfuel.imp' _ fun r hr => hr.2
    obtain ⟨j, hj⟩ := hfree
    have hdib := (ht.dib_le hpow hj i).1
    unfold place
    by_cases hzero : (t.get i).dib = 0
    · have hle : dibs t i ≤ e.dib.toNat := by
        rw [dibs_eq_zero.mpr hzero]
        exact Nat.zero_le _
      refine ⟨t.set i e i.isLt, by simp only [hzero, if_true], he.take ht hle, ?_⟩
      rw [contents_set_busy he.busy, contents_free hzero]
    · have hnext := hfuel.step (mt dibs_eq_zero.mp hzero)
      by_cases hlt : (t.get i).dib < e.dib
      · have hle := Nat.le_of_lt (UInt16.lt_iff_toNat_lt.mp hlt)
        have hset : ∀ k, dibs t k = 0 → dibs (t.set i e i.isLt) k = 0 := by
          intro k hk
          have hki : k ≠ i := fun h => hzero (dibs_eq_zero.mp (h ▸ hk))
          rw [dibs_set, Function.update_of_ne hki, hk]
        have hcontents : (t.get i).item ::ₘ contents (t.set i e i.isLt) =
            e.item ::ₘ contents t := by
          rw [contents_set_busy he.busy, contents_busy hzero, Multiset.cons_swap]
        have hcard : (contents (t.set i e i.isLt)).card = (contents t).card := by
          have h := congrArg Multiset.card hcontents
          rw [Multiset.card_cons, Multiset.card_cons] at h
          omega
        obtain ⟨t', ht', hplaced, hitems⟩ := ih (he.take ht hle)
          (Incoming.displaced hpow ht hzero hlt (by omega)) (hnext.congr hset)
          (by rw [hcard]; exact hroom)
        exact ⟨t', by simp only [hzero, hlt, if_true, if_false, ht'], hplaced,
          hitems.trans hcontents⟩
      · obtain ⟨t', ht', hplaced, hitems⟩ := ih ht (he.pass hpow hlt (by omega)) hnext hroom
        exact ⟨t', by simp only [hzero, hlt, if_false, ht'], hplaced, hitems⟩

end Placed

end Hashmap

end CpuSubsystem
