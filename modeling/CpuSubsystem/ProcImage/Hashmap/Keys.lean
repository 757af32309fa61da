import CpuSubsystem.Lib.Keyed
import CpuSubsystem.ProcImage.Hashmap.Table

/-!
# Keys in the table of the hash map

The hash and the comparison tell the items apart by a key.  As long as there is a free bucket, the
loops that look for a key find its item wherever the table has it.
-/

namespace CpuSubsystem.Hashmap

open Displacement

variable {α κ : Type*} {cfg : Config α} {key : α → κ} {n : Nat} {t : Vector (Bucket α) n}
  {i j p : Fin n} {e : Bucket α} {a : α} {fuel m : Nat}

/-- Two items with equal hashes that compare as equal are those with the same key. -/
def Keyed (cfg : Config α) (key : α → κ) : Prop :=
  ∀ a b, clipHash (cfg.hashOf a) = clipHash (cfg.hashOf b) ∧ cfg.equal a b = true ↔ key a = key b

theorem Keyed.found (hk : Keyed cfg key) (h : Hashed cfg e) (a : α) :
    e.hash = clipHash (cfg.hashOf a) ∧ cfg.equal a e.item = true ↔ key a = key e.item := by
  rw [← hk a e.item, h, eq_comm]

theorem Keyed.replaces {b : Bucket α} (hk : Keyed cfg key) (he : Hashed cfg e)
    (hb : Hashed cfg b) :
    e.hash = b.hash ∧ cfg.equal e.item b.item = true ↔ key e.item = key b.item := by
  rw [← hk e.item b.item, he, hb]

theorem mem_others (hji : j ≠ i) (hj : (t.get j).dib ≠ 0) : (t.get j).item ∈ others t i := by
  rw [others, Multiset.mem_sum]
  refine ⟨j, Finset.mem_erase.mpr ⟨hji, Finset.mem_univ j⟩, ?_⟩
  rw [Bucket.used_busy hj]
  exact Multiset.mem_singleton_self _

theorem item_mem (hi : (t.get i).dib ≠ 0) : (t.get i).item ∈ contents t :=
  mem_contents.mpr ⟨i, hi, rfl⟩

/-- A key is in one bucket only. -/
theorem unique_bucket (hd : Distinct key (contents t)) (hi : (t.get i).dib ≠ 0)
    (hj : (t.get j).dib ≠ 0) (h : key (t.get i).item = key (t.get j).item) : i = j := by
  by_contra hij
  rw [contents_busy hi, distinct_cons] at hd
  exact hd.1 _ (mem_others (Ne.symm hij) hj) h

variable [NeZero n]

theorem search_missing (hk : Keyed cfg key) (ht : Placed cfg t)
    (hno : ∀ b ∈ contents t, key a ≠ key b) (hfuel : FreeWithin next (dibs t) fuel i) :
    search cfg t a (clipHash (cfg.hashOf a)) fuel i = some none := by
  induction fuel generalizing i with
  | zero => exact absurd hfuel.zero_lt (Nat.lt_irrefl 0)
  | succ fuel ih =>
    unfold search
    by_cases hzero : (t.get i).dib = 0
    · simp only [hzero, if_true]
    · have hmiss := mt (hk.found (ht.hash i hzero) a).mp (hno _ (item_mem hzero))
      simp only [hzero, hmiss, if_false]
      exact ih (hfuel.step (mt dibs_eq_zero.mp hzero))

/-- The bucket of an item, as the end of a walk that begins at its home. -/
structure Walk (t : Vector (Bucket α) n) (s p : Fin n) (m : Nat) : Prop where
  stop : next^[m] s = p
  busy : (t.get p).dib ≠ 0
  far : ∀ k ≤ m, k < dibs t (next^[k] s)
  other : ∀ k < m, next^[k] s ≠ p

theorem Placed.walk (hpow : ∃ k, n = 2 ^ k) (ht : Placed cfg t) (hfree : dibs t j = 0)
    (hp : (t.get p).dib ≠ 0) :
    Walk t (masked n (t.get p).hash) p (dibs t p - 1) := by
  have hhome := ht.home p hp
  have hpos : 0 < dibs t p := toNat_pos hp
  have hfar : dibs t p - 1 < dibs t (next^[dibs t p - 1] (masked n (t.get p).hash)) := by
    rw [hhome]
    omega
  have hround := (ht.dib_le hpow hfree p).2
  refine ⟨hhome, hp, fun k hk => ht.smooth.chain hfar hk, fun k hk heq => ?_⟩
  have hsame := iterate_injOn (next_cycle hpow) (masked n (t.get p).hash)
    (by rw [Fintype.card_fin]; omega) (by rw [Fintype.card_fin]; omega) (heq.trans hhome.symm)
  omega

theorem Walk.busy_at {s : Fin n} (h : Walk t s p m) {k : Nat} (hk : k ≤ m) :
    (t.get (next^[k] s)).dib ≠ 0 := by
  rw [ne_eq, ← dibs_eq_zero]
  exact Nat.ne_of_gt (Nat.zero_lt_of_lt (h.far k hk))

/-- On the way to the item there are others only. -/
theorem Walk.misses {s : Fin n} (h : Walk t s p m) (hd : Distinct key (contents t))
    (hkey : key a = key (t.get p).item) {k : Nat} (hk : k < m) :
    key a ≠ key (t.get (next^[k] s)).item := by
  intro heq
  exact h.other k hk (unique_bucket hd (h.busy_at (Nat.le_of_lt hk)) h.busy (heq.symm.trans hkey))

theorem search_walk {s : Fin n} (hk : Keyed cfg key) (ht : Placed cfg t)
    (hd : Distinct key (contents t)) (hw : Walk t s p m) (hkey : key a = key (t.get p).item)
    {k : Nat} (hkm : k ≤ m) (hfuel : m - k < fuel) :
    search cfg t a (clipHash (cfg.hashOf a)) fuel (next^[k] s) = some (some p) := by
  induction fuel generalizing k with
  | zero => exact absurd hfuel (Nat.not_lt_zero _)
  | succ fuel ih =>
    have hbusy := hw.busy_at hkm
    have hfound := hk.found (ht.hash _ hbusy) a
    unfold search
    rcases Nat.eq_or_lt_of_le hkm with rfl | hlt
    · rw [hw.stop] at hfound ⊢
      simp only [hw.busy, hfound.mpr hkey, if_true, if_false, and_self]
    · have hmiss := mt hfound.mp (hw.misses hd hkey hlt)
      simp only [hbusy, hmiss, if_false]
      rw [← Function.iterate_succ_apply' next]
      exact ih hlt (by omega)

theorem insert_walk {s : Fin n} (hk : Keyed cfg key) (ht : Placed cfg t)
    (hd : Distinct key (contents t)) (hw : Walk t s p m) (he : Hashed cfg e)
    (hkey : key e.item = key (t.get p).item) {k : Nat} (hkm : k ≤ m) (hfuel : m - k < fuel)
    (hdib : e.dib.toNat = k + 1) (hm : m < 65535) :
    insert cfg t e fuel (next^[k] s) =
      some (t.set p { t.get p with item := e.item } p.isLt, some (t.get p).item) := by
  induction fuel generalizing k e with
  | zero => exact absurd hfuel (Nat.not_lt_zero _)
  | succ fuel ih =>
    have hbusy := hw.busy_at hkm
    have hrepl := hk.replaces he (ht.hash _ hbusy)
    unfold insert
    rcases Nat.eq_or_lt_of_le hkm with rfl | hlt
    · rw [hw.stop] at hrepl ⊢
      simp only [hw.busy, hrepl.mpr hkey, if_true, if_false, and_self]
    · have hmiss := mt hrepl.mp (hw.misses hd hkey hlt)
      have hfar := hw.far k hkm
      have hstay : ¬ (t.get (next^[k] s)).dib < e.dib := by
        rw [UInt16.lt_iff_toNat_lt, hdib]
        exact Nat.not_lt.mpr hfar
      simp only [hbusy, hmiss, hstay, if_false]
      rw [← Function.iterate_succ_apply' next]
      exact ih (e := { e with dib := e.dib + 1 }) he hkey hlt (by omega)
        (by rw [toNat_succ (by omega), hdib])

/-- With a new key the loop replaces nothing, also after it has changed places with an item. -/
theorem insert_new (hk : Keyed cfg key) (ht : ∀ i, (t.get i).dib ≠ 0 → Hashed cfg (t.get i))
    (he : Hashed cfg e) (hd : Distinct key (e.item ::ₘ contents t)) :
    insert cfg t e fuel i = (place t e fuel i).map fun t' => (t', none) := by
  induction fuel generalizing t e i with
  | zero => rfl
  | succ fuel ih =>
    unfold insert place
    by_cases hzero : (t.get i).dib = 0
    · simp only [hzero, if_true, Option.map_some]
    · have hmiss := mt (hk.replaces he (ht i hzero)).mp ((distinct_cons.mp hd).1 _ (item_mem hzero))
      by_cases hlt : (t.get i).dib < e.dib
      · have hbusy : e.dib ≠ 0 := by
          intro h
          rw [h, UInt16.lt_iff_toNat_lt] at hlt
          exact absurd hlt (Nat.not_lt_zero _)
        simp only [hzero, hmiss, hlt, if_true, if_false]
        refine ih (fun k hbk => ?_) (ht i hzero) ?_
        · by_cases hki : k = i
          · rw [hki, get_set_self]
            exact he
          · rw [get_set_of_ne t e hki] at hbk ⊢
            exact ht k hbk
        · rw [contents_set_busy hbusy, Multiset.cons_swap, ← contents_busy hzero]
          exact hd
      · simp only [hzero, hmiss, hlt, if_false]
        exact ih ht he hd

section Ring

variable (hpow : ∃ k, n = 2 ^ k)
include hpow

/-- An item in the table is found, within as many buckets as there are items. -/
theorem search_found (hk : Keyed cfg key) (ht : Placed cfg t) (hd : Distinct key (contents t))
    (hfree : dibs t j = 0) (hp : (t.get p).dib ≠ 0) (hkey : key a = key (t.get p).item)
    (hfuel : (contents t).card ≤ fuel) :
    search cfg t a (clipHash (cfg.hashOf a)) fuel (masked n (clipHash (cfg.hashOf a))) =
      some (some p) := by
  have hw := ht.walk hpow hfree hp
  have hhash := ((hk.found (ht.hash p hp) a).mpr hkey).1
  rw [hhash] at hw
  have hle := (ht.dib_le hpow hfree p).1
  have hpos : 0 < dibs t p := toNat_pos hp
  exact search_walk (k := 0) hk ht hd hw hkey (Nat.zero_le _) (by omega)

/-- An item with a key that the table has replaces the old one. -/
theorem insert_old (hk : Keyed cfg key) (ht : Placed cfg t) (hd : Distinct key (contents t))
    (hfree : dibs t j = 0) (hroom : (contents t).card ≤ 65535) (hp : (t.get p).dib ≠ 0)
    (he : Hashed cfg e) (hdib : e.dib = 1) (hkey : key e.item = key (t.get p).item)
    (hfuel : (contents t).card ≤ fuel) :
    insert cfg t e fuel (masked n e.hash) =
      some (t.set p { t.get p with item := e.item } p.isLt, some (t.get p).item) := by
  have hw := ht.walk hpow hfree hp
  have hhash := ((hk.replaces he (ht.hash p hp)).mpr hkey).1
  rw [← hhash] at hw
  have hle := (ht.dib_le hpow hfree p).1
  have hpos : 0 < dibs t p := toNat_pos hp
  exact insert_walk (k := 0) hk ht hd hw he hkey (Nat.zero_le _) (by omega) (by rw [hdib]; rfl)
    (by omega)

end Ring

/-! ## Shifting back -/

/-- The bucket `j` is to be filled; `d` is what was there. -/
structure Hole (cfg : Config α) (t : Vector (Bucket α) n) (j : Fin n) (d : Nat) : Prop where
  hash : ∀ i ≠ j, (t.get i).dib ≠ 0 → Hashed cfg (t.get i)
  home : ∀ i ≠ j, (t.get i).dib ≠ 0 → next^[dibs t i - 1] (masked n (t.get i).hash) = i
  smooth : Smooth next (Function.update (dibs t) j d)
  busy : d ≠ 0

theorem Placed.hole (ht : Placed cfg t) (hj : (t.get j).dib ≠ 0) (b : Bucket α) :
    Hole cfg (t.set j b j.isLt) j (dibs t j) where
  hash i hi hbusy := by
    rw [get_set_of_ne t b hi] at hbusy ⊢
    exact ht.hash i hbusy
  home i hi hbusy := by
    rw [get_set_of_ne t b hi] at hbusy ⊢
    rw [dibs_set, Function.update_of_ne hi]
    exact ht.home i hbusy
  smooth := by
    rw [dibs_set, Function.update_idem, Function.update_eq_self]
    exact ht.smooth
  busy := mt dibs_eq_zero.mp hj

variable {d : Nat}

theorem Hole.next_ne (hh : Hole cfg t j d)
    (hfuel : FreeWithin next (Function.update (dibs t) j d) fuel (next j)) : next j ≠ j := by
  intro hself
  obtain ⟨r, -, hr⟩ := hfuel
  rw [hself, Function.iterate_fixed hself, Function.update_self] at hr
  exact hh.busy hr

/-- No item is to be shifted any more. -/
theorem Hole.close (hh : Hole cfg t j d) (hle : dibs t (next j) ≤ 1) (hne : next j ≠ j) :
    Placed cfg (t.set j { t.get j with dib := 0 } j.isLt) where
  hash i hi := by
    by_cases hij : i = j
    · rw [hij, get_set_self] at hi
      exact absurd rfl hi
    · rw [get_set_of_ne t _ hij] at hi ⊢
      exact hh.hash i hij hi
  home i hi := by
    by_cases hij : i = j
    · rw [hij, get_set_self] at hi
      exact absurd rfl hi
    · rw [get_set_of_ne t _ hij] at hi ⊢
      rw [dibs_set, Function.update_of_ne hij]
      exact hh.home i hij hi
  smooth := by
    have hsmooth := hh.smooth.update (j := j) (d := 0) (fun i _ => Nat.zero_le _)
      (by rw [Function.update_of_ne hne]; exact hle)
    rw [Function.update_idem] at hsmooth
    rw [dibs_set]
    exact hsmooth

variable (hpow : ∃ k, n = 2 ^ k)
include hpow

/-- The item behind the hole is shifted into it. -/
theorem Hole.shift (hh : Hole cfg t j d) (hlt : ¬ (t.get (next j)).dib ≤ 1) (hne : next j ≠ j) :
    Hole cfg (t.set j { t.get (next j) with dib := (t.get (next j)).dib - 1 } j.isLt) (next j)
      (dibs t (next j)) := by
  have hone : (1 : UInt16) ≤ (t.get (next j)).dib :=
    UInt16.le_of_lt (UInt16.not_le.mp hlt)
  have hsub : ((t.get (next j)).dib - 1).toNat = dibs t (next j) - 1 := by
    rw [UInt16.toNat_sub_of_le _ _ hone]
    rfl
  have htwo : 1 < dibs t (next j) := UInt16.lt_iff_toNat_lt.mp (UInt16.not_le.mp hlt)
  have hbusy : (t.get (next j)).dib ≠ 0 := by
    rw [ne_eq, ← dibs_eq_zero]
    omega
  refine ⟨fun i hi hib => ?_, fun i hi hib => ?_, ?_, by omega⟩
  · by_cases hij : i = j
    · rw [hij, get_set_self]
      exact hh.hash _ hne hbusy
    · rw [get_set_of_ne t _ hij] at hib ⊢
      exact hh.hash i hij hib
  · by_cases hij : i = j
    · rw [hij, dibs_set, Function.update_self, get_set_self, hsub]
      -- its walk is shorter by one bucket
      have hhome := hh.home _ hne hbusy
      have heq : dibs t (next j) - 1 = dibs t (next j) - 1 - 1 + 1 := by omega
      rw [heq, Function.iterate_succ_apply'] at hhome
      exact next_injective (next_cycle hpow) hhome
    · rw [get_set_of_ne t _ hij] at hib ⊢
      rw [dibs_set, Function.update_of_ne hij]
      exact hh.home i hij hib
  · have hstep := hh.smooth j
    rw [Function.update_self, Function.update_of_ne hne] at hstep
    have hsmooth := hh.smooth.update (j := j) (d := dibs t (next j) - 1)
      (fun i hi => by
        have hi' := hh.smooth i
        rw [hi, Function.update_self] at hi'
        omega)
      (by rw [Function.update_of_ne hne]; omega)
    rw [Function.update_idem] at hsmooth
    rw [dibs_set, hsub]
    have hsame : Function.update (Function.update (dibs t) j (dibs t (next j) - 1)) (next j)
        (dibs t (next j)) = Function.update (dibs t) j (dibs t (next j) - 1) := by
      conv_rhs => rw [← Function.update_eq_self (next j)
        (Function.update (dibs t) j (dibs t (next j) - 1)), Function.update_of_ne hne]
    rw [hsame]
    exact hsmooth

/-- The inner loop of `hashmap_del_with_hash` closes the hole and loses no other item. -/
theorem shiftBack_spec (hh : Hole cfg t j d)
    (hfuel : FreeWithin next (Function.update (dibs t) j d) fuel (next j)) :
    ∃ t', shiftBack t fuel j = some t' ∧ Placed cfg t' ∧ contents t' = others t j := by
  induction fuel generalizing t j d with
  | zero => exact absurd hfuel.zero_lt (Nat.lt_irrefl 0)
  | succ fuel ih =>
    have hne := hh.next_ne hfuel
    unfold shiftBack
    by_cases hle : (t.get (next j)).dib ≤ 1
    · refine ⟨_, if_pos hle, hh.close (UInt16.le_iff_toNat_le.mp hle) hne, ?_⟩
      rw [contents_set, Bucket.used_free rfl, zero_add]
    · have htwo : 1 < dibs t (next j) := UInt16.lt_iff_toNat_lt.mp (UInt16.not_le.mp hle)
      have hbusy : (t.get (next j)).dib ≠ 0 := by
        rw [ne_eq, ← dibs_eq_zero]
        omega
      have hstep := hfuel.step (by rw [Function.update_of_ne hne]; omega)
      have hnext : FreeWithin next (Function.update (dibs (t.set j
          { t.get (next j) with dib := (t.get (next j)).dib - 1 } j.isLt)) (next j)
          (dibs t (next j))) fuel (next (next j)) := by
        apply hstep.congr
        intro k hk
        have hkj : k ≠ j := fun h => hh.busy (by rw [h, Function.update_self] at hk; exact hk)
        rw [Function.update_of_ne hkj] at hk
        have hkn : k ≠ next j := fun h => by rw [h] at hk; omega
        rw [Function.update_of_ne hkn, dibs_set, Function.update_of_ne hkj, hk]
      obtain ⟨t', ht', hplaced, hcontents⟩ := ih (hh.shift hpow hle hne) hnext
      refine ⟨t', by rw [← ht']; exact if_neg hle, hplaced, hcontents.trans ?_⟩
      -- the item is in the bucket before, so that the others are the same
      have hone : (1 : UInt16) ≤ (t.get (next j)).dib := UInt16.le_of_lt (UInt16.not_le.mp hle)
      have hshifted : (t.get (next j)).dib - 1 ≠ 0 := by
        rw [ne_eq, ← UInt16.toNat_inj, UInt16.toNat_sub_of_le _ _ hone]
        have htoNat : (t.get (next j)).dib.toNat = dibs t (next j) := rfl
        rw [htoNat, UInt16.toNat_one, UInt16.toNat_zero]
        omega
      have hitem := contents_eq (t.set j
        { t.get (next j) with dib := (t.get (next j)).dib - 1 } j.isLt) (next j)
      rw [contents_set, get_set_of_ne t _ hne, Bucket.used_busy hbusy,
        Bucket.used_busy hshifted] at hitem
      exact (add_left_cancel hitem).symm

end CpuSubsystem.Hashmap
