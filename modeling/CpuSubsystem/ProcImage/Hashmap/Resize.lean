import CpuSubsystem.ProcImage.Hashmap.Keys

/-!
# Growing and shrinking

The number of buckets is a power of two, never below the capacity of the map, and
at most 60% of them are in use.
-/

namespace CpuSubsystem.Hashmap

open Displacement

variable {α κ : Type*} {cfg : Config α} {key : α → κ}

/-! ## Sizes -/

section Sizes

variable {cap fuel ncap k l n : Nat}

theorem le_roundUp : ncap ≤ roundUp cap fuel ncap := by
  induction fuel generalizing ncap with
  | zero => exact Nat.le_refl ncap
  | succ fuel ih =>
    unfold roundUp
    split
    · exact Nat.le_trans (Nat.le_mul_of_pos_right ncap (by decide)) ih
    · exact Nat.le_refl ncap

/-- A power of two that is not below the first size is taken as it is. -/
theorem roundUp_two_pow (hkl : k ≤ l) (hfuel : l - k ≤ fuel) :
    roundUp (2 ^ l) fuel (2 ^ k) = 2 ^ l := by
  induction fuel generalizing k with
  | zero =>
    have heq : k = l := by omega
    rw [heq]
    rfl
  | succ fuel ih =>
    unfold roundUp
    rcases Nat.eq_or_lt_of_le hkl with rfl | hlt
    · rw [if_neg (Nat.lt_irrefl _)]
    · rw [if_pos (Nat.pow_lt_pow_right (by decide) hlt), ← Nat.pow_succ]
      exact ih hlt (by omega)

theorem roundUp_pow_eq (hn : ∃ k, n = 2 ^ k) (h : 16 ≤ n) : roundUp n n 16 = n := by
  obtain ⟨l, rfl⟩ := hn
  have hl : 4 ≤ l := (Nat.pow_le_pow_iff_right (by decide : 1 < 2)).mp h
  exact roundUp_two_pow (k := 4) hl (Nat.le_trans (Nat.sub_le _ _) (Nat.le_of_lt l.lt_two_pow_self))

theorem growAt_lt (h : 0 < n) : growAt n < n := by
  unfold growAt
  omega

theorem growAt_mono (h : k ≤ n) : growAt k ≤ growAt n := by
  unfold growAt
  omega

/-- Above the capacity there is room for the smaller table. -/
theorem le_half (hk : ∃ i, k = 2 ^ i) (hn : ∃ j, n = 2 ^ j) (h : k < n) : k ≤ n / 2 := by
  obtain ⟨i, rfl⟩ := hk
  obtain ⟨j, rfl⟩ := hn
  have hij := (Nat.pow_lt_pow_iff_right (by decide : 1 < 2)).mp h
  obtain ⟨j, rfl⟩ : ∃ j', j = j' + 1 := ⟨j - 1, by omega⟩
  rw [Nat.pow_succ, Nat.mul_div_cancel _ (by decide)]
  exact Nat.pow_le_pow_right (by decide) (by omega)

end Sizes

/-- What holds of a map after every call. -/
structure Inv (cfg : Config α) (key : α → κ) (m : Hashmap α) : Prop where
  placed : Placed cfg m.buckets
  distinct : Distinct key (contents m.buckets)
  count : m.count = (contents m.buckets).card
  growat : m.growat = growAt m.nbuckets
  shrinkat : m.shrinkat = shrinkAt m.nbuckets
  load : m.count ≤ growAt m.nbuckets
  few : m.count ≤ 65535
  least : 16 ≤ m.cap
  cap_le : m.cap ≤ m.nbuckets
  growpower : 1 ≤ m.growpower

variable {m : Hashmap α}

theorem Inv.pos (h : Inv cfg key m) : 0 < m.nbuckets :=
  Nat.lt_of_lt_of_le (by decide) (Nat.le_trans h.least h.cap_le)

theorem Inv.free (h : Inv cfg key m) : ∃ j, dibs m.buckets j = 0 := by
  apply exists_free
  rw [← h.count]
  exact Nat.lt_of_le_of_lt h.load (growAt_lt h.pos)

theorem contents_replicate (n : Nat) (b : Bucket α) (h : b.dib = 0) :
    contents (Vector.replicate n b) = 0 := by
  apply Finset.sum_eq_zero
  intro i _
  apply Bucket.used_free
  simp [Vector.get, h]

theorem Inv.setGrowByPower (h : Inv cfg key m) (power : Nat) :
    Inv cfg key (m.setGrowByPower power) where
  placed := h.placed
  distinct := h.distinct
  count := h.count
  growat := h.growat
  shrinkat := h.shrinkat
  load := h.load
  few := h.few
  least := h.least
  cap_le := h.cap_le
  growpower := by
    show 1 ≤ if power < 1 then 1 else if power > 16 then 16 else power
    split_ifs <;> omega

theorem Inv.withOom (h : Inv cfg key m) (oom : Bool) : Inv cfg key { m with oom := oom } where
  placed := h.placed
  distinct := h.distinct
  count := h.count
  growat := h.growat
  shrinkat := h.shrinkat
  load := h.load
  few := h.few
  least := h.least
  cap_le := h.cap_le
  growpower := h.growpower

/-! ## Moving the items -/

/-- Each item needs as many rounds as there are items at most. -/
theorem moveAll_spec {n rounds : Nat} [NeZero n] (hpow : ∃ k, n = 2 ^ k) {t : Vector (Bucket α) n}
    (ht : Placed cfg t) {l : List (Bucket α)} (hl : ∀ b ∈ l, b.dib ≠ 0 → Hashed cfg b)
    (hn : ((contents t) + (l.map Bucket.used).sum).card < n)
    (hrounds : ((contents t) + (l.map Bucket.used).sum).card ≤ rounds)
    (hroom : ((contents t) + (l.map Bucket.used).sum).card ≤ 65535) :
    ∃ t', moveAll rounds l t = some t' ∧ Placed cfg t' ∧
      contents t' = contents t + (l.map Bucket.used).sum := by
  induction l generalizing t with
  | nil => exact ⟨t, rfl, ht, by rw [List.map_nil, List.sum_nil, add_zero]⟩
  | cons b l ih =>
    have hrest : ∀ b' ∈ l, b'.dib ≠ 0 → Hashed cfg b' :=
      fun b' hb' => hl b' (List.mem_cons_of_mem b hb')
    rw [List.map_cons, List.sum_cons] at hn hrounds hroom ⊢
    rw [moveAll, List.foldlM_cons]
    by_cases hzero : b.dib = 0
    · rw [Bucket.used_free hzero, zero_add] at hn hrounds hroom ⊢
      rw [if_pos hzero]
      exact ih ht hrest hn hrounds hroom
    · rw [Bucket.used_busy hzero, Multiset.singleton_add, Multiset.add_cons] at hn hrounds hroom ⊢
      have hcard : (contents t + (l.map Bucket.used).sum).card + 1 =
          (b.item ::ₘ (contents t + (l.map Bucket.used).sum)).card := (Multiset.card_cons _ _).symm
      rw [Multiset.card_add] at hcard
      obtain ⟨j, hj⟩ := exists_free (t := t) (by omega)
      have hfree := freeWithin_card (next_cycle hpow) hj (masked n b.hash)
      rw [← card_contents] at hfree
      have hstart : Incoming cfg t { b with dib := 1 } (masked n b.hash) :=
        Incoming.start (hl b List.mem_cons_self hzero) rfl
      obtain ⟨t₁, ht₁, hplaced, hcontents⟩ :=
        place_spec hpow ht hstart (hfree.mono (show _ ≤ rounds by omega)) (by omega)
      have hsum : contents t₁ + (l.map Bucket.used).sum =
          b.item ::ₘ (contents t + (l.map Bucket.used).sum) := by
        rw [hcontents, Multiset.cons_add]
      rw [if_neg hzero, ht₁, ← hsum]
      exact ih hplaced hrest (by rw [hsum]; exact hn) (by rw [hsum]; exact hrounds)
        (by rw [hsum]; exact hroom)

theorem mem_toList_get {n : Nat} {t : Vector (Bucket α) n} {b : Bucket α} (h : b ∈ t.toList) :
    ∃ i, t.get i = b := by
  obtain ⟨k, hk, hb⟩ := List.mem_iff_getElem.mp h
  rw [Vector.length_toList] at hk
  exact ⟨⟨k, hk⟩, by rw [← hb, Vector.getElem_toList]; rfl⟩

/-- The old items, in a table of another size. -/
structure Resized (m m' : Hashmap α) (n : Nat) : Prop where
  nbuckets : m'.nbuckets = n
  contents : contents m'.buckets = contents m.buckets
  cap : m'.cap = m.cap
  count : m'.count = m.count
  growpower : m'.growpower = m.growpower
  oom : m'.oom = m.oom

variable [Inhabited α]

theorem placed_new (cap : Nat) : Placed cfg (new α cap).buckets := placed_free _ rfl

theorem contents_new (cap : Nat) : contents (new α cap).buckets = 0 :=
  contents_replicate _ _ rfl

theorem inv_new (cap : Nat) : Inv cfg key (new α cap) where
  placed := placed_new cap
  distinct := by
    rw [contents_new]
    exact distinct_zero
  count := by
    rw [contents_new]
    rfl
  growat := rfl
  shrinkat := rfl
  load := Nat.zero_le _
  few := Nat.zero_le _
  least := le_roundUp
  cap_le := Nat.le_refl _
  growpower := Nat.le_refl 1

theorem Inv.clear (h : Inv cfg key m) (updateCap : Bool) : Inv cfg key (m.clear updateCap) where
  placed := placed_free _ rfl
  distinct := by
    rw [Hashmap.clear, contents_replicate _ _ rfl]
    exact distinct_zero
  count := by
    rw [Hashmap.clear, contents_replicate _ _ rfl]
    rfl
  growat := rfl
  shrinkat := rfl
  load := Nat.zero_le _
  few := Nat.zero_le _
  least := by
    cases updateCap
    · exact h.least
    · exact Nat.le_trans h.least h.cap_le
  cap_le := Nat.le_refl _
  growpower := h.growpower

/-- All items go into a new table of `n` buckets, in which they use 60% at most. -/
theorem Inv.moveAll (h : Inv cfg key m) {n rounds : Nat} (hn : ∃ k, n = 2 ^ k) (hcap : m.cap ≤ n)
    (hload : m.count ≤ growAt n) (hrounds : m.count ≤ rounds) :
    ∃ t', Hashmap.moveAll rounds m.buckets.toList (new α n).buckets = some t' ∧ Placed cfg t' ∧
      contents t' = contents m.buckets := by
  have hsize : (new α n).nbuckets = n := roundUp_pow_eq hn (Nat.le_trans h.least hcap)
  have hsum : contents (new α n).buckets + (m.buckets.toList.map Bucket.used).sum =
      contents m.buckets := by
    rw [contents_new, zero_add, sum_used_toList]
  have hpos : 0 < n := Nat.lt_of_lt_of_le (by decide) (Nat.le_trans h.least hcap)
  have hold : ∀ b ∈ m.buckets.toList, b.dib ≠ 0 → Hashed cfg b := by
    intro b hb
    obtain ⟨i, rfl⟩ := mem_toList_get hb
    exact h.placed.hash i
  have hmove := moveAll_spec (new α n).nbuckets_pow (placed_new n) hold
    (by rw [hsum, ← h.count, hsize]; exact Nat.lt_of_le_of_lt hload (growAt_lt hpos))
    (show _ ≤ rounds by rw [hsum, ← h.count]; exact hrounds)
    (by rw [hsum, ← h.count]; exact h.few)
  rwa [hsum] at hmove

theorem Inv.resize0 (h : Inv cfg key m) {n : Nat} (hn : ∃ k, n = 2 ^ k) (hcap : m.cap ≤ n)
    (hload : m.count ≤ growAt n) :
    ∃ m', m.resize0 n = some m' ∧ Inv cfg key m' ∧ Resized m m' n := by
  have hsize : (new α n).nbuckets = n := roundUp_pow_eq hn (Nat.le_trans h.least hcap)
  have hpos : 0 < n := Nat.lt_of_lt_of_le (by decide) (Nat.le_trans h.least hcap)
  have hrounds : m.count ≤ (new α n).nbuckets := by
    rw [hsize]
    exact Nat.le_trans hload (Nat.le_of_lt (growAt_lt hpos))
  obtain ⟨t', ht', hplaced, hcontents⟩ := h.moveAll hn hcap hload hrounds
  let m' : Hashmap α := { m with
    nbuckets := (new α n).nbuckets
    nbuckets_pow := (new α n).nbuckets_pow
    buckets := t'
    growat := (new α n).growat
    shrinkat := (new α n).shrinkat }
  have hm' : m.resize0 n = some m' := by
    rw [Hashmap.resize0, ht']
    rfl
  refine ⟨m', hm', ?_, hsize, hcontents, rfl, rfl, rfl, rfl⟩
  exact {
    placed := hplaced
    distinct := by rw [hcontents]; exact h.distinct
    count := by rw [hcontents]; exact h.count
    growat := rfl
    shrinkat := rfl
    load := by rw [hsize]; exact hload
    few := h.few
    least := h.least
    cap_le := by rw [hsize]; exact hcap
    growpower := h.growpower }

end CpuSubsystem.Hashmap
