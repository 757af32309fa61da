import CpuSubsystem.ProcImage.Hashmap.Resize

/-!
# The calls of the hash map

What each call does to the items of the map.  A new item has room as long as there are fewer than
65535 of them, because a displacement has 16 bits.
-/

namespace CpuSubsystem.Hashmap

open Displacement

variable {α κ : Type*} {cfg : Config α} {key : α → κ} {m : Hashmap α} {a : α}

theorem Inv.rooms (h : Inv cfg key m) (i : Fin m.nbuckets) :
    FreeWithin next (dibs m.buckets) m.nbuckets i := by
  obtain ⟨j, hj⟩ := h.free
  have hfree := freeWithin_of_free (next_cycle m.nbuckets_pow) hj i
  rw [Fintype.card_fin] at hfree
  exact hfree

theorem Inv.rooms_near (h : Inv cfg key m) (i : Fin m.nbuckets) :
    FreeWithin next (dibs m.buckets) (m.count + 1) i := by
  obtain ⟨j, hj⟩ := h.free
  rw [h.count, card_contents]
  exact freeWithin_card (next_cycle m.nbuckets_pow) hj i

theorem Inv.card_le (h : Inv cfg key m) : (contents m.buckets).card ≤ m.nbuckets := by
  rw [← h.count]
  exact Nat.le_trans h.load (Nat.le_of_lt (growAt_lt h.pos))

section Items

variable {n : Nat} {t : Vector (Bucket α) n} {p : Fin n}

theorem contents_write (hp : (t.get p).dib ≠ 0) (a : α) :
    contents (t.set p { t.get p with item := a } p.isLt) = a ::ₘ others t p := by
  have hbusy : ({ t.get p with item := a } : Bucket α).dib ≠ 0 := hp
  exact contents_set_busy hbusy

variable [NeZero n]

/-- Another item with the same hash, in the same bucket. -/
theorem Placed.write (ht : Placed cfg t) (hp : (t.get p).dib ≠ 0)
    (hhash : clipHash (cfg.hashOf a) = clipHash (cfg.hashOf (t.get p).item)) :
    Placed cfg (t.set p { t.get p with item := a } p.isLt) := by
  have hdibs : dibs (t.set p { t.get p with item := a } p.isLt) = dibs t := by
    rw [dibs_set]
    exact Function.update_eq_self p (dibs t)
  refine ⟨fun i hi => ?_, fun i hi => ?_, by rw [hdibs]; exact ht.smooth⟩
  · by_cases hip : i = p
    · rw [hip, get_set_self]
      exact (ht.hash p hp).trans hhash.symm
    · rw [get_set_of_ne t _ hip] at hi ⊢
      exact ht.hash i hi
  · rw [hdibs]
    by_cases hip : i = p
    · rw [hip, get_set_self]
      exact ht.home p hp
    · rw [get_set_of_ne t _ hip] at hi ⊢
      exact ht.home i hi

end Items

/-! ## `hashmap_get` -/

/-- The place that a search gives is that of the item with the key. -/
def Finds (key : α → κ) (m : Hashmap α) (a : α) : Option (Fin m.nbuckets) → Prop
  | some i => (m.buckets.get i).dib ≠ 0 ∧ key a = key (m.buckets.get i).item
  | none => ∀ b ∈ contents m.buckets, key a ≠ key b

theorem get_spec (hk : Keyed cfg key) (h : Inv cfg key m) (a : α) :
    ∃ r, m.get cfg a = some r ∧ Finds key m a r := by
  obtain ⟨j, hj⟩ := h.free
  by_cases hmem : ∃ b ∈ contents m.buckets, key a = key b
  · obtain ⟨b, hb, hkey⟩ := hmem
    obtain ⟨p, hp, rfl⟩ := mem_contents.mp hb
    exact ⟨some p, search_found m.nbuckets_pow hk h.placed h.distinct hj hp hkey h.card_le,
      hp, hkey⟩
  · push Not at hmem
    exact ⟨none, search_missing hk h.placed hmem (h.rooms _), hmem⟩

/-- An item is written over by one with the same key. -/
theorem Inv.writeItem (hk : Keyed cfg key) (h : Inv cfg key m) {i : Fin m.nbuckets}
    (hi : (m.buckets.get i).dib ≠ 0) (hkey : key a = key (m.buckets.get i).item) :
    Inv cfg key (m.writeItem i a) := by
  have hcontents := contents_write hi a
  have hold := contents_busy hi
  have hcard : (contents (m.writeItem i a).buckets).card = (contents m.buckets).card := by
    rw [Hashmap.writeItem, hcontents, hold, Multiset.card_cons, Multiset.card_cons]
  have hd := h.distinct
  rw [hold, distinct_cons] at hd
  exact {
    placed := h.placed.write hi ((hk _ _).mpr hkey).1
    distinct := by
      rw [Hashmap.writeItem, hcontents, distinct_cons, hkey]
      exact hd
    count := by rw [hcard]; exact h.count
    growat := h.growat
    shrinkat := h.shrinkat
    load := h.load
    few := h.few
    least := h.least
    cap_le := h.cap_le
    growpower := h.growpower }

/-! ## `hashmap_set` -/

variable [Inhabited α]

/-- There is room for one more item, with the same items in the table. -/
structure HasRoom (cfg : Config α) (key : α → κ) (m m' : Hashmap α) : Prop where
  inv : Inv cfg key m'
  contents : contents m'.buckets = contents m.buckets
  room : m'.count < growAt m'.nbuckets
  oom : m'.oom = m.oom

theorem growAt_grows {n p : Nat} (hn : 16 ≤ n) (hp : 1 ≤ p) : growAt n < growAt (n * 2 ^ p) := by
  have htwo : 2 ^ 1 ≤ 2 ^ p := Nat.pow_le_pow_right (by decide) hp
  have hle : n * 2 ≤ n * 2 ^ p := Nat.mul_le_mul_left n htwo
  apply Nat.lt_of_lt_of_le _ (growAt_mono hle)
  unfold growAt
  omega

theorem two_pow_mul {n : Nat} (hn : ∃ k, n = 2 ^ k) (p : Nat) : ∃ k, n * 2 ^ p = 2 ^ k := by
  obtain ⟨k, rfl⟩ := hn
  exact ⟨k + p, (Nat.pow_add 2 k p).symm⟩

theorem makeRoom_spec (h : Inv cfg key m) (alloc : Bool) :
    (∃ m', m.makeRoom alloc = some (m', true) ∧ HasRoom cfg key m m') ∨
      m.makeRoom alloc = some (m, false) ∧ alloc = false := by
  unfold makeRoom
  by_cases hfull : m.count ≥ m.growat
  · rw [if_pos hfull]
    cases alloc with
    | false => exact Or.inr ⟨rfl, rfl⟩
    | true =>
      have hgrow := growAt_grows (Nat.le_trans h.least h.cap_le) h.growpower
      have hcap : m.cap ≤ m.nbuckets * 2 ^ m.growpower :=
        Nat.le_trans h.cap_le (Nat.le_mul_of_pos_right _ (Nat.two_pow_pos _))
      obtain ⟨m', hm', hinv, hres⟩ := h.resize0 (two_pow_mul m.nbuckets_pow _) hcap
        (Nat.le_trans h.load (Nat.le_of_lt hgrow))
      refine Or.inl ⟨m', by rw [resize, if_pos rfl, hm']; rfl, hinv, hres.contents, ?_, hres.oom⟩
      rw [hres.count, hres.nbuckets]
      exact Nat.lt_of_le_of_lt h.load hgrow
  · rw [if_neg hfull]
    refine Or.inl ⟨m, rfl, h, rfl, ?_, rfl⟩
    rw [← h.growat]
    exact Nat.not_le.mp hfull

/-- What `hashmap_set` makes of the items `s`: what it replaces goes back to the caller. -/
inductive Sets (key : α → κ) (s s' : Multiset α) (a : α) : Option α → Bool → Prop where
  | fresh (hs : s' = a ::ₘ s) (hkey : ∀ b ∈ s, key a ≠ key b) : Sets key s s' a none false
  | replaced {b : α} {r : Multiset α} (hs : s = b ::ₘ r) (hs' : s' = a ::ₘ r)
      (hkey : key a = key b) : Sets key s s' a (some b) false
  | refused (hs : s' = s) : Sets key s s' a none true

/-- There is room for the item: its key is there already, or the items are not too many. -/
def Fits (key : α → κ) (m : Hashmap α) (a : α) : Prop :=
  (∀ b ∈ contents m.buckets, key a ≠ key b) → m.count < 65535

omit [Inhabited α] in
/-- The table with the new item, or with the item in the place of an old one. -/
theorem insert_roomy {m₁ : Hashmap α} (hk : Keyed cfg key) (h : HasRoom cfg key m m₁)
    (hm : Inv cfg key m) (hfits : Fits key m a) :
    ∃ t' old, insert cfg m₁.buckets ⟨clipHash (cfg.hashOf a), 1, a⟩ m₁.nbuckets
        (masked m₁.nbuckets (clipHash (cfg.hashOf a))) = some (t', old) ∧
      ∃ m', m' = { m₁ with
          buckets := t', count := if old.isSome then m₁.count else m₁.count + 1 } ∧
        Inv cfg key m' ∧
        Sets key (contents m.buckets) (contents m'.buckets) a old false := by
  have hinv := h.inv
  obtain ⟨j, hj⟩ := hinv.free
  have hcount : m₁.count = m.count := by rw [hinv.count, h.contents, hm.count]
  have he : Hashed cfg (⟨clipHash (cfg.hashOf a), 1, a⟩ : Bucket α) := rfl
  by_cases hmem : ∃ b ∈ contents m₁.buckets, key a = key b
  · obtain ⟨b, hb, hkey⟩ := hmem
    obtain ⟨p, hp, rfl⟩ := mem_contents.mp hb
    have hroom : (contents m₁.buckets).card ≤ 65535 := hinv.count ▸ hinv.few
    refine ⟨_, _, insert_old m₁.nbuckets_pow hk hinv.placed hinv.distinct hj hroom hp he rfl hkey
      hinv.card_le, _, rfl, hinv.writeItem hk hp hkey, ?_⟩
    exact .replaced (h.contents.symm.trans (contents_busy hp)) (contents_write hp a) hkey
  · push Not at hmem
    have hnew := hfits (h.contents ▸ hmem)
    have hroom : (contents m₁.buckets).card < 65535 := by
      rw [← hinv.count, hcount]
      exact hnew
    obtain ⟨t', ht', hplaced, hcontents⟩ := place_spec m₁.nbuckets_pow hinv.placed
      (Incoming.start he rfl) (hinv.rooms _) hroom
    have hd := distinct_cons.mpr ⟨hmem, hinv.distinct⟩
    refine ⟨t', none, by rw [insert_new hk hinv.placed.hash he hd, ht']; rfl, _, rfl, ?_, ?_⟩
    · exact {
        placed := hplaced
        distinct := by rw [hcontents]; exact hd
        count := by rw [hcontents, Multiset.card_cons, ← hinv.count]; rfl
        growat := hinv.growat
        shrinkat := hinv.shrinkat
        load := h.room
        few := by
          show m₁.count + 1 ≤ 65535
          omega
        least := hinv.least
        cap_le := hinv.cap_le
        growpower := hinv.growpower }
    · refine .fresh ?_ (h.contents ▸ hmem)
      rw [← h.contents]
      exact hcontents

theorem set_spec (hk : Keyed cfg key) (h : Inv cfg key m) (hfits : Fits key m a) (alloc : Bool) :
    ∃ m' old, m.set cfg a alloc = some (m', old) ∧ Inv cfg key m' ∧
      Sets key (contents m.buckets) (contents m'.buckets) a old m'.oom ∧
      (m'.oom = true → alloc = false) := by
  rcases makeRoom_spec (h.withOom false) alloc with ⟨m₁, hm₁, hroomy⟩ | ⟨hm, rfl⟩
  · obtain ⟨t', old, ht', m', rfl, hinv, hsets⟩ := insert_roomy hk hroomy (h.withOom false) hfits
    have hset : m.set cfg a alloc = some ({ m₁ with
        buckets := t', count := if old.isSome then m₁.count else m₁.count + 1 }, old) := by
      rw [set, setWithHash, hm₁]
      simp only [Option.bind_eq_bind, Option.bind_some, if_true, ht', Option.pure_def]
    have hoom : m₁.oom = false := hroomy.oom
    refine ⟨_, old, hset, hinv, ?_, fun h => ?_⟩
    · show Sets key _ _ a old m₁.oom
      rw [hoom]
      exact hsets
    · rw [hoom] at h
      cases h
  · have hset : m.set cfg a false = some ({ m with oom := true }, none) := by
      rw [set, setWithHash, hm]
      rfl
    exact ⟨_, none, hset, h.withOom true, .refused rfl, fun _ => rfl⟩

/-! ## `hashmap_del` -/

theorem shrinkAt_le_growAt_half (n : Nat) (h : 16 ≤ n) : shrinkAt n ≤ growAt (n / 2) := by
  unfold shrinkAt growAt
  omega

theorem half_pow {n : Nat} (hn : ∃ k, n = 2 ^ k) (h : 1 < n) : ∃ k, n / 2 = 2 ^ k := by
  obtain ⟨k, rfl⟩ := hn
  cases k with
  | zero => exact absurd h (Nat.lt_irrefl 1)
  | succ k => exact ⟨k, by rw [Nat.pow_succ, Nat.mul_div_cancel _ (by decide)]⟩

omit [Inhabited α] in
/-- The table without the item. -/
theorem Inv.shifted {rounds : Nat} (h : Inv cfg key m) {i : Fin m.nbuckets}
    (hi : (m.buckets.get i).dib ≠ 0) (hrounds : FreeWithin next (dibs m.buckets) rounds (next i)) :
    ∃ t', shiftBack (m.buckets.set i { m.buckets.get i with dib := 0 } i.isLt) rounds i =
        some t' ∧
      contents t' = others m.buckets i ∧
      Inv cfg key { m with buckets := t', count := m.count - 1 } := by
  have hdibs : Function.update (dibs (m.buckets.set i { m.buckets.get i with dib := 0 } i.isLt)) i
      (dibs m.buckets i) = dibs m.buckets := by
    rw [dibs_set, Function.update_idem, Function.update_eq_self]
  obtain ⟨t', ht', hplaced, hcontents⟩ := shiftBack_spec m.nbuckets_pow
    (h.placed.hole hi { m.buckets.get i with dib := 0 }) (hdibs.symm ▸ hrounds)
  rw [others_set] at hcontents
  have hold := contents_busy hi
  have hd := h.distinct
  rw [hold, distinct_cons] at hd
  refine ⟨t', ht', hcontents, ?_⟩
  exact {
    placed := hplaced
    distinct := by rw [hcontents]; exact hd.2
    count := by
      show m.count - 1 = _
      rw [hcontents, h.count, hold, Multiset.card_cons, Nat.add_sub_cancel]
    growat := h.growat
    shrinkat := h.shrinkat
    load := Nat.le_trans (Nat.sub_le _ _) h.load
    few := Nat.le_trans (Nat.sub_le _ _) h.few
    least := h.least
    cap_le := h.cap_le
    growpower := h.growpower }

/-- The item is gone, and the table shrinks when it can. -/
theorem remove_spec (h : Inv cfg key m) {i : Fin m.nbuckets} (hi : (m.buckets.get i).dib ≠ 0)
    (alloc : Bool) :
    ∃ m', m.remove i alloc = some m' ∧ Inv cfg key m' ∧
      contents m'.buckets = others m.buckets i := by
  obtain ⟨t', ht', hcontents, hinv⟩ := h.shifted hi (h.rooms (next i))
  unfold remove
  simp only [ht', Option.bind_eq_bind, Option.bind_some, Option.pure_def]
  split
  · rename_i hshrink
    obtain ⟨hcap, hfew⟩ := hshrink
    cases alloc with
    | false => exact ⟨_, rfl, hinv, hcontents⟩
    | true =>
      have hsize : 16 ≤ m.nbuckets := Nat.le_trans h.least h.cap_le
      have hload : m.count - 1 ≤ growAt (m.nbuckets / 2) := by
        apply Nat.le_trans hfew
        rw [h.shrinkat]
        exact shrinkAt_le_growAt_half _ hsize
      obtain ⟨m', hm', hinv', hres⟩ := hinv.resize0 (half_pow m.nbuckets_pow (by omega))
        (le_half m.cap_pow m.nbuckets_pow hcap) hload
      exact ⟨m', by rw [resize, if_pos rfl, hm']; rfl, hinv', hres.contents.trans hcontents⟩
  · exact ⟨_, rfl, hinv, hcontents⟩

/-- What `hashmap_del` makes of the items `s`: it gives the item with the key to the caller. -/
inductive Deletes (key : α → κ) (s s' : Multiset α) (a : α) : Option α → Prop where
  | found {b : α} (hs : s = b ::ₘ s') (hkey : key a = key b) : Deletes key s s' a (some b)
  | missing (hs : s' = s) (hkey : ∀ b ∈ s, key a ≠ key b) : Deletes key s s' a none

theorem del_spec (hk : Keyed cfg key) (h : Inv cfg key m) (a : α) (alloc : Bool) :
    ∃ m' old, m.del cfg a alloc = some (m', old) ∧ Inv cfg key m' ∧
      Deletes key (contents m.buckets) (contents m'.buckets) a old := by
  obtain ⟨r, hr, hfinds⟩ := get_spec hk (h.withOom false) a
  rw [get] at hr
  unfold del delWithHash
  cases r with
  | none =>
    refine ⟨{ m with oom := false }, none, by simp only [hr, Option.bind_some], h.withOom false, ?_⟩
    exact .missing rfl hfinds
  | some i =>
    obtain ⟨m', hm', hinv, hcontents⟩ := remove_spec (h.withOom false) hfinds.1 alloc
    refine ⟨m', some (m.buckets.get i).item, ?_, hinv, .found ?_ hfinds.2⟩
    · simp only [hr, Option.bind_some, hm', Option.bind_eq_bind, Option.pure_def]
    · rw [hcontents]
      exact contents_busy hfinds.1

end CpuSubsystem.Hashmap
