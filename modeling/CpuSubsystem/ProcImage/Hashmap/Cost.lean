import CpuSubsystem.ProcImage.Hashmap.Refinement

/-!
# What the hash map costs

A loop looks at one bucket more than there are items, at most.  As long as the grow power is 1, two
items are moved for each call of `hashmap_set` and one for each of `hashmap_del`, at most.
-/

namespace CpuSubsystem.Hashmap

open Displacement

variable {α κ : Type*} {cfg : Config α} {key : α → κ} {m m' : Hashmap α} {a : α}

/-! ## Loops -/

section Loops

theorem search_short (hk : Keyed cfg key) (h : Inv cfg key m) (a : α) :
    search cfg m.buckets a (clipHash (cfg.hashOf a)) (m.count + 1)
      (masked m.nbuckets (clipHash (cfg.hashOf a))) = m.get cfg a := by
  obtain ⟨j, hj⟩ := h.free
  by_cases hmem : ∃ b ∈ contents m.buckets, key a = key b
  · obtain ⟨b, hb, hkey⟩ := hmem
    obtain ⟨p, hp, rfl⟩ := mem_contents.mp hb
    rw [search_found m.nbuckets_pow hk h.placed h.distinct hj hp hkey (by rw [h.count]; omega)]
    exact (search_found m.nbuckets_pow hk h.placed h.distinct hj hp hkey h.card_le).symm
  · push Not at hmem
    rw [search_missing hk h.placed hmem (h.rooms_near _)]
    exact (search_missing hk h.placed hmem (h.rooms _)).symm

variable [Inhabited α]

/-- The item goes into the table that was made large enough. -/
theorem insert_short (hk : Keyed cfg key) (h : Inv cfg key m) (hfits : Fits key m a) {alloc : Bool}
    {m₁ : Hashmap α} (hroom : m.makeRoom alloc = some (m₁, true)) :
    (insert cfg m₁.buckets ⟨clipHash (cfg.hashOf a), 1, a⟩ (m.count + 1)
      (masked m₁.nbuckets (clipHash (cfg.hashOf a)))).isSome = true := by
  obtain ⟨hinv, hsame⟩ : Inv cfg key m₁ ∧ contents m₁.buckets = contents m.buckets := by
    rcases makeRoom_spec h alloc with ⟨m', hm', hspec⟩ | ⟨hnone, -⟩
    · cases hroom.symm.trans hm'
      exact ⟨hspec.inv, hspec.contents⟩
    · cases hroom.symm.trans hnone
  have hcount : m₁.count = m.count := by rw [hinv.count, hsame, h.count]
  obtain ⟨j, hj⟩ := hinv.free
  have he : Hashed cfg (⟨clipHash (cfg.hashOf a), 1, a⟩ : Bucket α) := rfl
  rw [← hcount]
  by_cases hmem : ∃ b ∈ contents m₁.buckets, key a = key b
  · obtain ⟨b, hb, hkey⟩ := hmem
    obtain ⟨p, hp, rfl⟩ := mem_contents.mp hb
    rw [insert_old m₁.nbuckets_pow hk hinv.placed hinv.distinct hj (hinv.count ▸ hinv.few) hp he rfl
      hkey (by rw [hinv.count]; omega)]
    rfl
  · push Not at hmem
    have hnew : (contents m₁.buckets).card < 65535 := by
      rw [hsame, ← h.count]
      exact hfits (hsame ▸ hmem)
    obtain ⟨t', ht', -, -⟩ := place_spec m₁.nbuckets_pow hinv.placed (Incoming.start he rfl)
      (hinv.rooms_near _) hnew
    rw [insert_new hk hinv.placed.hash he (distinct_cons.mpr ⟨hmem, hinv.distinct⟩), ht']
    rfl

/-- A full table is copied to a larger one. -/
theorem grow_short (h : Inv cfg key m) :
    (moveAll (m.count + 1) m.buckets.toList
      (new α (m.nbuckets * 2 ^ m.growpower)).buckets).isSome = true := by
  have hgrow := growAt_grows (Nat.le_trans h.least h.cap_le) h.growpower
  have hcap : m.cap ≤ m.nbuckets * 2 ^ m.growpower :=
    Nat.le_trans h.cap_le (Nat.le_mul_of_pos_right _ (Nat.two_pow_pos _))
  obtain ⟨t', ht', -, -⟩ := h.moveAll (two_pow_mul m.nbuckets_pow _) hcap
    (Nat.le_trans h.load (Nat.le_of_lt hgrow)) (Nat.le_succ m.count)
  rw [ht']
  rfl

/-- What follows an item that is deleted is shifted back, and the table shrinks. -/
theorem remove_short (h : Inv cfg key m) {i : Fin m.nbuckets} (hi : (m.buckets.get i).dib ≠ 0) :
    ∃ t', shiftBack (m.buckets.set i { m.buckets.get i with dib := 0 } i.isLt) (m.count + 1) i =
        some t' ∧
      (m.cap < m.nbuckets → m.count - 1 ≤ m.shrinkat →
        (moveAll (m.count + 1) t'.toList (new α (m.nbuckets / 2)).buckets).isSome = true) := by
  obtain ⟨t', ht', -, hinv⟩ := h.shifted hi (h.rooms_near (next i))
  refine ⟨t', ht', fun hlt hfew => ?_⟩
  have hsize : 16 ≤ m.nbuckets := Nat.le_trans h.least h.cap_le
  rw [h.shrinkat] at hfew
  have hrounds : m.count - 1 ≤ m.count + 1 := Nat.le_trans (Nat.sub_le _ _) (Nat.le_succ _)
  obtain ⟨t'', ht'', -, -⟩ := hinv.moveAll
    (half_pow m.nbuckets_pow (by omega)) (le_half m.cap_pow m.nbuckets_pow hlt)
    (Nat.le_trans hfew (shrinkAt_le_growAt_half _ hsize)) hrounds
  rw [ht'']
  rfl

/-- The loops of the calls end within as many buckets as there are items, and one more. -/
structure ShortLoops (cfg : Config α) (key : α → κ) (m : Hashmap α) : Prop where
  search : ∀ a, search cfg m.buckets a (clipHash (cfg.hashOf a)) (m.count + 1)
    (masked m.nbuckets (clipHash (cfg.hashOf a))) = m.get cfg a
  grow : m.growat ≤ m.count → (moveAll (m.count + 1) m.buckets.toList
    (new α (m.nbuckets * 2 ^ m.growpower)).buckets).isSome = true
  insert : ∀ a alloc m₁, Fits key m a → { m with oom := false }.makeRoom alloc = some (m₁, true) →
    (insert cfg m₁.buckets ⟨clipHash (cfg.hashOf a), 1, a⟩ (m.count + 1)
      (masked m₁.nbuckets (clipHash (cfg.hashOf a)))).isSome = true
  remove : ∀ i, (m.buckets.get i).dib ≠ 0 →
    ∃ t', shiftBack (m.buckets.set i { m.buckets.get i with dib := 0 } i.isLt) (m.count + 1) i =
        some t' ∧
      (m.cap < m.nbuckets → m.count - 1 ≤ m.shrinkat →
        (moveAll (m.count + 1) t'.toList (new α (m.nbuckets / 2)).buckets).isSome = true)

/-- In every state of a run, whether the table grows or shrinks in the call or not.  No item is
farther from home than there are items. -/
theorem loops_short {cap : Nat} {ops : List (Op α)} (hk : Keyed cfg key)
    (h : Roomy cfg key cap ops) :
    ∃ m, (machine cfg cap).exec ops = some m ∧ (∀ i, dibs m.buckets i ≤ m.count) ∧
      ShortLoops cfg key m := by
  classical
  obtain ⟨m, abs, hm, hinv, -, -, -⟩ := machine_run hk h
  obtain ⟨j, hj⟩ := hinv.free
  refine ⟨m, hm, fun i => ?_, ?_⟩
  · rw [hinv.count]
    exact (hinv.placed.dib_le m.nbuckets_pow hj i).1
  · exact {
      search := search_short hk hinv
      grow := fun _ => grow_short hinv
      insert := fun a alloc m₁ hfits hroom => insert_short hk (hinv.withOom false) hfits hroom
      remove := fun i hi => remove_short hinv hi }

theorem loops_short_words :
    ∃ m, (machine words 0).exec wordCalls = some m ∧ (∀ i, dibs m.buckets i ≤ m.count) ∧
      ShortLoops words clipHash m :=
  loops_short words_keyed wordCalls_roomy

end Loops

/-! ## Sizes -/

section Sizes

/-- Neither the capacity nor the grow power changes. -/
def SameLimits (m m' : Hashmap α) : Prop := m'.cap = m.cap ∧ m'.growpower = m.growpower

/-- What a call of `hashmap_set` does to the numbers of items and buckets. -/
structure SetSize (m m' : Hashmap α) (alloc : Bool) : Prop where
  limits : SameLimits m m'
  count : m'.count = m.count ∨ m'.count = m.count + 1
  nbuckets : m'.nbuckets = m.nbuckets ∧ (m.count = growAt m.nbuckets → alloc = false) ∨
    m.count = growAt m.nbuckets ∧ m'.nbuckets = m.nbuckets * 2 ^ m.growpower

/-- What a call of `hashmap_del` does to them. -/
structure DelSize (m m' : Hashmap α) (alloc : Bool) : Prop where
  limits : SameLimits m m'
  count : m'.count = m.count ∧ m'.nbuckets = m.nbuckets ∨
    m'.count + 1 = m.count ∧
      (m'.nbuckets = m.nbuckets ∧
          (m.cap < m.nbuckets → m'.count ≤ shrinkAt m.nbuckets → alloc = false) ∨
        m.cap < m.nbuckets ∧ m'.count ≤ shrinkAt m.nbuckets ∧ m'.nbuckets = m.nbuckets / 2)

/-- The items that a call moves from the table of `m` to the one of `m'`, if that has another size. -/
def Op.moves (m m' : Hashmap α) : Op α → Nat
  | .set .. => if m'.nbuckets = m.nbuckets then 0 else m.count
  | .del .. => if m'.nbuckets = m.nbuckets then 0 else m'.count
  | _ => 0

def Op.isPower : Op α → Bool
  | .setGrowByPower _ => true
  | _ => false

/-- Whether the memory suffices, when there is a need for it. -/
def Op.allocates : Op α → Bool
  | .set _ alloc | .del _ alloc => alloc
  | _ => true

/-- What a call is charged with. -/
def Op.price : Op α → Nat
  | .set .. => 2
  | .del .. => 1
  | _ => 0

/-- What was paid and is not used up: the table is on the way to be moved. -/
def potential (m : Hashmap α) : Nat :=
  max (2 * m.count - growAt m.nbuckets)
    (if m.cap < m.nbuckets then shrinkAt (2 * m.nbuckets) - m.count else 0)

theorem potential_eq_zero (hcount : m.count = 0) (hcap : m.cap = m.nbuckets) :
    m.potential = 0 := by
  rw [potential, hcount, if_neg (by omega)]
  omega

/-- A table that is larger than the capacity has more items than one that shrinks. -/
def Tight (m : Hashmap α) : Prop := m.cap < m.nbuckets → shrinkAt m.nbuckets < m.count

theorem SetSize.tight (h : SetSize m m' true) (hinv : Inv cfg key m) (hpow : m.growpower = 1)
    (ht : Tight m) : Tight m' := by
  obtain ⟨⟨hcap, -⟩, hcount, hsize⟩ := h
  have hlarge := Nat.le_trans hinv.least hinv.cap_le
  unfold Tight at *
  rw [hcap]
  rcases hsize with ⟨hsame, -⟩ | ⟨hfull, hsize⟩
  · rw [hsame]
    omega
  · rw [hpow] at hsize
    rw [hsize]
    unfold growAt shrinkAt at *
    omega

theorem DelSize.tight (h : DelSize m m' true) (hinv : Inv cfg key m) (ht : Tight m) :
    Tight m' := by
  obtain ⟨⟨hcap, -⟩, hcount⟩ := h
  have hlarge := hinv.least
  unfold Tight at *
  rw [hcap]
  rcases hcount with ⟨hcount, hsame⟩ | ⟨hcount, ⟨hsame, hnot⟩ | ⟨hlt, hfew, hsize⟩⟩
  · rw [hcount, hsame]
    exact ht
  · rw [hsame]
    intro hlt
    by_contra hle
    exact Bool.noConfusion (hnot hlt (Nat.not_lt.mp hle))
  · -- it had one item more than those with which it shrinks
    have hbefore := ht hlt
    rw [hsize]
    unfold shrinkAt at *
    omega

theorem SetSize.pays {alloc : Bool} (h : SetSize m m' alloc) (hinv : Inv cfg key m)
    (hpow : m.growpower = 1) :
    (if m'.nbuckets = m.nbuckets then 0 else m.count) + m'.potential ≤ m.potential + 2 := by
  obtain ⟨⟨hcap, -⟩, hcount, hsize⟩ := h
  have hlarge := Nat.le_trans hinv.least hinv.cap_le
  unfold potential
  rw [hcap]
  rcases hsize with ⟨hsame, -⟩ | ⟨hfull, hsize⟩
  · rw [hsame, if_pos rfl]
    split_ifs <;> omega
  · rw [hpow] at hsize
    rw [if_neg (by omega)]
    unfold growAt shrinkAt at *
    split_ifs <;> omega

theorem DelSize.pays {alloc : Bool} (h : DelSize m m' alloc) (hinv : Inv cfg key m) :
    (if m'.nbuckets = m.nbuckets then 0 else m'.count) + m'.potential ≤ m.potential + 1 := by
  obtain ⟨⟨hcap, -⟩, hcount⟩ := h
  have hlarge := Nat.le_trans hinv.least hinv.cap_le
  unfold potential
  rw [hcap]
  rcases hcount with ⟨hcount, hsame⟩ | ⟨hcount, ⟨hsame, -⟩ | ⟨hlt, hfew, hsize⟩⟩
  · rw [hcount, hsame, if_pos rfl]
    omega
  · rw [hsame, if_pos rfl]
    split_ifs <;> omega
  · rw [if_neg (by omega), if_pos hlt]
    unfold growAt shrinkAt at *
    split_ifs <;> omega

variable [Inhabited α]

theorem resize0_size {newCap : Nat} (h : m.resize0 newCap = some m') :
    m'.nbuckets = roundUp newCap newCap 16 ∧ m'.count = m.count ∧ SameLimits m m' := by
  rw [resize0, Option.bind_eq_bind, Option.bind_eq_some_iff] at h
  obtain ⟨buckets, -, h⟩ := h
  cases h
  exact ⟨rfl, rfl, rfl, rfl⟩

theorem resize_size {newCap : Nat} {alloc ok : Bool} (h : m.resize newCap alloc = some (m', ok)) :
    ok = alloc ∧ m'.nbuckets = (if alloc then roundUp newCap newCap 16 else m.nbuckets) ∧
      m'.count = m.count ∧ SameLimits m m' := by
  cases alloc with
  | false =>
    cases h
    exact ⟨rfl, rfl, rfl, rfl, rfl⟩
  | true =>
    rw [resize, if_pos rfl, Option.bind_eq_bind, Option.bind_eq_some_iff] at h
    obtain ⟨m₁, hm₁, h⟩ := h
    cases h
    exact ⟨rfl, resize0_size hm₁⟩

theorem makeRoom_size (h : Inv cfg key m) {alloc ok : Bool}
    (hroom : m.makeRoom alloc = some (m', ok)) :
    m'.count = m.count ∧ SameLimits m m' ∧
      (m'.nbuckets = m.nbuckets ∧ (m.count = growAt m.nbuckets → alloc = false) ∨
        m.count = growAt m.nbuckets ∧ m'.nbuckets = m.nbuckets * 2 ^ m.growpower) := by
  unfold makeRoom at hroom
  split at hroom
  · rename_i hfull
    rw [h.growat] at hfull
    have heq := Nat.le_antisymm h.load hfull
    obtain ⟨-, hsize, hcount, hlimits⟩ := resize_size hroom
    refine ⟨hcount, hlimits, ?_⟩
    cases alloc with
    | false => exact Or.inl ⟨hsize, fun _ => rfl⟩
    | true =>
      have hlarge : 16 ≤ m.nbuckets * 2 ^ m.growpower :=
        Nat.le_trans (Nat.le_trans h.least h.cap_le)
          (Nat.le_mul_of_pos_right _ (Nat.two_pow_pos _))
      rw [if_pos rfl, roundUp_pow_eq (two_pow_mul m.nbuckets_pow _) hlarge] at hsize
      exact Or.inr ⟨heq, hsize⟩
  · rename_i hfull
    cases hroom
    rw [h.growat] at hfull
    exact ⟨rfl, ⟨rfl, rfl⟩, Or.inl ⟨rfl, fun heq => absurd (Nat.le_of_eq heq.symm) hfull⟩⟩

theorem set_size (h : Inv cfg key m) {alloc : Bool} {old : Option α}
    (hset : m.set cfg a alloc = some (m', old)) : SetSize m m' alloc := by
  rw [set, setWithHash, Option.bind_eq_bind, Option.bind_eq_some_iff] at hset
  obtain ⟨⟨m₁, ok⟩, hroom, hset⟩ := hset
  obtain ⟨hcount, hlimits, hsize⟩ := makeRoom_size (h.withOom false) hroom
  simp only at hset
  split at hset
  · rw [Option.bind_eq_bind, Option.bind_eq_some_iff] at hset
    obtain ⟨⟨buckets, old'⟩, -, hset⟩ := hset
    cases hset
    refine ⟨hlimits, ?_, hsize⟩
    rw [← hcount]
    cases old' with
    | none => exact Or.inr rfl
    | some b => exact Or.inl rfl
  · cases hset
    exact ⟨hlimits, Or.inl hcount, hsize⟩

theorem remove_size (h : Inv cfg key m) {i : Fin m.nbuckets} (hi : (m.buckets.get i).dib ≠ 0)
    {alloc : Bool} (hrem : m.remove i alloc = some m') : DelSize m m' alloc := by
  have hpos : 0 < m.count := by
    rw [h.count, contents_busy hi, Multiset.card_cons]
    exact Nat.succ_pos _
  rw [remove, Option.bind_eq_bind, Option.bind_eq_some_iff] at hrem
  obtain ⟨buckets, -, hrem⟩ := hrem
  simp only at hrem
  split at hrem
  · rename_i hshrink
    obtain ⟨hcap, hfew⟩ := hshrink
    rw [h.shrinkat] at hfew
    rw [Option.bind_eq_bind, Option.bind_eq_some_iff] at hrem
    obtain ⟨⟨m₁, ok⟩, hres, hrem⟩ := hrem
    cases hrem
    obtain ⟨-, hsize, hcount, hlimits⟩ := resize_size hres
    replace hcount : m₁.count = m.count - 1 := hcount
    refine ⟨hlimits, Or.inr ⟨by show m₁.count + 1 = m.count; omega, ?_⟩⟩
    cases alloc with
    | false => exact Or.inl ⟨hsize, fun _ _ => rfl⟩
    | true =>
      have hlarge : 16 ≤ m.nbuckets / 2 :=
        Nat.le_trans h.least (le_half m.cap_pow m.nbuckets_pow hcap)
      rw [if_pos rfl, roundUp_pow_eq (half_pow m.nbuckets_pow (by omega)) hlarge] at hsize
      exact Or.inr ⟨hcap, hcount ▸ hfew, hsize⟩
  · rename_i hshrink
    cases hrem
    rw [h.shrinkat] at hshrink
    refine ⟨⟨rfl, rfl⟩, Or.inr ⟨Nat.sub_add_cancel hpos, Or.inl ⟨rfl, fun hcap hfew => ?_⟩⟩⟩
    exact absurd ⟨hcap, hfew⟩ hshrink

theorem del_size (hk : Keyed cfg key) (h : Inv cfg key m) {alloc : Bool} {old : Option α}
    (hdel : m.del cfg a alloc = some (m', old)) : DelSize m m' alloc := by
  obtain ⟨r, hr, hfinds⟩ := get_spec hk (h.withOom false) a
  rw [get] at hr
  unfold del delWithHash at hdel
  cases r with
  | none =>
    simp only [hr, Option.bind_some] at hdel
    cases hdel
    exact ⟨⟨rfl, rfl⟩, Or.inl ⟨rfl, rfl⟩⟩
  | some i =>
    simp only [hr, Option.bind_some, Option.bind_eq_bind, Option.bind_eq_some_iff] at hdel
    obtain ⟨m₁, hrem, hdel⟩ := hdel
    cases hdel
    obtain ⟨hlimits, hcount⟩ := remove_size (h.withOom false) hfinds.1 hrem
    exact ⟨hlimits, hcount⟩

/-- The sizes stay. -/
structure SameSize (m m' : Hashmap α) : Prop where
  limits : SameLimits m m'
  count : m'.count = m.count
  nbuckets : m'.nbuckets = m.nbuckets

/-- What a call does to the sizes. -/
theorem step_size (hk : Keyed cfg key) (h : Inv cfg key m) {op : Op α} {answer : Answer α}
    (hstep : m.step cfg op = some (m', answer)) :
    match op with
    | .set _ alloc => SetSize m m' alloc
    | .del _ alloc => DelSize m m' alloc
    | .get _ | .modify .. => SameSize m m'
    | .clear updateCap => m' = m.clear updateCap
    | .setGrowByPower power => m' = m.setGrowByPower power := by
  cases op with
  | set a alloc =>
    rw [step, Option.bind_eq_bind, Option.bind_eq_some_iff] at hstep
    obtain ⟨⟨m₁, old⟩, hset, hstep⟩ := hstep
    cases hstep
    exact set_size h hset
  | get a =>
    obtain ⟨r, hm₁, -⟩ := get_spec hk h a
    rw [step, hm₁] at hstep
    cases hstep
    exact ⟨⟨rfl, rfl⟩, rfl, rfl⟩
  | modify a f =>
    obtain ⟨r, hm₁, -⟩ := get_spec hk h a
    rw [step, hm₁] at hstep
    cases r with
    | none =>
      cases hstep
      exact ⟨⟨rfl, rfl⟩, rfl, rfl⟩
    | some i =>
      cases hstep
      exact ⟨⟨rfl, rfl⟩, rfl, rfl⟩
  | del a alloc =>
    rw [step, Option.bind_eq_bind, Option.bind_eq_some_iff] at hstep
    obtain ⟨⟨m₁, old⟩, hdel, hstep⟩ := hstep
    cases hstep
    exact del_size hk h hdel
  | clear updateCap =>
    cases hstep
    rfl
  | setGrowByPower power =>
    cases hstep
    rfl

omit [Inhabited α] in
theorem SameSize.pays (h : SameSize m m') : 0 + m'.potential ≤ m.potential + 0 := by
  unfold potential
  rw [h.limits.1, h.count, h.nbuckets, Nat.zero_add, Nat.add_zero]

omit [Inhabited α] in
theorem SameSize.tight (h : SameSize m m') (ht : Tight m) : Tight m' := by
  unfold Tight at *
  rw [h.limits.1, h.count, h.nbuckets]
  exact ht

/-! ## Runs -/

def moved (cfg : Config α) (s : Option (Hashmap α)) (op : Op α) : Nat :=
  match s with
  | none => 0
  | some m =>
    match m.step cfg op with
    | none => 0
    | some (m', _) => op.moves m m'

/-- A call is paid for by its price and by what earlier calls left. -/
theorem step_pays (hk : Keyed cfg key) (h : Inv cfg key m) {op : Op α} (hfits : op.Fits key m)
    (hpow : m.growpower = 1) (hop : op.isPower = false) {answer : Answer α}
    (hstep : m.step cfg op = some (m', answer)) :
    m'.growpower = 1 ∧ moved cfg (some m) op + m'.potential ≤ m.potential + op.price := by
  have hmoved : moved cfg (some m) op = op.moves m m' := by simp only [moved, hstep]
  rw [hmoved]
  have hsize := step_size hk h hstep
  cases op with
  | set a alloc => exact ⟨hsize.limits.2.trans hpow, hsize.pays h hpow⟩
  | del a alloc => exact ⟨hsize.limits.2.trans hpow, hsize.pays h⟩
  | get a => exact ⟨hsize.limits.2.trans hpow, hsize.pays⟩
  | modify a f => exact ⟨hsize.limits.2.trans hpow, hsize.pays⟩
  | clear updateCap =>
    have hzero : (m.clear updateCap).potential = 0 := potential_eq_zero rfl rfl
    obtain rfl : m' = m.clear updateCap := hsize
    exact ⟨hpow, by rw [hzero]; exact Nat.zero_le _⟩
  | setGrowByPower power => cases hop

/-- All the items that the calls of a run move, together. -/
def allMoved (cfg : Config α) (cap : Nat) (ops : List (Op α)) : Nat :=
  (machine cfg cap).ghost 0 (fun total s op => total + moved cfg s op) ops

/-- With the grow power that a map begins with, the tables that are made anew in a run take two
moves for each call of `hashmap_set` and one for each of `hashmap_del`, at most. -/
theorem moves_amortized {cap : Nat} {ops : List (Op α)} (hk : Keyed cfg key)
    (h : Roomy cfg key cap ops) (hops : ∀ op ∈ ops, op.isPower = false) :
    allMoved cfg cap ops ≤ (ops.map Op.price).sum := by
  classical
  suffices hpaid : ∃ m, (machine cfg cap).exec ops = some m ∧ m.growpower = 1 ∧
      allMoved cfg cap ops + m.potential ≤ (ops.map Op.price).sum by
    obtain ⟨m, -, -, hle⟩ := hpaid
    omega
  induction ops using List.reverseRecOn with
  | nil =>
    have hzero : (new α cap).potential = 0 := potential_eq_zero rfl rfl
    exact ⟨new α cap, rfl, rfl, by rw [hzero]; exact Nat.zero_le _⟩
  | append_singleton pre op ih =>
    obtain ⟨m, hm, hpow, hle⟩ := ih h.of_snoc fun x hx => hops x (List.mem_append_left _ hx)
    obtain ⟨m', abs, hm', hinv, hr, -, -⟩ := machine_run hk h.of_snoc
    cases hm.symm.trans hm'
    obtain ⟨m', answer, -, hstep, -, -, -⟩ := step_spec hk hinv hr (h.last hm)
    have hop := hops op (List.mem_append_right _ (List.mem_singleton_self op))
    obtain ⟨hpow', hpays⟩ := step_pays hk hinv (h.last hm) hpow hop hstep
    refine ⟨m', (machine_snoc hm hstep).1, hpow', ?_⟩
    rw [allMoved] at hle ⊢
    rw [Machine.ghost_snoc, hm, List.map_append, List.sum_append, List.map_singleton,
      List.sum_singleton]
    omega

theorem moves_amortized_words :
    allMoved words 0 wordCalls ≤ (wordCalls.map Op.price).sum :=
  moves_amortized words_keyed wordCalls_roomy (by decide)

theorem step_tight (hk : Keyed cfg key) (h : Inv cfg key m) {op : Op α} (hpow : m.growpower = 1)
    (halloc : op.allocates = true) (ht : Tight m) {answer : Answer α}
    (hstep : m.step cfg op = some (m', answer)) : Tight m' := by
  have hsize := step_size hk h hstep
  cases op with
  | set a alloc =>
    cases halloc
    exact hsize.tight h hpow ht
  | del a alloc =>
    cases halloc
    exact hsize.tight h ht
  | get a => exact hsize.tight ht
  | modify a f => exact hsize.tight ht
  | clear updateCap =>
    obtain rfl : m' = m.clear updateCap := hsize
    exact fun hlt => absurd hlt (Nat.lt_irrefl _)
  | setGrowByPower power =>
    obtain rfl : m' = m.setGrowByPower power := hsize
    exact ht

/-- `hashmap_clear` can raise the capacity to the number of buckets. -/
def noteCap (g : Nat) (s : Option (Hashmap α)) : Op α → Nat
  | .clear true => (s.map Hashmap.nbuckets).getD g
  | _ => g

/-- The capacity after a run: the first one, or the number of buckets at the latest call of
`hashmap_clear` that updates it. -/
def capacity (cfg : Config α) (cap : Nat) (ops : List (Op α)) : Nat :=
  (machine cfg cap).ghost (new α cap).nbuckets noteCap ops

/-- The table is not smaller than the first one and far from where sizes wrap. -/
structure Sized (first known : Nat) (m : Hashmap α) : Prop where
  first_le : first ≤ m.cap
  cap : m.cap = known
  nbuckets_le : m.nbuckets ≤ 2 ^ 32
  growpower_le : m.growpower ≤ 16

theorem roundUp_le {cap fuel ncap k l : Nat} (hncap : ncap = 2 ^ k) (hkl : k ≤ l)
    (hcap : cap ≤ 2 ^ l) : roundUp cap fuel ncap ≤ 2 ^ l := by
  induction fuel generalizing ncap k with
  | zero =>
    rw [roundUp, hncap]
    exact Nat.pow_le_pow_right (by decide) hkl
  | succ fuel ih =>
    unfold roundUp
    split
    · rename_i hlt
      rw [hncap] at hlt
      have hkl' := (Nat.pow_lt_pow_iff_right (by decide : 1 < 2)).mp (Nat.lt_of_lt_of_le hlt hcap)
      exact ih (by rw [hncap, Nat.pow_succ]) hkl'
    · rw [hncap]
      exact Nat.pow_le_pow_right (by decide) hkl

theorem sized_new {cap : Nat} (hcap : cap ≤ 2 ^ 32) :
    Sized (new α cap).nbuckets (new α cap).nbuckets (new α cap) where
  first_le := Nat.le_refl _
  cap := rfl
  nbuckets_le := roundUp_le (k := 4) rfl (by decide) hcap
  growpower_le := show 1 ≤ 16 by decide

/-- A table that has to grow has few buckets. -/
theorem grown_le {n p count : Nat} (hn : ∃ k, n = 2 ^ k) (hp : p ≤ 16) (hcount : count ≤ 65535)
    (hfull : count = growAt n) : n * 2 ^ p ≤ 2 ^ 32 := by
  obtain ⟨k, rfl⟩ := hn
  have hlt : 2 ^ k < 2 ^ 17 := by
    unfold growAt at hfull
    omega
  have hk := (Nat.pow_lt_pow_iff_right (by decide : 1 < 2)).mp hlt
  rw [← Nat.pow_add]
  exact Nat.pow_le_pow_right (by decide) (by omega)

theorem step_sized {first known : Nat} (hk : Keyed cfg key) (h : Inv cfg key m)
    (hs : Sized first known m) {op : Op α} {answer : Answer α}
    (hstep : m.step cfg op = some (m', answer)) : Sized first (noteCap known (some m) op) m' := by
  have hsize := step_size hk h hstep
  cases op with
  | set a alloc =>
    obtain ⟨⟨hcap, hpow⟩, -, hnbuckets⟩ := hsize
    refine ⟨hcap ▸ hs.first_le, hcap.trans hs.cap, ?_, hpow ▸ hs.growpower_le⟩
    rcases hnbuckets with ⟨hsame, -⟩ | ⟨hfull, hgrown⟩
    · rw [hsame]
      exact hs.nbuckets_le
    · rw [hgrown]
      exact grown_le m.nbuckets_pow hs.growpower_le h.few hfull
  | del a alloc =>
    obtain ⟨⟨hcap, hpow⟩, hcount⟩ := hsize
    refine ⟨hcap ▸ hs.first_le, hcap.trans hs.cap, ?_, hpow ▸ hs.growpower_le⟩
    have hle := hs.nbuckets_le
    rcases hcount with ⟨-, hsame⟩ | ⟨-, ⟨hsame, -⟩ | ⟨-, -, hhalf⟩⟩
    · rw [hsame]
      exact hle
    · rw [hsame]
      exact hle
    · rw [hhalf]
      exact Nat.le_trans (Nat.div_le_self _ _) hle
  | get a =>
    obtain ⟨⟨hcap, hpow⟩, -, hsame⟩ := hsize
    exact ⟨hcap ▸ hs.first_le, hcap.trans hs.cap, hsame ▸ hs.nbuckets_le, hpow ▸ hs.growpower_le⟩
  | modify a f =>
    obtain ⟨⟨hcap, hpow⟩, -, hsame⟩ := hsize
    exact ⟨hcap ▸ hs.first_le, hcap.trans hs.cap, hsame ▸ hs.nbuckets_le, hpow ▸ hs.growpower_le⟩
  | clear updateCap =>
    obtain rfl : m' = m.clear updateCap := hsize
    cases updateCap with
    | false =>
      exact ⟨hs.first_le, hs.cap, Nat.le_trans h.cap_le hs.nbuckets_le, hs.growpower_le⟩
    | true =>
      exact ⟨Nat.le_trans hs.first_le h.cap_le, rfl, hs.nbuckets_le, hs.growpower_le⟩
  | setGrowByPower power =>
    obtain rfl : m' = m.setGrowByPower power := hsize
    refine ⟨hs.first_le, hs.cap, hs.nbuckets_le, ?_⟩
    show (if power < 1 then 1 else if power > 16 then 16 else power) ≤ 16
    split_ifs <;> omega

/-- In every run, whatever the grow power and whichever allocations fail. -/
theorem sized_run {cap : Nat} {ops : List (Op α)} (hk : Keyed cfg key)
    (h : Roomy cfg key cap ops) :
    ∃ m, (machine cfg cap).exec ops = some m ∧
      Sized (new α cap).nbuckets (capacity cfg cap ops) m := by
  classical
  induction ops using List.reverseRecOn with
  | nil => exact ⟨new α cap, rfl, sized_new h.cap_le⟩
  | append_singleton pre op ih =>
    obtain ⟨m, hm, hs⟩ := ih h.of_snoc
    obtain ⟨m', abs, hm', hinv, hr, -, -⟩ := machine_run hk h.of_snoc
    cases hm.symm.trans hm'
    obtain ⟨m', answer, -, hstep, -, -, -⟩ := step_spec hk hinv hr (h.last hm)
    refine ⟨m', (machine_snoc hm hstep).1, ?_⟩
    have hnext := step_sized hk hinv hs hstep
    rw [← hm] at hnext
    rw [capacity, Machine.ghost_snoc]
    exact hnext

/-- In every run the table is at least as large as the first one and has at most `2 ^ 32` buckets, of
which at most 60% are in use.  With the grow power that a map begins with and enough memory, a table
that is larger than the capacity has less than ten buckets for each item. -/
theorem sizes_tight {cap : Nat} {ops : List (Op α)} (hk : Keyed cfg key)
    (h : Roomy cfg key cap ops) :
    ∃ m, (machine cfg cap).exec ops = some m ∧ (new α cap).nbuckets ≤ m.nbuckets ∧
      m.nbuckets ≤ 2 ^ 32 ∧ m.count ≤ m.nbuckets * 60 / 100 ∧
      ((∀ op ∈ ops, op.isPower = false ∧ op.allocates = true) →
        capacity cfg cap ops < m.nbuckets → m.nbuckets < 10 * m.count) := by
  classical
  obtain ⟨m, hm, hs⟩ := sized_run hk h
  obtain ⟨m', abs, hm', hinv, -, -, -⟩ := machine_run hk h
  cases hm.symm.trans hm'
  refine ⟨m, hm, Nat.le_trans hs.first_le hinv.cap_le, hs.nbuckets_le, hinv.load,
    fun hops hlt => ?_⟩
  suffices hall : ∃ m, (machine cfg cap).exec ops = some m ∧ m.growpower = 1 ∧ Tight m by
    obtain ⟨m', hm', -, ht⟩ := hall
    cases hm.symm.trans hm'
    have hlarge := ht (by rw [hs.cap]; exact hlt)
    unfold shrinkAt at hlarge
    omega
  clear hm hs hm' hinv hlt
  induction ops using List.reverseRecOn with
  | nil => exact ⟨new α cap, rfl, rfl, fun hlt => absurd hlt (Nat.lt_irrefl _)⟩
  | append_singleton pre op ih =>
    obtain ⟨m, hm, hpow, ht⟩ := ih h.of_snoc fun x hx => hops x (List.mem_append_left _ hx)
    obtain ⟨m', abs, hm', hinv, hr, -, -⟩ := machine_run hk h.of_snoc
    cases hm.symm.trans hm'
    obtain ⟨m', answer, -, hstep, -, -, -⟩ := step_spec hk hinv hr (h.last hm)
    obtain ⟨hop, halloc⟩ := hops op (List.mem_append_right _ (List.mem_singleton_self op))
    exact ⟨m', (machine_snoc hm hstep).1,
      (step_pays hk hinv (h.last hm) hpow hop hstep).1, step_tight hk hinv hpow halloc ht hstep⟩

theorem sizes_tight_words :
    ∃ m, (machine words 0).exec wordCalls = some m ∧ (new UInt64 0).nbuckets ≤ m.nbuckets ∧
      m.nbuckets ≤ 2 ^ 32 ∧ m.count ≤ m.nbuckets * 60 / 100 ∧
      ((∀ op ∈ wordCalls, op.isPower = false ∧ op.allocates = true) →
        capacity words 0 wordCalls < m.nbuckets → m.nbuckets < 10 * m.count) :=
  sizes_tight words_keyed wordCalls_roomy

end Sizes

end CpuSubsystem.Hashmap
