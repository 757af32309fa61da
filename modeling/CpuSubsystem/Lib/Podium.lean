import CpuSubsystem.Lib.Latest
import Mathlib.Data.List.Count
import Mathlib.Logic.Function.Basic

/-!
# The three most frequent elements

A podium counts what occurs and keeps the three elements that occurred most.  An element that is on
the podium makes it sort its places, another one takes a place when its count exceeds that of the
third.  In the beginning all places are given to one element, and they can stay so for some time:
the places become distinct when two other elements are ahead of this one at the same time.
-/

namespace CpuSubsystem

structure Podium (α : Type*) where
  count : α → Nat
  first : α
  second : α
  third : α

namespace Podium

variable {α : Type*}

def start (d : α) : Podium α := ⟨fun _ => 0, d, d, d⟩

def sortSecond (p : Podium α) : Podium α :=
  if p.count p.second < p.count p.third then { p with second := p.third, third := p.second } else p

def sortFirst (p : Podium α) : Podium α :=
  if p.count p.first < p.count p.second then { p with first := p.second, second := p.first } else p

def sort (p : Podium α) : Podium α := p.sortSecond.sortFirst.sortSecond

def rank (p : Podium α) (a : α) : Podium α :=
  if p.count p.third < p.count a then
    if p.count p.second < p.count a then
      if p.count p.first < p.count a then
        { p with first := a, second := p.first, third := p.second }
      else { p with second := a, third := p.second }
    else { p with third := a }
  else p

/-- The places are in the order of the counts, and nothing else occurred more often. -/
structure Ordered (p : Podium α) : Prop where
  second_le : p.count p.second ≤ p.count p.first
  third_le : p.count p.third ≤ p.count p.second
  others : ∀ x, x ≠ p.first → x ≠ p.second → x ≠ p.third → p.count x ≤ p.count p.third

structure Distinct (p : Podium α) : Prop where
  first_second : p.first ≠ p.second
  second_third : p.second ≠ p.third
  first_third : p.first ≠ p.third

section Places

variable {p : Podium α} {a x : α}

theorem sort_count (p : Podium α) : p.sort.count = p.count := by
  unfold sort sortSecond sortFirst
  split_ifs <;> rfl

theorem rank_count (p : Podium α) (a : α) : (p.rank a).count = p.count := by
  unfold rank
  split_ifs <;> rfl

/-- Three exchanges of neighbours sort the places. -/
theorem ordered_sort
    (h : ∀ x, x ≠ p.first → x ≠ p.second → x ≠ p.third →
      p.count x ≤ p.count p.first ∧ p.count x ≤ p.count p.second ∧ p.count x ≤ p.count p.third) :
    p.sort.Ordered := by
  unfold sort sortSecond sortFirst
  split_ifs <;> constructor <;> grind

theorem Distinct.sort (h : p.Distinct) : p.sort.Distinct := by
  obtain ⟨h₁, h₂, h₃⟩ := h
  unfold Podium.sort sortSecond sortFirst
  split_ifs <;> constructor <;> grind

/-- An element that is not on the podium and occurred once more takes its place. -/
theorem ordered_rank (hsecond : p.count p.second ≤ p.count p.first)
    (hthird : p.count p.third ≤ p.count p.second)
    (h : ∀ x, x ≠ a → x ≠ p.first → x ≠ p.second → x ≠ p.third → p.count x ≤ p.count p.third) :
    (p.rank a).Ordered := by
  unfold rank
  split_ifs <;> constructor <;> grind

theorem Distinct.rank (h : p.Distinct) (hfirst : a ≠ p.first) (hsecond : a ≠ p.second) :
    (p.rank a).Distinct := by
  obtain ⟨h₁, h₂, h₃⟩ := h
  unfold Podium.rank
  split_ifs <;> constructor <;> grind

/-- Two equal places at the front. -/
theorem sort_front (c : α → Nat) (d z : α) :
    sort ⟨c, d, d, z⟩ = if c d < c z then ⟨c, z, d, d⟩ else ⟨c, d, d, z⟩ := by
  unfold sort sortSecond sortFirst
  by_cases h : c d < c z
  · simp [h]
  · simp [h]

theorem rank_front (c : α → Nat) (d z a : α) :
    rank ⟨c, d, d, z⟩ a =
      if c z < c a then if c d < c a then ⟨c, a, d, d⟩ else ⟨c, d, d, a⟩ else ⟨c, d, d, z⟩ := by
  unfold rank
  split_ifs <;> rfl

/-- Two equal places at the back. -/
theorem sort_back (c : α → Nat) (y d : α) :
    sort ⟨c, y, d, d⟩ = if c y < c d then ⟨c, d, d, y⟩ else ⟨c, y, d, d⟩ := by
  unfold sort sortSecond sortFirst
  by_cases h : c y < c d
  · simp [h]
  · simp [h]

theorem rank_back (c : α → Nat) (y d a : α) :
    rank ⟨c, y, d, d⟩ a =
      if c d < c a then if c y < c a then ⟨c, a, y, d⟩ else ⟨c, y, a, d⟩ else ⟨c, y, d, d⟩ := by
  unfold rank
  split_ifs <;> rfl

end Places

variable [DecidableEq α]

def incr (p : Podium α) (a : α) : Podium α :=
  { p with count := Function.update p.count a (p.count a + 1) }

def update (p : Podium α) (a : α) : Podium α :=
  let p' := p.incr a
  if a = p'.first ∨ a = p'.second ∨ a = p'.third then p'.sort else p'.rank a

def run (d : α) (l : List α) : Podium α := l.foldl update (start d)

section Updates

variable {p : Podium α} {a d x : α} {l : List α}

theorem incr_count_self (p : Podium α) (a : α) : (p.incr a).count a = p.count a + 1 :=
  Function.update_self _ _ _

theorem incr_count_of_ne (p : Podium α) (h : x ≠ a) : (p.incr a).count x = p.count x :=
  Function.update_of_ne h _ _

theorem le_incr_count (p : Podium α) (a x : α) : p.count x ≤ (p.incr a).count x := by
  by_cases h : x = a
  · rw [h, incr_count_self]
    exact Nat.le_succ _
  · rw [incr_count_of_ne p h]

theorem update_of_mem (h : a = p.first ∨ a = p.second ∨ a = p.third) :
    p.update a = (p.incr a).sort := if_pos h

theorem update_of_not_mem (h : ¬ (a = p.first ∨ a = p.second ∨ a = p.third)) :
    p.update a = (p.incr a).rank a := if_neg h

theorem update_count (p : Podium α) (a : α) : (p.update a).count = (p.incr a).count := by
  unfold update
  simp only
  split
  · exact sort_count _
  · exact rank_count _ _

theorem run_snoc (d : α) (l : List α) (a : α) : run d (l ++ [a]) = (run d l).update a := by
  rw [run, List.foldl_append]
  rfl

theorem foldl_count (p : Podium α) (l : List α) (x : α) :
    (l.foldl update p).count x = p.count x + l.count x := by
  induction l using List.reverseRecOn with
  | nil => rfl
  | append_singleton l a ih =>
    rw [List.foldl_append, List.foldl_cons, List.foldl_nil, update_count, List.count_append]
    by_cases h : x = a
    · rw [h, incr_count_self, List.count_singleton_self, ← h, ih]
      omega
    · rw [incr_count_of_ne _ h, ih, List.count_singleton, if_neg]
      · rfl
      · simp [Ne.symm h]

theorem run_count (d : α) (l : List α) (x : α) : (run d l).count x = l.count x := by
  rw [run, foldl_count]
  exact Nat.zero_add _

theorem Ordered.update (h : p.Ordered) (a : α) : (p.update a).Ordered := by
  unfold Podium.update
  simp only
  have hfirst := le_incr_count p a p.first
  have hsecond := le_incr_count p a p.second
  have hthird := le_incr_count p a p.third
  obtain ⟨h₁, h₂, hothers⟩ := h
  split
  · rename_i ha
    apply ordered_sort
    intro x hx₁ hx₂ hx₃
    -- the element that occurred is on the podium, so the others are as they were
    have hxa : x ≠ a := by
      rintro rfl
      rcases ha with ha | ha | ha
      · exact hx₁ ha
      · exact hx₂ ha
      · exact hx₃ ha
    have hx := hothers x hx₁ hx₂ hx₃
    rw [incr_count_of_ne p hxa]
    change _ ≤ (p.incr a).count p.first ∧ _ ≤ (p.incr a).count p.second ∧
      _ ≤ (p.incr a).count p.third
    omega
  · rename_i ha
    obtain ⟨ha₁, ha₂, ha₃⟩ : a ≠ p.first ∧ a ≠ p.second ∧ a ≠ p.third :=
      ⟨fun h => ha (Or.inl h), fun h => ha (Or.inr (Or.inl h)), fun h => ha (Or.inr (Or.inr h))⟩
    have hc₁ : (p.incr a).count p.first = p.count p.first := incr_count_of_ne p ha₁.symm
    have hc₂ : (p.incr a).count p.second = p.count p.second := incr_count_of_ne p ha₂.symm
    have hc₃ : (p.incr a).count p.third = p.count p.third := incr_count_of_ne p ha₃.symm
    apply ordered_rank
    · show (p.incr a).count p.second ≤ (p.incr a).count p.first
      omega
    · show (p.incr a).count p.third ≤ (p.incr a).count p.second
      omega
    · intro x hxa hx₁ hx₂ hx₃
      show (p.incr a).count x ≤ (p.incr a).count p.third
      rw [incr_count_of_ne p hxa, hc₃]
      exact hothers x hx₁ hx₂ hx₃

theorem Distinct.update (h : p.Distinct) (a : α) : (p.update a).Distinct := by
  unfold Podium.update
  simp only
  split
  · exact Distinct.sort ⟨h.first_second, h.second_third, h.first_third⟩
  · rename_i ha
    have hincr : (p.incr a).Distinct := ⟨h.first_second, h.second_third, h.first_third⟩
    apply hincr.rank
    · exact fun h => ha (Or.inl h)
    · exact fun h => ha (Or.inr (Or.inl h))

/-- The places stay in order, whatever occurs. -/
theorem Ordered.foldl (h : p.Ordered) (l : List α) : (l.foldl Podium.update p).Ordered := by
  induction l generalizing p with
  | nil => exact h
  | cons a l ih => exact ih (h.update a)

theorem Distinct.foldl (h : p.Distinct) (l : List α) : (l.foldl Podium.update p).Distinct := by
  induction l generalizing p with
  | nil => exact h
  | cons a l ih => exact ih (h.update a)

theorem ordered_run (d : α) (l : List α) : (run d l).Ordered :=
  Ordered.foldl ⟨Nat.le_refl _, Nat.le_refl _, fun _ _ _ _ => Nat.le_refl _⟩ l

end Updates

section Start

variable {a d x y : α} {l : List α}

/-- `x` is ahead of `d`: it occurred more often, or as often and `d` caught up with it. -/
def Ahead (d : α) (l : List α) (x : α) : Prop :=
  x ≠ d ∧ (l.count d < l.count x ∨
    l.count d = l.count x ∧
      latest (fun a => if a = d then some true else if a = x then some false else none) l =
        some true)

instance (d : α) (l : List α) (x : α) : Decidable (Ahead d l x) :=
  inferInstanceAs (Decidable (_ ∧ (_ ∨ _ ∧ _)))

/-- At some moment two elements were ahead of `d`. -/
def Overtaken (d : α) (l : List α) : Prop :=
  ∃ pre, pre <+: l ∧ ∃ x y, x ≠ y ∧ Ahead d pre x ∧ Ahead d pre y

theorem ahead_snoc_self (hx : x ≠ d) : Ahead d (l ++ [x]) x ↔ l.count d < l.count x + 1 := by
  unfold Ahead
  rw [latest_snoc_some l (show (if x = d then _ else _) = some false by rw [if_neg hx, if_pos rfl]),
    List.count_append, List.count_append, List.count_singleton_self, List.count_singleton,
    if_neg (by simpa using hx)]
  simp [hx]

theorem ahead_snoc_start (hx : x ≠ d) : Ahead d (l ++ [d]) x ↔ l.count d + 1 ≤ l.count x := by
  unfold Ahead
  rw [latest_snoc_some l (if_pos rfl), List.count_append, List.count_append,
    List.count_singleton_self, List.count_singleton, if_neg (by simpa using hx.symm)]
  simp only [ne_eq, hx, not_false_eq_true, true_and, and_true, Nat.add_zero]
  omega

theorem ahead_snoc_of_ne (hd : a ≠ d) (hx : a ≠ x) : Ahead d (l ++ [a]) x ↔ Ahead d l x := by
  unfold Ahead
  rw [latest_snoc_none l (show (if a = d then _ else _) = none by rw [if_neg hd, if_neg hx]),
    List.count_append, List.count_append, List.count_singleton, List.count_singleton,
    if_neg (by simpa using hd), if_neg (by simpa using hx)]
  rfl

theorem not_ahead_nil (d x : α) : ¬ Ahead d [] x := by
  rintro ⟨-, h | ⟨-, h⟩⟩
  · exact Nat.lt_irrefl _ h
  · cases h

/-- The places while they are not distinct: at most one element is ahead of `d`. -/
inductive Doubled (d : α) (l : List α) (p : Podium α) : Prop where
  | behind (hfirst : p.first = d) (hsecond : p.second = d) (h : ∀ x, ¬ Ahead d l x)
  | one (hfirst : p.first ≠ d) (hsecond : p.second = d) (hthird : p.third = d)
      (h : ∀ x, Ahead d l x ↔ x = p.first)

theorem doubled_nil (d : α) : Doubled d [] (start d) := .behind rfl rfl (not_ahead_nil d)

end Start

section Steps

variable {a d y z : α} {c : α → Nat} {l : List α}

/-- `d` on the first two places occurs again. -/
theorem update_front_start (hz : c z ≤ c d) :
    (⟨c, d, d, z⟩ : Podium α).update d = ⟨Function.update c d (c d + 1), d, d, z⟩ := by
  have hlt : ¬ Function.update c d (c d + 1) d < Function.update c d (c d + 1) z := by
    by_cases hzd : z = d
    · rw [hzd]
      exact Nat.lt_irrefl _
    · rw [Function.update_self, Function.update_of_ne hzd]
      omega
  rw [update_of_mem (Or.inl rfl)]
  show sort ⟨Function.update c d (c d + 1), d, d, z⟩ = _
  rw [sort_front, if_neg hlt]

/-- An element gets ahead of `d`. -/
theorem update_front_ahead (had : a ≠ d) (hz : c z ≤ c d) (hlt : c d < c a + 1) :
    (⟨c, d, d, z⟩ : Podium α).update a = ⟨Function.update c a (c a + 1), a, d, d⟩ := by
  have hd : Function.update c a (c a + 1) d = c d := Function.update_of_ne (Ne.symm had) _ _
  have ha : Function.update c a (c a + 1) a = c a + 1 := Function.update_self _ _ _
  by_cases haz : a = z
  · rw [update_of_mem (Or.inr (Or.inr haz))]
    show sort ⟨Function.update c a (c a + 1), d, d, z⟩ = _
    rw [sort_front, ← haz, hd, ha, if_pos hlt]
  · have hold : Function.update c a (c a + 1) z = c z := Function.update_of_ne (Ne.symm haz) _ _
    rw [update_of_not_mem (by simp [had, haz])]
    show rank ⟨Function.update c a (c a + 1), d, d, z⟩ a = _
    rw [rank_front, hd, ha, hold, if_pos (by omega), if_pos hlt]

/-- An element does not get ahead of `d`, which keeps the first two places. -/
theorem update_front_behind (had : a ≠ d) (hlt : ¬ c d < c a + 1) :
    ∃ z', (⟨c, d, d, z⟩ : Podium α).update a = ⟨Function.update c a (c a + 1), d, d, z'⟩ := by
  have hd : Function.update c a (c a + 1) d = c d := Function.update_of_ne (Ne.symm had) _ _
  have ha : Function.update c a (c a + 1) a = c a + 1 := Function.update_self _ _ _
  by_cases haz : a = z
  · refine ⟨a, ?_⟩
    rw [update_of_mem (Or.inr (Or.inr haz))]
    show sort ⟨Function.update c a (c a + 1), d, d, z⟩ = _
    rw [sort_front, ← haz, hd, ha, if_neg hlt]
  · rw [update_of_not_mem (by simp [had, haz])]
    show ∃ z', rank ⟨Function.update c a (c a + 1), d, d, z⟩ a = _
    rw [rank_front, hd, ha, if_neg hlt]
    split
    · exact ⟨a, rfl⟩
    · exact ⟨z, rfl⟩

/-- `d` behind `y` occurs again. -/
theorem update_back_start (hyd : y ≠ d) :
    (⟨c, y, d, d⟩ : Podium α).update d =
      if c y < c d + 1 then ⟨Function.update c d (c d + 1), d, d, y⟩
      else ⟨Function.update c d (c d + 1), y, d, d⟩ := by
  have hy : Function.update c d (c d + 1) y = c y := Function.update_of_ne hyd _ _
  rw [update_of_mem (Or.inr (Or.inl rfl))]
  show sort ⟨Function.update c d (c d + 1), y, d, d⟩ = _
  rw [sort_back, hy, Function.update_self]

/-- The element ahead of `d` occurs again. -/
theorem update_back_first (hyd : y ≠ d) (hle : c d ≤ c y) :
    (⟨c, y, d, d⟩ : Podium α).update y = ⟨Function.update c y (c y + 1), y, d, d⟩ := by
  have hd : Function.update c y (c y + 1) d = c d := Function.update_of_ne (Ne.symm hyd) _ _
  rw [update_of_mem (Or.inl rfl)]
  show sort ⟨Function.update c y (c y + 1), y, d, d⟩ = _
  rw [sort_back, hd, Function.update_self, if_neg (by omega)]

/-- Another element occurs, and gets ahead of `d` as well or not. -/
theorem update_back_other (hyd : y ≠ d) (had : a ≠ d) (hay : a ≠ y) :
    (¬ c d < c a + 1 →
      (⟨c, y, d, d⟩ : Podium α).update a = ⟨Function.update c a (c a + 1), y, d, d⟩) ∧
    (c d < c a + 1 → ((⟨c, y, d, d⟩ : Podium α).update a).Distinct) := by
  have hd : Function.update c a (c a + 1) d = c d := Function.update_of_ne (Ne.symm had) _ _
  have ha : Function.update c a (c a + 1) a = c a + 1 := Function.update_self _ _ _
  rw [update_of_not_mem (by simp [had, hay])]
  show (_ → rank ⟨Function.update c a (c a + 1), y, d, d⟩ a = _) ∧
    (_ → (rank ⟨Function.update c a (c a + 1), y, d, d⟩ a).Distinct)
  rw [rank_back, hd, ha]
  constructor
  · intro hlt
    rw [if_neg hlt]
  · intro hlt
    rw [if_pos hlt]
    split
    · exact ⟨hay, hyd, had⟩
    · exact ⟨Ne.symm hay, had, hyd⟩

/-- While nothing is ahead of `d`. -/
theorem Doubled.step_behind (ho : Ordered ⟨c, d, d, z⟩) (hc : ∀ x, c x = l.count x)
    (h : ∀ x, ¬ Ahead d l x) (a : α) : Doubled d (l ++ [a]) (update ⟨c, d, d, z⟩ a) := by
  obtain ⟨-, hz, hothers⟩ := ho
  dsimp only at hz hothers
  have hle : ∀ x, c x ≤ c d := by
    intro x
    by_cases hxd : x = d
    · rw [hxd]
    · by_cases hxz : x = z
      · rw [hxz]
        exact hz
      · exact (hothers x hxd hxd hxz).trans hz
  by_cases had : a = d
  · -- `d` moves away from the others
    rw [had, update_front_start hz]
    refine .behind rfl rfl fun x hx => ?_
    have hxle := hle x
    rw [ahead_snoc_start hx.1, ← hc, ← hc] at hx
    omega
  · have hself : Ahead d (l ++ [a]) a ↔ c d < c a + 1 := by rw [ahead_snoc_self had, hc, hc]
    have hold : ∀ x, x ≠ a → ¬ Ahead d (l ++ [a]) x := by
      intro x hxa
      rw [ahead_snoc_of_ne had (Ne.symm hxa)]
      exact h x
    by_cases hlt : c d < c a + 1
    · rw [update_front_ahead had hz hlt]
      refine .one had rfl rfl fun x => ⟨fun hx => ?_, ?_⟩
      · by_contra hxa
        exact hold x hxa hx
      · rintro rfl
        exact hself.mpr hlt
    · obtain ⟨z', hup⟩ := update_front_behind (z := z) had hlt
      rw [hup]
      refine .behind rfl rfl fun x hx => ?_
      by_cases hxa : x = a
      · rw [hxa] at hx
        exact hlt (hself.mp hx)
      · exact hold x hxa hx

/-- While `y` alone is ahead of `d`. -/
theorem Doubled.step_one (ho : Ordered ⟨c, y, d, d⟩) (hc : ∀ x, c x = l.count x) (hyd : y ≠ d)
    (h : ∀ x, Ahead d l x ↔ x = y) (a : α) :
    Doubled d (l ++ [a]) (update ⟨c, y, d, d⟩ a) ∨
    (update ⟨c, y, d, d⟩ a).Distinct ∧
      ∃ x y, x ≠ y ∧ Ahead d (l ++ [a]) x ∧ Ahead d (l ++ [a]) y := by
  obtain ⟨hy, -, hothers⟩ := ho
  dsimp only at hy hothers
  by_cases had : a = d
  · left
    -- `d` catches up with `y`, or does not
    have hahead : ∀ x, Ahead d (l ++ [d]) x → x = y ∧ c d + 1 ≤ c y := by
      intro x hx
      have hxd := hx.1
      rw [ahead_snoc_start hxd, ← hc, ← hc] at hx
      have hxy : x = y := by
        by_contra hxy
        have hxle := hothers x hxy hxd hxd
        omega
      exact ⟨hxy, hxy ▸ hx⟩
    rw [had, update_back_start hyd]
    split
    · refine .behind rfl rfl fun x hx => ?_
      have hyx := (hahead x hx).2
      omega
    · refine .one hyd rfl rfl fun x => ⟨fun hx => (hahead x hx).1, ?_⟩
      rintro rfl
      rw [ahead_snoc_start hyd, ← hc, ← hc]
      omega
  · have hself : Ahead d (l ++ [a]) a ↔ c d < c a + 1 := by rw [ahead_snoc_self had, hc, hc]
    have hold : ∀ x, x ≠ a → (Ahead d (l ++ [a]) x ↔ x = y) := by
      intro x hxa
      rw [ahead_snoc_of_ne had (Ne.symm hxa)]
      exact h x
    by_cases hay : a = y
    · -- `y` moves away from `d`
      left
      subst hay
      rw [update_back_first hyd hy]
      refine .one hyd rfl rfl fun x => ?_
      by_cases hxa : x = a
      · subst hxa
        exact ⟨fun _ => rfl, fun _ => hself.mpr (by omega)⟩
      · exact hold x hxa
    · -- a third element catches up with `d` or does not
      obtain ⟨hstay, hdistinct⟩ := update_back_other (c := c) hyd had hay
      by_cases hlt : c d < c a + 1
      · right
        exact ⟨hdistinct hlt, a, y, hay, hself.mpr hlt, (hold y (Ne.symm hay)).mpr rfl⟩
      · left
        rw [hstay hlt]
        refine .one hyd rfl rfl fun x => ?_
        by_cases hxa : x = a
        · subst hxa
          exact ⟨fun hx => absurd (hself.mp hx) hlt, fun hx => absurd hx hay⟩
        · exact hold x hxa

theorem Doubled.not_distinct {p : Podium α} (h : Doubled d l p) : ¬ p.Distinct := by
  intro hp
  cases h with
  | behind hfirst hsecond => exact hp.first_second (hfirst.trans hsecond.symm)
  | one _ hsecond hthird => exact hp.second_third (hsecond.trans hthird.symm)

theorem Doubled.at_most_one {p : Podium α} (h : Doubled d l p) :
    ¬ ∃ x y, x ≠ y ∧ Ahead d l x ∧ Ahead d l y := by
  rintro ⟨x, y, hxy, hx, hy⟩
  cases h with
  | behind _ _ hnone => exact hnone x hx
  | one _ _ _ hone => exact hxy (((hone x).mp hx).trans ((hone y).mp hy).symm)

theorem overtaken_snoc : Overtaken d (l ++ [a]) ↔
    Overtaken d l ∨ ∃ x y, x ≠ y ∧ Ahead d (l ++ [a]) x ∧ Ahead d (l ++ [a]) y := by
  constructor
  · rintro ⟨pre, hpre, htwo⟩
    rcases List.prefix_concat_iff.mp hpre with rfl | hpre
    · exact Or.inr htwo
    · exact Or.inl ⟨pre, hpre, htwo⟩
  · rintro (⟨pre, hpre, htwo⟩ | htwo)
    · exact ⟨pre, hpre.trans (List.prefix_append l [a]), htwo⟩
    · exact ⟨l ++ [a], List.prefix_rfl, htwo⟩

theorem Doubled.step (hrun : Doubled d l (run d l)) (a : α) :
    Doubled d (l ++ [a]) (run d (l ++ [a])) ∨
    (run d (l ++ [a])).Distinct ∧
      ∃ x y, x ≠ y ∧ Ahead d (l ++ [a]) x ∧ Ahead d (l ++ [a]) y := by
  have ho := ordered_run d l
  have hc := run_count d l
  rw [run_snoc]
  generalize run d l = p at hrun ho hc
  obtain ⟨c, f, s, z⟩ := p
  cases hrun with
  | behind hfirst hsecond h =>
    dsimp only at hfirst hsecond hc
    subst f s
    exact Or.inl (Doubled.step_behind ho hc h a)
  | one hfirst hsecond hthird h =>
    dsimp only at hfirst hsecond hthird hc h
    subst s z
    exact Doubled.step_one ho hc hfirst h a

/-- The places are distinct exactly when two elements were ahead of `d` at the same time. -/
theorem distinct_run_iff (d : α) (l : List α) : (run d l).Distinct ↔ Overtaken d l := by
  -- the places are doubled until then, and stay distinct from then on
  have hinv : (run d l).Distinct ∧ Overtaken d l ∨ Doubled d l (run d l) ∧ ¬ Overtaken d l := by
    induction l using List.reverseRecOn with
    | nil =>
      refine Or.inr ⟨doubled_nil d, ?_⟩
      rintro ⟨pre, hpre, x, y, -, hx, -⟩
      rw [List.prefix_nil.mp hpre] at hx
      exact not_ahead_nil d x hx
    | append_singleton l a ih =>
      rcases ih with ⟨hdistinct, hover⟩ | ⟨hdoubled, hnot⟩
      · rw [run_snoc]
        exact Or.inl ⟨hdistinct.update a, overtaken_snoc.mpr (Or.inl hover)⟩
      · rcases hdoubled.step a with hstill | ⟨hdistinct, htwo⟩
        · refine Or.inr ⟨hstill, fun hover => ?_⟩
          rcases overtaken_snoc.mp hover with hover | htwo
          · exact hnot hover
          · exact hstill.at_most_one htwo
        · exact Or.inl ⟨hdistinct, overtaken_snoc.mpr (Or.inr htwo)⟩
  rcases hinv with ⟨hdistinct, hover⟩ | ⟨hdoubled, hnot⟩
  · exact ⟨fun _ => hover, fun _ => hdistinct⟩
  · exact ⟨fun h => absurd h hdoubled.not_distinct, fun h => absurd h hnot⟩

end Steps

end Podium

end CpuSubsystem
