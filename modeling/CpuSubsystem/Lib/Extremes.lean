import CpuSubsystem.Lib.Latest
import CpuSubsystem.Lib.Tally

/-!
# New maxima, and what is behind them

An element of a list is behind when an earlier one is at least as great, and a new maximum
otherwise.  A program that compares with the minimum only what is behind finds the least element
exactly when an element after the first is not greater than the first.
-/

namespace CpuSubsystem

variable {α : Type*} (d : α → UInt64)

def Behind (p : List α) (x : α) : Prop := ∃ y ∈ p, d x ≤ d y

instance (p : List α) (x : α) : Decidable (Behind d p x) :=
  inferInstanceAs (Decidable (∃ y ∈ p, d x ≤ d y))

/-- The elements that are no new maxima. -/
def behind (l : List α) : List α := collect (fun p x => if Behind d p x then some x else none) l

variable {d} {l p rest : List α} {x first : α} {m : UInt64}

theorem behind_snoc_of (h : Behind d p x) : behind d (p ++ [x]) = behind d p ++ [x] := by
  rw [behind, collect_snoc, if_pos h]
  rfl

theorem behind_snoc_of_not (h : ¬Behind d p x) : behind d (p ++ [x]) = behind d p := by
  rw [behind, collect_snoc, if_neg h]
  exact List.append_nil _

/-- What the running maximum tells about the next element. -/
theorem Greatest.behind_iff (h : Greatest (p.map d) m) (hx : d x ≠ 0) :
    Behind d p x ↔ ¬d x > m := by
  rw [gt_iff_lt, UInt64.not_lt]
  rcases h with ⟨hnil, rfl⟩ | ⟨hmem, hle⟩
  · have hp : p = [] := List.map_eq_nil_iff.mp hnil
    rw [hp]
    constructor
    · rintro ⟨y, hy, -⟩
      cases hy
    · intro hzero
      exact absurd (UInt64.le_antisymm hzero UInt64.zero_le) hx
  · constructor
    · rintro ⟨y, hy, hxy⟩
      exact UInt64.le_trans hxy (hle _ (List.mem_map_of_mem hy))
    · intro hxm
      obtain ⟨y, hy, rfl⟩ := List.mem_map.mp hmem
      exact ⟨y, hy, hxm⟩

/-- What the running minimum, 0 when there is none, tells about the next element. -/
theorem Least.lowers_iff (h : Least (l.map d) m) (hpos : ∀ y ∈ l, d y ≠ 0) :
    (m == 0 || decide (d x < m)) = true ↔ ∀ y ∈ l, d x < d y := by
  rcases h with ⟨hnil, rfl⟩ | ⟨hmem, hle⟩
  · have hl : l = [] := List.map_eq_nil_iff.mp hnil
    rw [hl]
    simp
  · obtain ⟨y, hy, rfl⟩ := List.mem_map.mp hmem
    have hne : (d y == 0) = false := beq_eq_false_iff_ne.mpr (hpos y hy)
    rw [hne, Bool.false_or, decide_eq_true_eq]
    constructor
    · intro hxy z hz
      exact UInt64.lt_of_lt_of_le hxy (hle _ (List.mem_map_of_mem hz))
    · intro hall
      exact hall y hy

theorem mem_behind_snoc {y : α} :
    x ∈ behind d (p ++ [y]) ↔ x ∈ behind d p ∨ x = y ∧ Behind d p y := by
  by_cases hy : Behind d p y
  · rw [behind_snoc_of hy, List.mem_append, List.mem_singleton]
    simp only [hy, and_true]
  · rw [behind_snoc_of_not hy]
    simp only [hy, and_false, or_false]

theorem mem_of_mem_behind (h : x ∈ behind d l) : x ∈ l := by
  induction l using List.reverseRecOn with
  | nil => cases h
  | append_singleton p y ih =>
    rcases mem_behind_snoc.mp h with h | ⟨rfl, -⟩
    · exact List.mem_append_left _ (ih h)
    · exact List.mem_append_right _ (List.mem_singleton_self x)

/-- The first element is a new maximum. -/
theorem mem_rest_of_mem_behind (h : x ∈ behind d (first :: rest)) : x ∈ rest := by
  induction rest using List.reverseRecOn with
  | nil =>
    have hfirst : ¬Behind d [] first := fun ⟨y, hy, _⟩ => by cases hy
    rw [show [first] = [] ++ [first] from rfl, behind_snoc_of_not hfirst] at h
    cases h
  | append_singleton rest y ih =>
    rw [← List.cons_append] at h
    rcases mem_behind_snoc.mp h with h | ⟨rfl, -⟩
    · exact List.mem_append_left _ (ih h)
    · exact List.mem_append_right _ (List.mem_singleton_self x)

/-- Later elements that are not greater than the first are behind. -/
theorem mem_behind_of_le (h : x ∈ rest) (hle : d x ≤ d first) : x ∈ behind d (first :: rest) := by
  induction rest using List.reverseRecOn with
  | nil => cases h
  | append_singleton rest y ih =>
    rw [← List.cons_append]
    apply mem_behind_snoc.mpr
    rcases List.mem_append.mp h with h | h
    · exact Or.inl (ih h)
    · rw [List.mem_singleton] at h
      subst h
      exact Or.inr ⟨rfl, first, List.mem_cons_self, hle⟩

/-- The least of what is behind is the least of all exactly when an element after the first is not
greater than the first. -/
theorem least_behind_iff (h : Least ((behind d (first :: rest)).map d) m)
    (hpos : ∀ y ∈ first :: rest, d y ≠ 0) :
    Least ((first :: rest).map d) m ↔ ∃ y ∈ rest, d y ≤ d first := by
  constructor
  · rintro (⟨hnil, -⟩ | ⟨hmem, hle⟩)
    · cases hnil
    · obtain ⟨y, hy, rfl⟩ := List.mem_map.mp hmem
      rcases h with ⟨-, hzero⟩ | ⟨hbehind, -⟩
      · exact absurd hzero (hpos y hy)
      · obtain ⟨z, hz, hzy⟩ := List.mem_map.mp hbehind
        have hfirst : d y ≤ d first := hle _ (List.mem_map_of_mem List.mem_cons_self)
        exact ⟨z, mem_rest_of_mem_behind hz, by rw [hzy]; exact hfirst⟩
  · rintro ⟨y, hy, hyfirst⟩
    have hybehind := mem_behind_of_le hy hyfirst
    right
    rcases h with ⟨hnil, -⟩ | ⟨hmem, hle⟩
    · rw [List.map_eq_nil_iff.mp hnil] at hybehind
      cases hybehind
    · obtain ⟨z, hz, rfl⟩ := List.mem_map.mp hmem
      refine ⟨List.mem_map_of_mem (mem_of_mem_behind hz), ?_⟩
      intro v hv
      obtain ⟨w, hw, rfl⟩ := List.mem_map.mp hv
      have hzy : d z ≤ d y := hle _ (List.mem_map_of_mem hybehind)
      rcases List.mem_cons.mp hw with rfl | hw
      · exact UInt64.le_trans hzy hyfirst
      -- a later element is behind, or greater than the first
      · by_cases hwfirst : d w ≤ d first
        · exact hle _ (List.mem_map_of_mem (mem_behind_of_le hw hwfirst))
        · have hlt := UInt64.le_of_lt (UInt64.not_le.mp hwfirst)
          exact UInt64.le_trans hzy (UInt64.le_trans hyfirst hlt)

end CpuSubsystem
