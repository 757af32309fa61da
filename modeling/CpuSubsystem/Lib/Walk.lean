import Mathlib.Data.List.Infix
import Mathlib.Data.List.Nodup
import Mathlib.Data.List.TakeWhile
import Mathlib.Tactic.Common

/-!
# Walks through a hash table that changes

The keys of a hash table are met bucket by bucket, within a bucket the latest written one first.
A walk asks for the key after the one it is at, and begins anew when that one is gone.
-/

namespace CpuSubsystem

namespace Walk

variable {κ : Type*} (bucket : κ → Nat)

/-- The order of the keys when `k` was written: at the head of its bucket. -/
def write [DecidableEq κ] (order : List κ) (k : κ) : List κ :=
  order.filter (fun j => j ≠ k && bucket j < bucket k) ++
    k :: order.filter (fun j => j ≠ k && bucket k ≤ bucket j)

def erase [DecidableEq κ] (order : List κ) (k : κ) : List κ := order.filter (fun j => j ≠ k)

/-- The key after `k`; the first one of all when `k` is not there. -/
def next [DecidableEq κ] (order : List κ) (k : κ) : Option κ :=
  match order.dropWhile (fun j => j ≠ k) with
  | [] => order.head?
  | _ :: rest => rest.head?

structure Sound (order : List κ) : Prop where
  nodup : order.Nodup
  sorted : order.Pairwise fun i j => bucket i ≤ bucket j

/-- The key `i` is met before `j`. -/
def Before (order : List κ) (i j : κ) : Prop := [i, j].Sublist order

/-- A walk that is at `k` still comes to `p`, also when `k` was removed and is written again. -/
structure Reaches (order : List κ) (k p : κ) : Prop where
  mem : p ∈ order
  bucket_le : bucket k ≤ bucket p
  before : k ∈ order → Before order k p

variable {bucket} {order : List κ} {i j k p : κ}

theorem Before.mem_left (h : Before order i j) : i ∈ order := h.subset (by simp)

theorem Before.mem_right (h : Before order i j) : j ∈ order := h.subset (by simp)

theorem Before.bucket_le (hs : Sound bucket order) (h : Before order i j) :
    bucket i ≤ bucket j := by
  have hpair := hs.sorted.sublist h
  simpa using hpair

theorem Before.ne (hs : Sound bucket order) (h : Before order i j) : i ≠ j := by
  have hpair := hs.nodup.sublist h
  simpa using hpair

/-- The first key of a list is `p`, or it comes before `p`. -/
theorem head_before (hp : p ∈ order) : ∃ n, order.head? = some n ∧ (n = p ∨ Before order n p) := by
  cases order with
  | nil => cases hp
  | cons n rest =>
    refine ⟨n, rfl, ?_⟩
    rcases List.mem_cons.mp hp with hp | hp
    · exact Or.inl hp.symm
    · exact Or.inr ((List.singleton_sublist.mpr hp).cons_cons n)

variable [DecidableEq κ]

theorem mem_write : j ∈ write bucket order k ↔ j = k ∨ j ∈ order := by
  simp only [write, List.mem_append, List.mem_cons, List.mem_filter, Bool.and_eq_true,
    decide_eq_true_eq]
  by_cases hj : j = k
  · simp [hj]
  · have htotal : bucket j < bucket k ∨ bucket k ≤ bucket j := Nat.lt_or_ge _ _
    tauto

theorem mem_erase : j ∈ erase order k ↔ j ∈ order ∧ j ≠ k := by
  simp [erase, List.mem_filter]

theorem Sound.write (h : Sound bucket order) (k : κ) :
    Sound bucket (Walk.write bucket order k) := by
  have hlow : ∀ x ∈ order.filter (fun j => j ≠ k && bucket j < bucket k),
      x ≠ k ∧ bucket x < bucket k := by
    intro x hx
    simpa using (List.mem_filter.mp hx).2
  have hhigh : ∀ x ∈ order.filter (fun j => j ≠ k && bucket k ≤ bucket j),
      x ≠ k ∧ bucket k ≤ bucket x := by
    intro x hx
    simpa using (List.mem_filter.mp hx).2
  constructor
  · apply List.nodup_append.mpr
    refine ⟨h.nodup.filter _, List.nodup_cons.mpr ⟨?_, h.nodup.filter _⟩, ?_⟩
    · exact fun hk => (hhigh k hk).1 rfl
    · intro x hx y hy hxy
      have hx := hlow x hx
      rcases List.mem_cons.mp hy with hy | hy
      · exact hx.1 (hxy.trans hy)
      · have hy := hhigh y hy
        rw [← hxy] at hy
        omega
  · apply List.pairwise_append.mpr
    refine ⟨h.sorted.filter _, List.pairwise_cons.mpr ⟨fun x hx => (hhigh x hx).2,
      h.sorted.filter _⟩, ?_⟩
    intro x hx y hy
    have hx := hlow x hx
    rcases List.mem_cons.mp hy with hy | hy
    · rw [hy]
      omega
    · have hy := hhigh y hy
      omega

theorem Sound.erase (h : Sound bucket order) (k : κ) : Sound bucket (Walk.erase order k) :=
  ⟨h.nodup.filter _, h.sorted.filter _⟩

/-- Writing a third key does not change which of two comes first. -/
theorem Before.write (h : Before order i j) (hle : bucket i ≤ bucket j) (hi : i ≠ k)
    (hj : j ≠ k) : Before (Walk.write bucket order k) i j := by
  by_cases h₁ : bucket j < bucket k
  · -- both in front of `k`
    have hsub := h.filter (fun x => x ≠ k && bucket x < bucket k)
    have hkeep : [i, j].filter (fun x => x ≠ k && bucket x < bucket k) = [i, j] := by
      have hlt : bucket i < bucket k := by omega
      simp [hi, hj, h₁, hlt]
    rw [hkeep] at hsub
    exact hsub.trans (List.sublist_append_left _ _)
  · have hkj : bucket k ≤ bucket j := Nat.le_of_not_lt h₁
    by_cases h₂ : bucket i < bucket k
    · -- one in front of `k`, one after it
      have hleft : i ∈ order.filter (fun x => x ≠ k && bucket x < bucket k) := by
        simp [h.mem_left, hi, h₂]
      have hright : j ∈ order.filter (fun x => x ≠ k && bucket k ≤ bucket x) := by
        simp [h.mem_right, hj, hkj]
      exact (List.singleton_sublist.mpr hleft).append
        ((List.singleton_sublist.mpr hright).cons k)
    · have hsub := h.filter (fun x => x ≠ k && bucket k ≤ bucket x)
      have hkeep : [i, j].filter (fun x => x ≠ k && bucket k ≤ bucket x) = [i, j] := by
        have hki : bucket k ≤ bucket i := Nat.le_of_not_lt h₂
        simp [hi, hj, hkj, hki]
      rw [hkeep] at hsub
      exact (hsub.cons k).trans (List.sublist_append_right _ _)

/-- A key that was just written comes before those of its bucket and of the later ones. -/
theorem before_write (hp : p ∈ order) (hne : p ≠ k) (hle : bucket k ≤ bucket p) :
    Before (write bucket order k) k p := by
  have hright : p ∈ order.filter (fun x => x ≠ k && bucket k ≤ bucket x) := by
    simp [hp, hne, hle]
  have hsub : [k, p].Sublist (k :: order.filter (fun x => x ≠ k && bucket k ≤ bucket x)) :=
    (List.singleton_sublist.mpr hright).cons_cons k
  exact hsub.trans (List.sublist_append_right _ _)

/-- A key of a later bucket that was just written comes after those of the earlier ones. -/
theorem before_written (hi : i ∈ order) (hlt : bucket i < bucket k) :
    Before (write bucket order k) i k := by
  have hne : i ≠ k := by
    rintro rfl
    exact Nat.lt_irrefl _ hlt
  have hleft : i ∈ order.filter (fun x => x ≠ k && bucket x < bucket k) := by
    simp [hi, hne, hlt]
  exact (List.singleton_sublist.mpr hleft).append
    (List.singleton_sublist.mpr List.mem_cons_self)

/-- Writing a key does not put one after it that was not, unless it is of the same bucket. -/
theorem Before.write_right (hs : Sound bucket order) (h : Before order i j)
    (hk : k = j → bucket i ≠ bucket j) : Before (Walk.write bucket order k) i j := by
  have hle := h.bucket_le hs
  by_cases hj : k = j
  · subst hj
    exact before_written h.mem_left (Nat.lt_of_le_of_ne hle (hk rfl))
  · by_cases hi : i = k
    · subst hi
      exact before_write h.mem_right (Ne.symm hj) hle
    · exact h.write hle hi (Ne.symm hj)

theorem next_of_absent (hk : k ∉ order) : next order k = order.head? := by
  have hall : order.dropWhile (fun j => j ≠ k) = [] := by
    rw [List.dropWhile_eq_nil_iff]
    intro x hx
    simpa using fun heq : x = k => hk (heq ▸ hx)
  simp only [next, hall]

theorem next_append {pre rest : List κ} (hk : k ∉ pre) :
    next (pre ++ k :: rest) k = rest.head? := by
  have hpre : ∀ j ∈ pre, decide (j ≠ k) = true := by
    intro j hj
    simpa using fun heq : j = k => hk (heq ▸ hj)
  have hdrop : (pre ++ k :: rest).dropWhile (fun j => j ≠ k) = k :: rest := by
    rw [List.dropWhile_append_of_pos hpre, List.dropWhile_cons_of_neg (by simp)]
  simp only [next, hdrop]

theorem mem_of_next (h : next order k = some i) : i ∈ order := by
  unfold next at h
  split at h
  · exact List.mem_of_head? h
  · rename_i rest hdrop
    have hsub : (order.dropWhile fun j => j ≠ k).Sublist order := List.dropWhile_sublist _
    rw [hdrop] at hsub
    exact hsub.subset (List.mem_cons_of_mem _ (List.mem_of_head? h))

theorem next_cons (hi : i ≠ k) (hk : k ∈ order) : next (i :: order) k = next order k := by
  have hcons : (i :: order).dropWhile (fun j => j ≠ k) =
      order.dropWhile (fun j => j ≠ k) := List.dropWhile_cons_of_pos (by simpa using hi)
  cases hdrop : order.dropWhile (fun j => j ≠ k) with
  | nil =>
    have hall := List.dropWhile_eq_nil_iff.mp hdrop k hk
    simp at hall
  | cons x rest => simp only [next, hcons, hdrop]

/-- From a key in front of `p` the walk comes closer to `p`. -/
theorem next_of_before (h : Before order k p) :
    ∃ n, next order k = some n ∧ (n = p ∨ Before order n p) := by
  induction order with
  | nil => cases h
  | cons x rest ih =>
    by_cases hx : x = k
    · subst hx
      have hp : p ∈ rest := by
        cases h with
        | cons _ h => exact h.subset (by simp)
        | cons_cons _ h => exact h.subset (by simp)
      obtain ⟨n, hn, hcase⟩ := head_before hp
      refine ⟨n, by simpa [next] using hn, ?_⟩
      rcases hcase with hcase | hcase
      · exact Or.inl hcase
      · exact Or.inr (hcase.trans (List.sublist_cons_self x rest))
    · have hrest : Before rest k p := by
        cases h with
        | cons _ h => exact h
        | cons_cons _ h => exact absurd rfl hx
      obtain ⟨n, hn, hcase⟩ := ih hrest
      refine ⟨n, (next_cons hx hrest.mem_left).trans hn, ?_⟩
      rcases hcase with hcase | hcase
      · exact Or.inl hcase
      · exact Or.inr (hcase.trans (List.sublist_cons_self x rest))

theorem before_next (hs : Sound bucket order) (hk : k ∈ order)
    (hn : Walk.next order k = some j) : Before order k j := by
  obtain ⟨pre, rest, rfl⟩ := List.append_of_mem hk
  have hpre : k ∉ pre := fun hmem =>
    (List.nodup_append.mp hs.nodup).2.2 k hmem k List.mem_cons_self rfl
  rw [next_append hpre] at hn
  have hsub : [k, j].Sublist (k :: rest) :=
    (List.singleton_sublist.mpr (List.mem_of_head? hn)).cons_cons k
  exact hsub.trans (List.sublist_append_right _ _)

/-- What comes before a key comes before the next one. -/
theorem Before.next (hs : Sound bucket order) (h : Before order i k)
    (hn : Walk.next order k = some j) : Before order i j := by
  obtain ⟨pre, rest, rfl⟩ := List.append_of_mem h.mem_right
  have hnodup := List.nodup_append.mp hs.nodup
  have hpre : k ∉ pre := fun hk => hnodup.2.2 k hk k List.mem_cons_self rfl
  have hrest : k ∉ rest := (List.nodup_cons.mp hnodup.2.1).1
  rw [next_append hpre] at hn
  have hi : i ∈ pre := by
    rcases List.mem_append.mp h.mem_left with hi | hi
    · exact hi
    · -- otherwise `k` would come twice
      exfalso
      obtain ⟨l, l', heq, hl, hl'⟩ := List.sublist_append_iff.mp h
      cases l with
      | nil =>
        rw [List.nil_append] at heq
        subst heq
        cases hl' with
        | cons _ hl' => exact hrest (hl'.subset (by simp))
        | cons_cons _ hl' => exact h.ne hs rfl
      | cons a l =>
        rw [List.cons_append] at heq
        obtain ⟨rfl, -⟩ := List.cons.inj heq
        exact hnodup.2.2 i (hl.subset List.mem_cons_self) i hi rfl
  exact (List.singleton_sublist.mpr hi).append
    ((List.singleton_sublist.mpr (List.mem_of_head? hn)).cons k)

namespace Reaches

theorem next (h : Reaches bucket order k p) :
    ∃ n, Walk.next order k = some n ∧ (n = p ∨ Before order n p) := by
  by_cases hk : k ∈ order
  · exact next_of_before (h.before hk)
  · rw [next_of_absent hk]
    exact head_before h.mem

/-- Nor does writing `p`, unless the walk is at a key of its bucket. -/
theorem write_self (h : Reaches bucket order k p) (hk : k ∈ order → bucket k ≠ bucket p) :
    Reaches bucket (Walk.write bucket order p) k p := by
  refine ⟨mem_write.mpr (Or.inl rfl), h.bucket_le, fun hmem => ?_⟩
  have hk' : k ∈ order := by
    rcases mem_write.mp hmem with rfl | hk'
    · exact h.mem
    · exact hk'
  exact before_written hk' (Nat.lt_of_le_of_ne h.bucket_le (hk hk'))

/-- Writing any key but `p` itself does not put the walk past `p`. -/
theorem write (h : Reaches bucket order k p) (hj : j ≠ p) :
    Reaches bucket (Walk.write bucket order j) k p := by
  refine ⟨mem_write.mpr (Or.inr h.mem), h.bucket_le, fun hk => ?_⟩
  by_cases hkj : k = j
  · subst hkj
    exact before_write h.mem hj.symm h.bucket_le
  · have hk := (mem_write.mp hk).resolve_left hkj
    exact (h.before hk).write h.bucket_le hkj hj.symm

/-- A walk removes the key that it came to before `p`. -/
theorem of_erase (hp : p ∈ order) (hne : k ≠ p) (hle : bucket k ≤ bucket p) :
    Reaches bucket (erase order k) k p := by
  refine ⟨mem_erase.mpr ⟨hp, Ne.symm hne⟩, hle, fun hk => ?_⟩
  exact absurd rfl (mem_erase.mp hk).2

end Reaches

end Walk

end CpuSubsystem
