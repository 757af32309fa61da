import CpuSubsystem.Lib.BpfMap

/-!
# Objects that use keys in turn

Objects are numbered by their creation.  While an object is in use no other one in use has its key,
and a map holds under the key what belongs to the object.  What the map holds under a key when all
its objects are out of use is left open: it may be the rest of an earlier one.
-/

namespace CpuSubsystem

/-- How objects of the type `β` use the keys of a map. -/
structure Tenants (β κ ν : Type*) where
  key : β → κ
  busy : β → Bool
  entry : β → Option ν

namespace Tenants

variable {β κ ν : Type*} [DecidableEq κ] (t : Tenants β κ ν)

structure Housed (m : BpfMap κ ν) (l : List β) : Prop where
  entry : ∀ b ∈ l, t.busy b = true → m.lookup (t.key b) = t.entry b
  distinct : ∀ (i j : Nat) b b', l[i]? = some b → l[j]? = some b' → t.busy b = true →
    t.busy b' = true → t.key b = t.key b' → i = j

namespace Housed

variable {t} {m m' : BpfMap κ ν} {l : List β} {a : β} {i : Nat} {f : β → β}

theorem lookup (h : t.Housed m l) (hi : l[i]? = some a) (hbusy : t.busy a = true) :
    m.lookup (t.key a) = t.entry a :=
  h.entry a (List.mem_of_getElem? hi) hbusy

theorem other (h : t.Housed m l) (hi : l[i]? = some a) (hbusy : t.busy a = true) {j : Nat} {b : β}
    (hj : l[j]? = some b) (hb : t.busy b = true) (hne : j ≠ i) : t.key b ≠ t.key a :=
  fun heq => hne (h.distinct j i b a hj hi hb hbusy heq)

/-- A map that is the same under the keys of all objects in use. -/
theorem congr (h : t.Housed m l)
    (hm : ∀ b ∈ l, t.busy b = true → m'.lookup (t.key b) = m.lookup (t.key b)) : t.Housed m' l := by
  constructor
  · intro b hb hbusy
    rw [hm b hb hbusy]
    exact h.entry b hb hbusy
  · exact h.distinct

/-- A new object, under a key that none in use has. -/
theorem append (h : t.Housed m l) (hfresh : ∀ b ∈ l, t.busy b = true → t.key b ≠ t.key a)
    (helse : ∀ k, k ≠ t.key a → m'.lookup k = m.lookup k)
    (hself : m'.lookup (t.key a) = t.entry a) : t.Housed m' (l ++ [a]) := by
  have hold := h.congr fun b hb hbusy => helse _ (hfresh b hb hbusy)
  have hcases : ∀ (j : Nat) b, (l ++ [a])[j]? = some b → l[j]? = some b ∨ j = l.length ∧ b = a := by
    intro j b hj
    rcases lt_trichotomy j l.length with hlt | heq | hgt
    · rw [List.getElem?_append_left hlt] at hj
      exact Or.inl hj
    · rw [heq, List.getElem?_concat_length] at hj
      exact Or.inr ⟨heq, (Option.some.inj hj).symm⟩
    · rw [List.getElem?_eq_none (by simp; omega)] at hj
      cases hj
  constructor
  · intro b hb hbusy
    rcases List.mem_append.mp hb with hb | hb
    · exact hold.entry b hb hbusy
    · rw [List.mem_singleton.mp hb]
      exact hself
  · intro i j b b' hi hj hb hb' heq
    rcases hcases i b hi with hil | ⟨hil, rfl⟩ <;> rcases hcases j b' hj with hjl | ⟨hjl, rfl⟩
    · exact h.distinct i j b b' hil hjl hb hb' heq
    · exact absurd heq (hfresh b (List.mem_of_getElem? hil) hb)
    · exact absurd heq.symm (hfresh b' (List.mem_of_getElem? hjl) hb')
    · rw [hil, hjl]

/-- An object in use changes; nothing changes but under its key. -/
theorem modify (h : t.Housed m l) (hi : l[i]? = some a) (hbusy : t.busy a = true)
    (hkey : t.key (f a) = t.key a) (helse : ∀ k, k ≠ t.key a → m'.lookup k = m.lookup k)
    (hself : t.busy (f a) = true → m'.lookup (t.key a) = t.entry (f a)) :
    t.Housed m' (l.modify i f) := by
  have hcases : ∀ (j : Nat) b, (l.modify i f)[j]? = some b →
      j = i ∧ b = f a ∨ j ≠ i ∧ l[j]? = some b := by
    intro j b hj
    rw [List.getElem?_modify] at hj
    by_cases hij : i = j
    · subst hij
      rw [hi] at hj
      exact Or.inl ⟨rfl, by simpa using hj.symm⟩
    · exact Or.inr ⟨Ne.symm hij, by simpa [hij] using hj⟩
  constructor
  · intro b hb hb'
    obtain ⟨j, hj⟩ := List.mem_iff_getElem?.mp hb
    rcases hcases j b hj with ⟨-, rfl⟩ | ⟨hne, hj⟩
    · rw [hkey]
      exact hself hb'
    · rw [helse _ (h.other hi hbusy hj hb' hne)]
      exact h.lookup hj hb'
  · intro j k b b' hj hk hb hb' heq
    rcases hcases j b hj with ⟨hji, rfl⟩ | ⟨hji, hjl⟩ <;>
      rcases hcases k b' hk with ⟨hki, rfl⟩ | ⟨hki, hkl⟩
    · rw [hji, hki]
    · rw [hkey] at heq
      exact absurd heq.symm (h.other hi hbusy hkl hb' hki)
    · rw [hkey] at heq
      exact absurd heq (h.other hi hbusy hjl hb hji)
    · exact h.distinct j k b b' hjl hkl hb hb' heq

end Housed

end Tenants

end CpuSubsystem
