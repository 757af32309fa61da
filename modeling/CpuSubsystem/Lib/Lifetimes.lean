import CpuSubsystem.Lib.Latest
import CpuSubsystem.Lib.Machine

/-!
# Lives under reused numbers

Individuals are born and die along a trace.  Each has a number (a pid, a descriptor) that no other
living individual has; after its death the number is free for another one.
-/

namespace CpuSubsystem

/-- The number of each individual, and which events are births and deaths. -/
structure Lifetimes (ε ι π : Type*) where
  number : ι → π
  birth : ε → Option ι
  death : ε → Option ι

/-- Those who were born so far, and those of them who live. -/
structure Population (ι : Type*) where
  known : List ι
  living : List ι

namespace Lifetimes

variable {ε ι π : Type*} [DecidableEq ι] (L : Lifetimes ε ι π)

def after (w : Population ι) (e : ε) : Population ι :=
  match L.birth e, L.death e with
  | some i, _ => ⟨i :: w.known, i :: w.living⟩
  | none, some i => ⟨w.known, w.living.filter fun j => j ≠ i⟩
  | none, none => w

def population (w : Population ι) (tr : List ε) : Population ι := tr.foldl L.after w

/-- Only somebody new is born, under a number that nobody living has, and only the living die. -/
def Orderly (w : Population ι) (e : ε) : Prop :=
  (∀ i ∈ L.birth e, i ∉ w.known ∧ ∀ j ∈ w.living, L.number j ≠ L.number i) ∧
  ∀ i ∈ L.death e, i ∈ w.living

instance [DecidableEq π] (w : Population ι) (e : ε) : Decidable (L.Orderly w e) :=
  @instDecidableAnd _ _ (Option.decidableForallMem _) (Option.decidableForallMem _)

/-- No two of the living share a number. -/
structure Sound (w : Population ι) : Prop where
  known : ∀ i ∈ w.living, i ∈ w.known
  distinct : ∀ i ∈ w.living, ∀ j ∈ w.living, L.number i = L.number j → i = j

/-- The birth of the holder of the number `p`. -/
def bornAs [DecidableEq π] (p : π) (e : ε) : Option ι :=
  (L.birth e).bind fun i => if L.number i = p then some i else none

variable {L} {w : Population ι} {tr pre : List ε} {e : ε} {i j : ι} {p : π}

theorem population_snoc : L.population w (pre ++ [e]) = L.after (L.population w pre) e := by
  simp only [population, List.foldl_append, List.foldl_cons, List.foldl_nil]

theorem after_birth (h : L.birth e = some i) :
    L.after w e = ⟨i :: w.known, i :: w.living⟩ := by
  simp only [after, h]

theorem after_death (hb : L.birth e = none) (h : L.death e = some i) :
    L.after w e = ⟨w.known, w.living.filter fun j => j ≠ i⟩ := by
  simp only [after, hb, h]

theorem after_same (hb : L.birth e = none) (hd : L.death e = none) : L.after w e = w := by
  simp only [after, hb, hd]

/-- Whoever lives after an event was just born, or lived before and did not die now. -/
theorem living_after (h : i ∈ (L.after w e).living) :
    L.birth e = some i ∨ (i ∈ w.living ∧ (L.birth e = none → L.death e ≠ some i)) := by
  cases hb : L.birth e with
  | some k =>
    rw [after_birth hb] at h
    rcases List.mem_cons.mp h with rfl | h
    · exact Or.inl rfl
    · exact Or.inr ⟨h, fun hf => by cases hf⟩
  | none =>
    right
    cases hd : L.death e with
    | some k =>
      rw [after_death hb hd] at h
      have hk : i ∈ w.living ∧ i ≠ k := by simpa using h
      refine ⟨hk.1, fun _ heq => ?_⟩
      exact hk.2 (Option.some.inj heq).symm
    | none =>
      rw [after_same hb hd] at h
      exact ⟨h, fun _ hf => by cases hf⟩

theorem known_after (h : i ∈ w.known) : i ∈ (L.after w e).known := by
  cases hb : L.birth e with
  | some k =>
    rw [after_birth hb]
    exact List.mem_cons_of_mem k h
  | none =>
    cases hd : L.death e with
    | some k =>
      rw [after_death hb hd]
      exact h
    | none =>
      rw [after_same hb hd]
      exact h

theorem Sound.after (h : L.Sound w) (he : L.Orderly w e) : L.Sound (L.after w e) := by
  constructor
  · intro i hi
    rcases living_after hi with hb | ⟨hlive, -⟩
    · rw [after_birth hb]
      exact List.mem_cons_self
    · exact known_after (h.known i hlive)
  · intro i hi j hj heq
    rcases living_after hi with hb | ⟨hlive, -⟩
    · rcases living_after hj with hb' | ⟨hlive', -⟩
      · exact Option.some.inj (hb.symm.trans hb')
      · exact absurd heq.symm ((he.1 i hb).2 j hlive')
    · rcases living_after hj with hb' | ⟨hlive', -⟩
      · exact absurd heq ((he.1 j hb').2 i hlive)
      · exact h.distinct i hlive j hlive' heq

theorem Sound.population (h : L.Sound w)
    (htr : Throughout (fun pre e => L.Orderly (L.population w pre) e) tr) :
    L.Sound (L.population w tr) := by
  induction tr using List.reverseRecOn with
  | nil => exact h
  | append_singleton pre e ih =>
    rw [population_snoc]
    exact (ih htr.of_snoc).after htr.last

omit [DecidableEq ι] in
theorem bornAs_eq_some [DecidableEq π] :
    L.bornAs p e = some i ↔ L.birth e = some i ∧ L.number i = p := by
  unfold bornAs
  rw [Option.bind_eq_some_iff]
  constructor
  · rintro ⟨k, hb, hk⟩
    obtain ⟨hnumber, hsome⟩ := Option.ite_none_right_eq_some.mp hk
    cases hsome
    exact ⟨hb, hnumber⟩
  · rintro ⟨hb, hnumber⟩
    exact ⟨i, hb, if_pos hnumber⟩

/-- Nobody but the latest one born under a number lives under it. -/
theorem heir [DecidableEq π] (htr : Throughout (fun pre e => L.Orderly (L.population w pre) e) tr)
    (hi : latest (L.bornAs p) tr = some i) (hj : j ∈ (L.population w tr).living)
    (hp : L.number j = p) : j = i := by
  induction tr using List.reverseRecOn with
  | nil => cases hi
  | append_singleton pre e ih =>
    rw [population_snoc] at hj
    have horderly : L.Orderly (L.population w pre) e := htr.last
    cases hborn : L.bornAs p e with
    | none =>
      rw [latest_snoc_none pre hborn] at hi
      rcases living_after hj with hb | ⟨hlive, -⟩
      · exact absurd (hborn.symm.trans (bornAs_eq_some.mpr ⟨hb, hp⟩)) (by simp)
      · exact ih htr.of_snoc hi hlive
    | some k =>
      rw [latest_snoc_some pre hborn] at hi
      cases hi
      -- somebody was born under `p`, so no other holder of it was alive
      obtain ⟨hbirth, hnumber⟩ := bornAs_eq_some.mp hborn
      rcases living_after hj with hb | ⟨hlive, -⟩
      · exact Option.some.inj (hb.symm.trans hbirth)
      · exact absurd (hp.trans hnumber.symm) ((horderly.1 i hbirth).2 j hlive)

end Lifetimes

end CpuSubsystem
