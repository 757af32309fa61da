import Mathlib.Data.List.Chain
import Mathlib.Data.List.Forall2
import Mathlib.Data.List.Infix

/-!
# Strings in quotes

Every string is written between quotes, with a separator behind it, and each of its characters as
an escape sequence.  When a quote never begins a sequence nor follows a separator in one, the text
tells where the strings end.
-/

namespace CpuSubsystem

variable {α : Type*} (q : α → List α) (quote sep : α)

/-- What the escape sequences need. -/
structure Escapes : Prop where
  ne : sep ≠ quote
  head : ∀ c, (q c).head? ≠ some quote
  chain : ∀ c, (q c).IsChain fun a b => b = quote → a ≠ sep
  nonempty : ∀ c, q c ≠ []

/-- The text behind the first quote: an open quote stands before every string but the first. -/
def quotedBody : List (List α) → List α
  | [] => []
  | [s] => s.flatMap q ++ [quote, sep]
  | s :: s' :: strs => s.flatMap q ++ quote :: sep :: quote :: quotedBody (s' :: strs)

/-- The text behind a string with its separator. -/
def quotedTail : List (List α) → List α
  | [] => []
  | s :: strs => quote :: quotedBody q quote sep (s :: strs)

variable {q quote sep} {s t : List α} {xs ys : List (List α)}

theorem quotedBody_cons (s : List α) (strs : List (List α)) :
    quotedBody q quote sep (s :: strs) =
      s.flatMap q ++ quote :: sep :: quotedTail q quote sep strs := by
  cases strs <;> rfl

section Escaped

variable (h : Escapes q quote sep)
include h

theorem Escapes.flatMap_head (s : List α) : (s.flatMap q).head? ≠ some quote := by
  cases s with
  | nil => simp
  | cons c s =>
    rw [List.flatMap_cons, List.head?_append_of_ne_nil _ (h.nonempty c)]
    exact h.head c

theorem Escapes.flatMap_chain (s : List α) :
    (s.flatMap q).IsChain fun a b => b = quote → a ≠ sep := by
  induction s with
  | nil => exact List.isChain_nil
  | cons c s ih =>
    rw [List.flatMap_cons]
    refine List.isChain_append.mpr ⟨h.chain c, ih, ?_⟩
    intro a _ b hb heq
    -- the next sequence does not begin with a quote
    exact absurd (heq ▸ hb) (h.flatMap_head s)

/-- No quote stands behind a separator inside a string. -/
theorem Escapes.flatMap_ne (s u v : List α) : s.flatMap q ≠ u ++ sep :: quote :: v := by
  intro heq
  have hchain := h.flatMap_chain s
  rw [heq] at hchain
  exact (List.isChain_append_cons_cons.mp hchain).2.1 rfl rfl

/-- Two readings of a text that take the same quote for the end and for the beginning of a string
never come together again. -/
theorem quotedBody_ne_sep (n : ℕ) (xs ys : List (List α)) (hn : xs.length + ys.length ≤ n) :
    quotedBody q quote sep xs ≠ sep :: quotedTail q quote sep ys := by
  induction n generalizing xs ys with
  | zero =>
    have hnil : xs = [] := List.length_eq_zero_iff.mp (by omega)
    rw [hnil]
    exact nofun
  | succ n ih =>
    cases xs with
    | nil => exact nofun
    | cons s xs =>
      rw [List.length_cons] at hn
      rw [quotedBody_cons]
      intro heq
      cases hs : s.flatMap q with
      | nil =>
        rw [hs, List.nil_append, List.cons.injEq] at heq
        exact h.ne heq.1.symm
      | cons a u =>
        rw [hs, List.cons_append, List.cons.injEq] at heq
        obtain ⟨rfl, heq⟩ := heq
        cases ys with
        | nil => simp [quotedTail] at heq
        | cons t ys =>
          rw [List.length_cons] at hn
          rw [quotedTail] at heq
          cases u with
          | nil =>
            -- the two readings have changed their parts
            rw [List.nil_append, List.cons.injEq] at heq
            exact ih (t :: ys) xs (by simp only [List.length_cons]; omega) heq.2.symm
          | cons b u =>
            rw [List.cons_append, List.cons.injEq] at heq
            rw [heq.1] at hs
            exact h.flatMap_ne s [] u hs

theorem quoted_cons_append {u : List α}
    (hu : t.flatMap q = s.flatMap q ++ u)
    (heq : quote :: sep :: quotedTail q quote sep xs =
      u ++ quote :: sep :: quotedTail q quote sep ys) : u = [] := by
  cases u with
  | nil => rfl
  | cons a u =>
    exfalso
    rw [List.cons_append, List.cons.injEq] at heq
    obtain ⟨rfl, heq⟩ := heq
    cases u with
    | nil =>
      rw [List.nil_append, List.cons.injEq] at heq
      exact h.ne heq.1
    | cons b u =>
      rw [List.cons_append, List.cons.injEq] at heq
      obtain ⟨rfl, heq⟩ := heq
      cases xs with
      | nil => simp [quotedTail] at heq
      | cons x xs =>
        rw [quotedTail] at heq
        cases u with
        | nil =>
          rw [List.nil_append, List.cons.injEq] at heq
          exact quotedBody_ne_sep h _ (x :: xs) ys (Nat.le_refl _) heq.2
        | cons c u =>
          rw [List.cons_append, List.cons.injEq] at heq
          rw [← heq.1] at hu
          apply h.flatMap_ne t (s.flatMap q ++ [quote]) u
          rw [hu, List.append_assoc]
          rfl

/-- A string ends at its quote. -/
theorem quoted_cons_inj
    (heq : s.flatMap q ++ quote :: sep :: quotedTail q quote sep xs =
      t.flatMap q ++ quote :: sep :: quotedTail q quote sep ys) :
    s.flatMap q = t.flatMap q ∧ quotedTail q quote sep xs = quotedTail q quote sep ys := by
  rcases List.append_eq_append_iff.mp heq with ⟨u, hu, htail⟩ | ⟨u, hu, htail⟩
  · have hnil := quoted_cons_append h hu htail
    rw [hnil, List.nil_append, List.cons.injEq, List.cons.injEq] at htail
    rw [hnil, List.append_nil] at hu
    exact ⟨hu.symm, htail.2.2⟩
  · have hnil := quoted_cons_append h hu htail
    rw [hnil, List.nil_append, List.cons.injEq, List.cons.injEq] at htail
    rw [hnil, List.append_nil] at hu
    exact ⟨hu, htail.2.2.symm⟩

/-- Two lists of strings are written alike exactly when their strings are, one by one. -/
theorem quotedBody_inj_iff : quotedBody q quote sep xs = quotedBody q quote sep ys ↔
    List.Forall₂ (fun s t => s.flatMap q = t.flatMap q) xs ys := by
  induction xs generalizing ys with
  | nil =>
    cases ys with
    | nil => simp
    | cons t ys => simp [quotedBody_cons, quotedBody]
  | cons s xs ih =>
    cases ys with
    | nil => simp [quotedBody_cons, quotedBody]
    | cons t ys =>
      have htail : quotedTail q quote sep xs = quotedTail q quote sep ys ↔
          quotedBody q quote sep xs = quotedBody q quote sep ys := by
        cases xs with
        | nil =>
          cases ys with
          | nil => rfl
          | cons t ys =>
            rw [quotedBody_cons]
            simp [quotedTail, quotedBody]
        | cons s xs =>
          cases ys with
          | nil =>
            rw [quotedBody_cons]
            simp [quotedTail, quotedBody]
          | cons t ys => exact List.cons_inj_right quote
      rw [quotedBody_cons, quotedBody_cons, List.forall₂_cons, ← ih, ← htail]
      constructor
      · exact quoted_cons_inj h
      · rintro ⟨hs, ht⟩
        rw [hs, ht]

end Escaped

end CpuSubsystem
