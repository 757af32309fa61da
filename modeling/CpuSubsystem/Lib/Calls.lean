import Mathlib.Data.List.Chain
import Mathlib.Tactic.Common

/-!
# Calls seen through an entry and a return probe

A `view` picks the probes of one caller out of a trace.  `calls` pairs every return with the entry
before it; a return without an entry (the call began before the observation did) is skipped.
-/

namespace CpuSubsystem

/-- A probe at the entry of a call, with what is known there, or at its return. -/
inductive Probe (α β : Type*) where
  | enter (a : α)
  | exit (b : β)

def Probe.isEnter {α β : Type*} : Probe α β → Bool
  | .enter _ => true
  | .exit _ => false

/-- What is known at the probe. -/
def Probe.value {α : Type*} : Probe α α → α
  | .enter a | .exit a => a

/-- The call in progress, and the completed calls in order. -/
structure Calls (α β : Type*) where
  pending : Option α
  completed : List (α × β)

variable {ε α β : Type*}

def Calls.step (c : Calls α β) : Probe α β → Calls α β
  | .enter a => { c with pending := some a }
  | .exit b =>
    match c.pending with
    | some a => ⟨none, c.completed ++ [(a, b)]⟩
    | none => c

def calls (view : ε → Option (Probe α β)) (tr : List ε) : Calls α β :=
  (tr.filterMap view).foldl Calls.step ⟨none, []⟩

/-- The probes alternate, beginning with either kind. -/
def Alternating (view : ε → Option (Probe α β)) (tr : List ε) : Prop :=
  ((tr.filterMap view).map Probe.isEnter).IsChain (· ≠ ·)

instance (view : ε → Option (Probe α β)) (tr : List ε) : Decidable (Alternating view tr) :=
  inferInstanceAs (Decidable (List.IsChain _ _))

variable {view : ε → Option (Probe α β)} {pre : List ε} {e : ε}

theorem calls_snoc_skip (h : view e = none) : calls view (pre ++ [e]) = calls view pre := by
  simp only [calls, List.filterMap_append, List.filterMap_cons, h, List.filterMap_nil,
    List.append_nil]

theorem calls_snoc {q : Probe α β} (h : view e = some q) :
    calls view (pre ++ [e]) = (calls view pre).step q := by
  simp only [calls, List.filterMap_append, List.filterMap_cons, h, List.filterMap_nil,
    List.foldl_append, List.foldl_cons, List.foldl_nil]

/-- There are not more completed calls than events. -/
theorem completed_length_le (view : ε → Option (Probe α β)) (tr : List ε) :
    (calls view tr).completed.length ≤ tr.length := by
  induction tr using List.reverseRecOn with
  | nil => exact Nat.le_refl 0
  | append_singleton pre e ih =>
    rw [List.length_append, List.length_singleton]
    cases h : view e with
    | none =>
      rw [calls_snoc_skip h]
      omega
    | some q =>
      rw [calls_snoc h]
      cases q with
      | enter a => exact Nat.le_succ_of_le ih
      | exit b =>
        unfold Calls.step
        cases (calls view pre).pending with
        | none => exact Nat.le_succ_of_le ih
        | some a =>
          simp only [List.length_append, List.length_singleton]
          omega

/-- What is seen of one sequence is what is seen of another one. -/
theorem calls_congr {ε' : Type*} {view' : ε' → Option (Probe α β)} {tr : List ε} {tr' : List ε'}
    (h : tr.filterMap view = tr'.filterMap view') :
    calls view tr = calls view' tr' ∧ (Alternating view tr ↔ Alternating view' tr') := by
  unfold calls Alternating
  rw [h]
  exact ⟨rfl, Iff.rfl⟩

/-- A call is pending exactly when the latest probe is an entry. -/
theorem pending_isSome (view : ε → Option (Probe α β)) (tr : List ε) :
    (calls view tr).pending.isSome = true ↔
      ((tr.filterMap view).map Probe.isEnter).getLast? = some true := by
  induction tr using List.reverseRecOn with
  | nil => simp [calls]
  | append_singleton pre e ih =>
    cases h : view e with
    | none =>
      rw [calls_snoc_skip h, ih]
      simp only [List.filterMap_append, List.filterMap_cons, h, List.filterMap_nil,
        List.append_nil]
    | some q =>
      rw [calls_snoc h]
      simp only [List.filterMap_append, List.filterMap_cons, h, List.filterMap_nil,
        List.map_append, List.map_cons, List.map_nil, List.getLast?_append,
        List.getLast?_singleton, Option.some_or, Option.some.injEq]
      cases q with
      | enter a => simp [Calls.step, Probe.isEnter]
      | exit b =>
        cases hp : (calls view pre).pending with
        | none => simp [Calls.step, Probe.isEnter, hp]
        | some a => simp [Calls.step, Probe.isEnter, hp]

theorem Alternating.restrict {tr : List ε} (h : Alternating view tr) (hp : pre <+: tr) :
    Alternating view pre := by
  obtain ⟨post, rfl⟩ := hp
  unfold Alternating at h ⊢
  rw [List.filterMap_append, List.map_append] at h
  exact h.left_of_append

theorem Alternating.of_snoc (h : Alternating view (pre ++ [e])) : Alternating view pre :=
  h.restrict (List.prefix_append pre [e])

theorem Alternating.last_ne (h : Alternating view (pre ++ [e])) {q : Probe α β}
    (hq : view e = some q) {k : Bool}
    (hk : ((pre.filterMap view).map Probe.isEnter).getLast? = some k) : k ≠ q.isEnter := by
  unfold Alternating at h
  simp only [List.filterMap_append, List.filterMap_cons, hq, List.filterMap_nil, List.map_append,
    List.map_cons, List.map_nil] at h
  exact (List.isChain_append.mp h).2.2 k hk q.isEnter rfl

theorem Alternating.snoc (h : Alternating view pre) {q : Probe α β} (hq : view e = some q)
    (hk : ∀ k, ((pre.filterMap view).map Probe.isEnter).getLast? = some k → k ≠ q.isEnter) :
    Alternating view (pre ++ [e]) := by
  unfold Alternating at h ⊢
  simp only [List.filterMap_append, List.filterMap_cons, hq, List.filterMap_nil, List.map_append,
    List.map_cons, List.map_nil]
  apply List.isChain_append.mpr
  refine ⟨h, List.isChain_singleton _, ?_⟩
  intro k hlast k' hhead
  cases hhead
  exact hk k hlast

theorem Alternating.snoc_skip (h : Alternating view pre) (he : view e = none) :
    Alternating view (pre ++ [e]) := by
  unfold Alternating at h ⊢
  simpa [List.filterMap_append, he] using h

/-- Probes alternate when each one that is seen is of another kind than the last one before it. -/
theorem alternating_of_steps {tr : List ε}
    (hstep : ∀ (pre : List ε) (e : ε) (q : Probe α β), pre ++ [e] <+: tr → view e = some q →
      ∀ k, ((pre.filterMap view).map Probe.isEnter).getLast? = some k → k ≠ q.isEnter) :
    Alternating view tr := by
  induction tr using List.reverseRecOn with
  | nil => exact List.isChain_nil
  | append_singleton pre e ih =>
    have hpre : Alternating view pre := by
      apply ih
      intro pre' e' q hp
      exact hstep pre' e' q (hp.trans (List.prefix_append pre [e]))
    cases hv : view e with
    | none => exact hpre.snoc_skip hv
    | some q => exact hpre.snoc hv (hstep pre e q List.prefix_rfl hv)

/-- No call is pending when the next one is entered. -/
theorem Alternating.idle (h : Alternating view (pre ++ [e])) {a : α}
    (he : view e = some (.enter a)) : (calls view pre).pending = none := by
  by_contra hne
  have hsome := Option.isSome_iff_ne_none.mpr hne
  exact h.last_ne he ((pending_isSome view pre).mp hsome) rfl

/-- A return probe either ends the pending call or is the first probe of all. -/
theorem Alternating.returns (h : Alternating view (pre ++ [e])) {b : β}
    (he : view e = some (.exit b)) :
    (∃ a, (calls view pre).pending = some a) ∨ pre.filterMap view = [] := by
  cases hl : ((pre.filterMap view).map Probe.isEnter).getLast? with
  | none =>
    rw [List.getLast?_eq_none_iff, List.map_eq_nil_iff] at hl
    exact Or.inr hl
  | some k =>
    have hk : k = true := (Bool.not_eq_false k).mp (h.last_ne he hl)
    rw [hk] at hl
    exact Or.inl (Option.isSome_iff_exists.mp ((pending_isSome view pre).mpr hl))

/-- What is held for a caller: `v` before any probe of its fired, and what the entry of the pending
call left. -/
structure Remembers (view : ε → Option (Probe α β)) (v held : Option α) (tr : List ε) : Prop where
  unseen : tr.filterMap view = [] → held = v
  begun : ∀ a, (calls view tr).pending = some a → held = some a

namespace Remembers

variable {v held : Option α}

theorem nil : Remembers view v v [] := ⟨fun _ => rfl, fun _ h => by cases h⟩

theorem skip (h : Remembers view v held pre) (he : view e = none) :
    Remembers view v held (pre ++ [e]) := by
  constructor
  · intro hnil
    apply h.unseen
    simpa [List.filterMap_append, he] using hnil
  · rw [calls_snoc_skip he]
    exact h.begun

theorem enter {a : α} (he : view e = some (.enter a)) :
    Remembers view v (some a) (pre ++ [e]) := by
  constructor
  · intro hnil
    simp [List.filterMap_append, he] at hnil
  · intro a' ha
    rw [calls_snoc he] at ha
    exact ha

/-- Nothing is pending after a return, so anything may be held. -/
theorem exit {b : β} (he : view e = some (.exit b)) : Remembers view v held (pre ++ [e]) := by
  constructor
  · intro hnil
    simp [List.filterMap_append, he] at hnil
  · intro a ha
    rw [calls_snoc he, Calls.step] at ha
    cases hp : (calls view pre).pending with
    | none =>
      rw [hp] at ha
      exact absurd (hp.symm.trans ha) (by simp)
    | some a' =>
      rw [hp] at ha
      cases ha

/-- At a return the entry of its call is held, or it is the first probe of all. -/
theorem returns (h : Remembers view v held pre) (halt : Alternating view (pre ++ [e])) {b : β}
    (he : view e = some (.exit b)) :
    (∃ a, (calls view pre).pending = some a ∧ held = some a) ∨
      ((calls view pre).pending = none ∧ held = v) := by
  rcases halt.returns he with ⟨a, hpending⟩ | hnil
  · exact Or.inl ⟨a, hpending, h.begun a hpending⟩
  · have hidle : (calls view pre).pending = none := by simp [calls, hnil]
    exact Or.inr ⟨hidle, h.unseen hnil⟩

end Remembers

end CpuSubsystem
