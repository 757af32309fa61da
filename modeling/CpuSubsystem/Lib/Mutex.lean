import CpuSubsystem.Lib.Clock

/-!
# Mutexes

A task that finds the mutex free has it at once; one that finds it owned waits until the owner has
given it back.  The mutex is owned by one task at a time, so that the spans in which it is held
follow one another.
-/

namespace CpuSubsystem

/-- What a task does with a mutex, and when.  A waiter acquires it some time after it was given
back. -/
inductive Use (τ : Type*) where
  | lock (t : τ) (time : UInt64)
  | acquire (t : τ) (time : UInt64)
  | unlock (t : τ) (time : UInt64)
deriving DecidableEq, Repr

def Use.time {τ : Type*} : Use τ → UInt64
  | .lock _ time | .acquire _ time | .unlock _ time => time

/-- The owner with the time of its acquisition, the waiters, and the spans that are over. -/
structure Mutex (τ : Type*) where
  owner : Option (τ × UInt64)
  waiters : List τ
  holds : List Span
deriving DecidableEq, Repr

namespace Mutex

variable {τ : Type*}

def free : Mutex τ := ⟨none, [], []⟩

/-- When the mutex was acquired for the first time. -/
def firstAcquired (x : Mutex τ) : Option UInt64 :=
  match x.holds with
  | [] => x.owner.map Prod.snd
  | i :: _ => some i.1

/-- The spans follow one another, and the owner came after them; nothing is later than `now`. -/
structure Timeline (x : Mutex τ) (now : UInt64) : Prop where
  sequential : Sequential x.holds
  past : ∀ i ∈ x.holds, i.2 ≤ now
  owned : ∀ t since, x.owner = some (t, since) → since ≤ now ∧ ∀ i ∈ x.holds, i.2 ≤ since

theorem timeline_free (now : UInt64) : Timeline (free : Mutex τ) now :=
  ⟨Sequential.nil, fun _ hi => (nomatch hi), fun _ _ ho => (nomatch ho)⟩

section Timeline

variable {x : Mutex τ} {now time : UInt64} {t : τ}

theorem Timeline.later (h : x.Timeline now) (hle : now ≤ time) : x.Timeline time where
  sequential := h.sequential
  past i hi := UInt64.le_trans (h.past i hi) hle
  owned t since ho := ⟨UInt64.le_trans (h.owned t since ho).1 hle, (h.owned t since ho).2⟩

/-- Someone gets the mutex now. -/
theorem Timeline.got (h : x.Timeline now) (t : τ) (waiters : List τ) :
    Timeline ⟨some (t, now), waiters, x.holds⟩ now where
  sequential := h.sequential
  past := h.past
  owned t' since ho := by
    cases ho
    exact ⟨UInt64.le_refl now, h.past⟩

/-- The time in which the mutex was held is no more than what passed since its first acquisition. -/
theorem Timeline.spent_le (h : x.Timeline now) {first : UInt64}
    (hfirst : x.firstAcquired = some first) :
    (x.holds.map Span.delay).sum.toNat + first.toNat ≤ now.toNat := by
  rw [h.sequential.sum_toNat, add_comm]
  unfold firstAcquired at hfirst
  cases hholds : x.holds with
  | nil =>
    rw [hholds] at hfirst
    obtain ⟨o, ho, rfl⟩ := Option.map_eq_some_iff.mp hfirst
    exact UInt64.le_iff_toNat_le.mp (h.owned o.1 o.2 ho).1
  | cons i rest =>
    rw [hholds] at hfirst
    cases hfirst
    have hseq := h.sequential
    have hpast := h.past
    rw [hholds] at hseq hpast
    have hle : i.1 ≤ i.2 := hseq.ordered i List.mem_cons_self
    have hnow := hpast i List.mem_cons_self
    apply CpuSubsystem.spent_le hseq
    · exact UInt64.le_iff_toNat_le.mp (UInt64.le_trans hle hnow)
    · intro j hj
      refine ⟨?_, UInt64.le_iff_toNat_le.mp (hpast j hj)⟩
      rcases List.mem_cons.mp hj with rfl | hj
      · exact le_rfl
      -- a later span begins after the end of the first
      · have hij := List.rel_of_pairwise_cons hseq.disjoint hj
        exact UInt64.le_iff_toNat_le.mp (UInt64.le_trans hle hij)

end Timeline

variable [DecidableEq τ]

/-- Who may do what: nobody locks a mutex twice, and only the owner gives it back. -/
def Allows (x : Mutex τ) : Use τ → Prop
  | .lock t _ => x.owner.map Prod.fst ≠ some t ∧ t ∉ x.waiters
  | .acquire t _ => x.owner = none ∧ t ∈ x.waiters
  | .unlock t _ => x.owner.map Prod.fst = some t

instance (x : Mutex τ) : DecidablePred x.Allows
  | .lock _ _ => inferInstanceAs (Decidable (_ ∧ _))
  | .acquire _ _ => inferInstanceAs (Decidable (_ ∧ _))
  | .unlock _ _ => inferInstanceAs (Decidable (_ = _))

def step (x : Mutex τ) : Use τ → Mutex τ
  | .lock t time =>
    match x.owner with
    | none => { x with owner := some (t, time) }
    | some _ => { x with waiters := t :: x.waiters }
  | .acquire t time => { x with owner := some (t, time), waiters := x.waiters.erase t }
  | .unlock _ time =>
    match x.owner with
    | none => x
    | some (_, since) => { x with owner := none, holds := x.holds ++ [(since, time)] }

/-- A span is over with an unlock. -/
theorem holds_lock (x : Mutex τ) (t : τ) (time : UInt64) :
    (x.step (.lock t time)).holds = x.holds := by
  unfold step
  cases x.owner <;> rfl

theorem Timeline.step {x : Mutex τ} {u : Use τ} (h : x.Timeline u.time) :
    (x.step u).Timeline u.time := by
  cases u with
  | lock t time =>
    cases ho : x.owner with
    | none =>
      simp only [Mutex.step, ho]
      exact h.got t x.waiters
    | some o =>
      simp only [Mutex.step, ho]
      refine ⟨h.sequential, h.past, ?_⟩
      rw [← ho]
      exact h.owned
  | acquire t time =>
    exact h.got t (x.waiters.erase t)
  | unlock t time =>
    cases ho : x.owner with
    | none =>
      simp only [Mutex.step, ho]
      exact h
    | some o =>
      obtain ⟨t', since⟩ := o
      obtain ⟨hsince, hafter⟩ := h.owned t' since ho
      simp only [Mutex.step, ho]
      refine ⟨h.sequential.snoc hsince hafter, ?_, fun _ _ hnone => by cases hnone⟩
      intro i hi
      rcases List.mem_append.mp hi with hi | hi
      · exact h.past i hi
      · rw [List.mem_singleton.mp hi]
        exact UInt64.le_refl time

end Mutex

end CpuSubsystem
