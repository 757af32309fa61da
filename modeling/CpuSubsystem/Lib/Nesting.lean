import Mathlib.Data.List.Basic
import Mathlib.Logic.Function.Basic

/-!
# Properly nested calls that take locks and give them back

A thread calls functions `φ` on locks `κ` at times `τ`.  Its calls are on a stack, and what it holds
of a lock is given back in the opposite order.  The calls of some functions are requests that an
observer sees; of every request it is remembered whether others were seen after it.
-/

namespace CpuSubsystem

/-- A call that has not returned. -/
structure PendingCall (φ κ τ : Type*) where
  fn : φ
  lock : κ
  begun : τ
  /-- The call is a request, and no other was seen since. -/
  alone : Bool
  /-- The call is a request, and no other for this lock was seen since. -/
  latest : Bool

/-- What a call that has returned holds of its lock. -/
structure Holding (τ : Type*) where
  begun : τ
  acquired : τ
  /-- The call was a request, and no other was seen until it returned. -/
  alone : Bool
  /-- The call was a request, and no other for this lock was seen since. -/
  latest : Bool

/-- The innermost call and the last holding of a lock are the first of their lists. -/
structure Caller (φ κ τ : Type*) where
  calls : List (PendingCall φ κ τ)
  held : κ → List (Holding τ)

section Steps

variable {φ κ τ : Type*} [DecidableEq κ]

/-- Another request, for this lock, was seen. -/
def PendingCall.passed (k : PendingCall φ κ τ) (lock : κ) : PendingCall φ κ τ :=
  { k with alone := false, latest := k.latest && k.lock != lock }

def Holding.passed (h : Holding τ) : Holding τ := { h with latest := false }

namespace Caller

def idle : Caller φ κ τ := ⟨[], fun _ => []⟩

variable (requests takes : φ → Bool)

def call (c : Caller φ κ τ) (fn : φ) (lock : κ) (now : τ) : Caller φ κ τ :=
  if requests fn then
    ⟨⟨fn, lock, now, true, true⟩ :: c.calls.map fun k => k.passed lock,
      Function.update c.held lock ((c.held lock).map Holding.passed)⟩
  else ⟨⟨fn, lock, now, false, false⟩ :: c.calls, c.held⟩

/-- The innermost call returns; `ok` is whether it did what it is for. -/
def ret (c : Caller φ κ τ) (ok : Bool) (now : τ) : Caller φ κ τ :=
  match c.calls with
  | [] => c
  | f :: rest =>
    ⟨rest,
      if ok then
        if takes f.fn then
          Function.update c.held f.lock (⟨f.begun, now, f.alone, f.latest⟩ :: c.held f.lock)
        else Function.update c.held f.lock (c.held f.lock).tail
      else c.held⟩

/-- What is known of the requests. -/
structure Ordered (c : Caller φ κ τ) : Prop where
  /-- An inner request is a later one. -/
  stack : c.calls.Pairwise fun inner outer => requests inner.fn = true →
    outer.alone = false ∧ (outer.lock = inner.lock → outer.latest = false)
  requested : ∀ k ∈ c.calls, k.latest = true → requests k.fn = true
  alone : ∀ k ∈ c.calls, k.alone = true → k.latest = true
  /-- The last request for a lock cannot have returned while it has not. -/
  free : ∀ k ∈ c.calls, k.latest = true → ∀ h ∈ c.held k.lock, h.latest = false

end Caller

end Steps

namespace Caller

variable {φ κ τ : Type*} {requests takes : φ → Bool} {c : Caller φ κ τ} {f : PendingCall φ κ τ}
  {rest : List (PendingCall φ κ τ)}

theorem ordered_idle : (idle : Caller φ κ τ).Ordered requests where
  stack := List.Pairwise.nil
  requested k hk := by cases hk
  alone k hk := by cases hk
  free k hk := by cases hk

theorem innermost_mem (hcalls : c.calls = f :: rest) : f ∈ c.calls := by
  rw [hcalls]
  exact List.mem_cons_self

/-- The calls around a request. -/
theorem Ordered.outer (h : c.Ordered requests) (hcalls : c.calls = f :: rest)
    (hf : requests f.fn = true) {k : PendingCall φ κ τ} (hk : k ∈ rest) :
    k.alone = false ∧ (k.latest = true → k.lock ≠ f.lock) := by
  have hstack := h.stack
  rw [hcalls] at hstack
  obtain ⟨halone, hlatest⟩ := List.rel_of_pairwise_cons hstack hk hf
  refine ⟨halone, fun hl hlock => ?_⟩
  rw [hlatest hlock] at hl
  cases hl

variable [DecidableEq κ]

/-! ### A call begins -/

/-- A call that stays the last request for its lock is for another lock. -/
theorem passed_latest {k : PendingCall φ κ τ} {lock : κ} (h : (k.passed lock).latest = true) :
    k.latest = true ∧ k.lock ≠ lock := by
  simpa [PendingCall.passed] using h

theorem mem_calls_call {fn : φ} {lock : κ} {now : τ} (hreq : requests fn = true)
    {k : PendingCall φ κ τ} (hk : k ∈ (c.call requests fn lock now).calls) :
    k = ⟨fn, lock, now, true, true⟩ ∨ ∃ k' ∈ c.calls, k = k'.passed lock := by
  rw [call, if_pos hreq] at hk
  rcases List.mem_cons.mp hk with hk | hk
  · exact Or.inl hk
  · obtain ⟨k', hk', rfl⟩ := List.mem_map.mp hk
    exact Or.inr ⟨k', hk', rfl⟩

theorem mem_held_call {fn : φ} {lock p : κ} {now : τ} (hreq : requests fn = true) {i : Holding τ}
    (hi : i ∈ (c.call requests fn lock now).held p) :
    p ≠ lock ∧ i ∈ c.held p ∨ p = lock ∧ ∃ i' ∈ c.held p, i = i'.passed := by
  simp only [call, hreq, if_true] at hi
  by_cases hp : p = lock
  · subst hp
    rw [Function.update_self] at hi
    obtain ⟨i', hi', rfl⟩ := List.mem_map.mp hi
    exact Or.inr ⟨rfl, i', hi', rfl⟩
  · rw [Function.update_of_ne hp] at hi
    exact Or.inl ⟨hp, hi⟩

theorem call_unseen {fn : φ} (hreq : requests fn = false) (lock : κ) (now : τ) :
    c.call requests fn lock now = ⟨⟨fn, lock, now, false, false⟩ :: c.calls, c.held⟩ := by
  rw [call, hreq, if_neg Bool.false_ne_true]

theorem Ordered.unseen (h : c.Ordered requests) {fn : φ} (hreq : requests fn = false) (lock : κ)
    (now : τ) : (c.call requests fn lock now).Ordered requests := by
  rw [call_unseen hreq]
  refine ⟨List.pairwise_cons.mpr ⟨fun k _ hr => ?_, h.stack⟩, ?_, ?_, ?_⟩
  · rw [hreq] at hr
    cases hr
  · intro k hk hl
    rcases List.mem_cons.mp hk with rfl | hk
    · cases hl
    · exact h.requested k hk hl
  · intro k hk ha
    rcases List.mem_cons.mp hk with rfl | hk
    · cases ha
    · exact h.alone k hk ha
  · intro k hk hl
    rcases List.mem_cons.mp hk with rfl | hk
    · cases hl
    · exact h.free k hk hl

theorem Ordered.request (h : c.Ordered requests) {fn : φ} (hreq : requests fn = true) (lock : κ)
    (now : τ) : (c.call requests fn lock now).Ordered requests := by
  constructor
  · -- the new request is inside of all calls, and each of them is passed
    rw [Caller.call, if_pos hreq]
    refine List.pairwise_cons.mpr ⟨?_, ?_⟩
    · intro k hk _
      obtain ⟨k, -, rfl⟩ := List.mem_map.mp hk
      refine ⟨rfl, fun hlock => ?_⟩
      have heq : k.lock = lock := hlock
      simp [PendingCall.passed, heq]
    · refine List.pairwise_map.mpr (h.stack.imp fun hk hr => ⟨rfl, fun hlock => ?_⟩)
      simp [PendingCall.passed, (hk hr).2 hlock]
  · intro k hk hl
    rcases mem_calls_call hreq hk with rfl | ⟨k', hk', rfl⟩
    · exact hreq
    · exact h.requested k' hk' (passed_latest hl).1
  · intro k hk ha
    rcases mem_calls_call hreq hk with rfl | ⟨k', -, rfl⟩
    · rfl
    · cases ha
  · intro k hk hl i hi
    rcases mem_held_call hreq hi with ⟨hp, hi⟩ | ⟨-, i, -, rfl⟩
    · rcases mem_calls_call hreq hk with rfl | ⟨k', hk', rfl⟩
      · exact absurd rfl hp
      · exact h.free k' hk' (passed_latest hl).1 i hi
    · rfl

theorem Ordered.call (h : c.Ordered requests) (fn : φ) (lock : κ) (now : τ) :
    (c.call requests fn lock now).Ordered requests := by
  cases hreq : requests fn with
  | false => exact h.unseen hreq lock now
  | true => exact h.request hreq lock now

/-! ### The innermost call returns -/

/-- The holdings of a lock after a return: those before it, and that of the call if it took the
lock. -/
theorem mem_held_ret {ok : Bool} {now : τ} {p : κ} {i : Holding τ} (hcalls : c.calls = f :: rest)
    (hi : i ∈ (c.ret takes ok now).held p) :
    i ∈ c.held p ∨ ok = true ∧ takes f.fn = true ∧ p = f.lock ∧
      i = ⟨f.begun, now, f.alone, f.latest⟩ := by
  simp only [ret, hcalls] at hi
  split_ifs at hi with hok htakes
  · by_cases hp : p = f.lock
    · subst hp
      rw [Function.update_self] at hi
      rcases List.mem_cons.mp hi with hi | hi
      · exact Or.inr ⟨hok, htakes, rfl, hi⟩
      · exact Or.inl hi
    · rw [Function.update_of_ne hp] at hi
      exact Or.inl hi
  · by_cases hp : p = f.lock
    · subst hp
      rw [Function.update_self] at hi
      exact Or.inl (List.mem_of_mem_tail hi)
    · rw [Function.update_of_ne hp] at hi
      exact Or.inl hi
  · exact Or.inl hi

theorem calls_ret {ok : Bool} {now : τ} (hcalls : c.calls = f :: rest) :
    (c.ret takes ok now).calls = rest := by
  simp only [ret, hcalls]

theorem mem_of_mem_ret {ok : Bool} {now : τ} (hcalls : c.calls = f :: rest)
    {k : PendingCall φ κ τ} (hk : k ∈ (c.ret takes ok now).calls) : k ∈ c.calls := by
  rw [calls_ret hcalls] at hk
  rw [hcalls]
  exact List.mem_cons_of_mem f hk

theorem Ordered.ret (h : c.Ordered requests) (takes : φ → Bool) (ok : Bool) (now : τ) :
    (c.ret takes ok now).Ordered requests := by
  cases hcalls : c.calls with
  | nil =>
    have hsame : c.ret takes ok now = c := by simp only [Caller.ret, hcalls]
    rw [hsame]
    exact h
  | cons f rest =>
    constructor
    · rw [calls_ret hcalls]
      have hstack := h.stack
      rw [hcalls] at hstack
      exact hstack.of_cons
    · intro k hk hl
      exact h.requested k (mem_of_mem_ret hcalls hk) hl
    · intro k hk ha
      exact h.alone k (mem_of_mem_ret hcalls hk) ha
    · intro k hk hl i hi
      rcases mem_held_ret hcalls hi with hi | ⟨-, -, hlock, rfl⟩
      · exact h.free k (mem_of_mem_ret hcalls hk) hl i hi
      · -- the call that returns is for the same lock, and inside: it is not the last request
        rw [calls_ret hcalls] at hk
        rw [Bool.eq_false_iff]
        intro hf
        have hreq := h.requested f (innermost_mem hcalls) hf
        exact (h.outer hcalls hreq hk).2 hl hlock

end Caller

end CpuSubsystem
