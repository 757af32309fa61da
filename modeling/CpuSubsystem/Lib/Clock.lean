import CpuSubsystem.Lib.Calls
import Mathlib.Algebra.BigOperators.Group.List.Basic
import Mathlib.Data.UInt

/-!
# Spans of time on a 64-bit clock

A span is the pair of times at which a call began and ended.  Spans that follow one another take
up at most the range of the clock, so that their wrapping sum is the time spent.  The calls of one
caller are such spans when its clock does not go backwards.
-/

namespace CpuSubsystem

/-- A span of time: its beginning and its end. -/
abbrev Span := UInt64 × UInt64

/-- The wrapping difference that the programs compute. -/
def Span.delay (i : Span) : UInt64 := i.2 - i.1

structure Sequential (l : List Span) : Prop where
  ordered : ∀ i ∈ l, i.1 ≤ i.2
  disjoint : l.Pairwise fun i j => i.2 ≤ j.1

theorem Sequential.sublist {l l' : List Span} (h : Sequential l) (hs : l'.Sublist l) :
    Sequential l' :=
  ⟨fun i hi => h.ordered i (hs.subset hi), h.disjoint.sublist hs⟩

theorem Sequential.nil : Sequential [] where
  ordered i hi := by cases hi
  disjoint := List.Pairwise.nil

theorem Sequential.snoc {l : List Span} {i : Span} (h : Sequential l) (hi : i.1 ≤ i.2)
    (hl : ∀ j ∈ l, j.2 ≤ i.1) : Sequential (l ++ [i]) := by
  refine ⟨?_, List.pairwise_append.mpr ⟨h.disjoint, List.pairwise_singleton _ i, ?_⟩⟩
  · intro j hj
    rcases List.mem_append.mp hj with hj | hj
    · exact h.ordered j hj
    · rw [List.mem_singleton.mp hj]
      exact hi
  · intro j hj k hk
    rw [List.mem_singleton.mp hk]
    exact hl j hj

/-- The time spent, as a number that does not wrap. -/
def spent (l : List Span) : Nat := (l.map fun i => i.2.toNat - i.1.toNat).sum

theorem spent_cons (i : Span) (l : List Span) :
    spent (i :: l) = (i.2.toNat - i.1.toNat) + spent l := by
  simp only [spent, List.map_cons, List.sum_cons]

theorem spent_le {l : List Span} (h : Sequential l) {lo hi : Nat} (hle : lo ≤ hi)
    (hb : ∀ i ∈ l, lo ≤ i.1.toNat ∧ i.2.toNat ≤ hi) : lo + spent l ≤ hi := by
  induction l generalizing lo with
  | nil => simpa [spent] using hle
  | cons i l ih =>
    have hi := hb i List.mem_cons_self
    have hord := UInt64.le_iff_toNat_le.mp (h.ordered i List.mem_cons_self)
    have hrest := ih (h.sublist (List.sublist_cons_self i l)) hi.2 (fun j hj =>
      ⟨UInt64.le_iff_toNat_le.mp (List.rel_of_pairwise_cons h.disjoint hj),
        (hb j (List.mem_cons_of_mem i hj)).2⟩)
    rw [spent_cons]
    omega

/-- The wrapping sum of the delays is the time spent. -/
theorem Sequential.sum_toNat {l : List Span} (h : Sequential l) :
    (l.map Span.delay).sum.toNat = spent l := by
  induction l with
  | nil => rfl
  | cons i l ih =>
    have hord := h.ordered i List.mem_cons_self
    have hle := UInt64.le_iff_toNat_le.mp hord
    have hbound : 0 + spent (i :: l) ≤ 2 ^ 64 - 1 :=
      spent_le h (Nat.zero_le _) (fun j _ => ⟨Nat.zero_le _, Nat.le_pred_of_lt j.2.toNat_lt⟩)
    rw [spent_cons] at hbound ⊢
    rw [List.map_cons, List.sum_cons, UInt64.toNat_add, Span.delay,
      UInt64.toNat_sub_of_le _ _ hord, ih (h.sublist (List.sublist_cons_self i l))]
    exact Nat.mod_eq_of_lt (by omega)

/-- Spans that take between `lo` and `hi` each. -/
theorem Sequential.sum_between {l : List Span} (h : Sequential l) {lo hi : UInt64}
    (hb : ∀ i ∈ l, lo ≤ i.delay ∧ i.delay ≤ hi) :
    lo.toNat * l.length ≤ (l.map Span.delay).sum.toNat ∧
      (l.map Span.delay).sum.toNat ≤ hi.toNat * l.length := by
  have hnat : ∀ i ∈ l, lo.toNat ≤ i.2.toNat - i.1.toNat ∧ i.2.toNat - i.1.toNat ≤ hi.toNat := by
    intro i hi'
    obtain ⟨hlo, hhi⟩ := hb i hi'
    rw [UInt64.le_iff_toNat_le, Span.delay, UInt64.toNat_sub_of_le _ _ (h.ordered i hi')] at hlo hhi
    exact ⟨hlo, hhi⟩
  rw [h.sum_toNat, spent]
  clear hb h
  induction l with
  | nil => simp
  | cons i l ih =>
    obtain ⟨hlo, hhi⟩ := ih fun j hj => hnat j (List.mem_cons_of_mem i hj)
    obtain ⟨hlo', hhi'⟩ := hnat i List.mem_cons_self
    rw [List.map_cons, List.sum_cons, List.length_cons, Nat.mul_succ, Nat.mul_succ]
    omega

section Calls

variable {ε α β : Type*} (start : α → UInt64) (stop : β → UInt64)

/-- The time of a probe. -/
def Probe.stamp : Probe α β → UInt64
  | .enter a => start a
  | .exit b => stop b

/-- The spans of completed calls. -/
def spans (l : List (α × β)) : List Span := l.map fun c => (start c.1, stop c.2)

/-- The clock that the probes of a view read does not go backwards. -/
def Monotonic (view : ε → Option (Probe α β)) (tr : List ε) : Prop :=
  ((tr.filterMap view).map (Probe.stamp start stop)).Pairwise (· ≤ ·)

instance (view : ε → Option (Probe α β)) (tr : List ε) : Decidable (Monotonic start stop view tr) :=
  inferInstanceAs (Decidable (List.Pairwise _ _))

/-- What is known after the probes `ps`: the completed calls follow one another, the times of all
calls are times of probes, and the pending call began after the completed ones. -/
structure CallSpans (ps : List (Probe α β)) (c : Calls α β) : Prop where
  sequential : Sequential (spans start stop c.completed)
  stops : ∀ i ∈ spans start stop c.completed, i.2 ∈ ps.map (Probe.stamp start stop)
  starts : ∀ a, c.pending = some a → start a ∈ ps.map (Probe.stamp start stop)
  after : ∀ a, c.pending = some a → ∀ i ∈ spans start stop c.completed, i.2 ≤ start a

variable {start stop}

theorem CallSpans.step {ps : List (Probe α β)} {c : Calls α β} (h : CallSpans start stop ps c)
    (q : Probe α β)
    (hlast : ∀ t ∈ ps.map (Probe.stamp start stop), t ≤ q.stamp start stop) :
    CallSpans start stop (ps ++ [q]) (c.step q) := by
  have hold : ∀ t ∈ ps.map (Probe.stamp start stop),
      t ∈ (ps ++ [q]).map (Probe.stamp start stop) := by
    intro t ht
    rw [List.map_append]
    exact List.mem_append_left _ ht
  have hnew : q.stamp start stop ∈ (ps ++ [q]).map (Probe.stamp start stop) :=
    List.mem_map_of_mem (List.mem_append_right ps (List.mem_singleton_self q))
  cases q with
  | enter a =>
    refine ⟨h.sequential, fun i hi => hold _ (h.stops i hi), fun b hb => ?_, fun b hb i hi => ?_⟩
    · cases hb
      exact hnew
    · cases hb
      exact hlast _ (h.stops i hi)
  | exit b =>
    cases hp : c.pending with
    | none =>
      simp only [Calls.step, hp]
      exact ⟨h.sequential, fun i hi => hold _ (h.stops i hi),
        fun a ha => hold _ (h.starts a ha), h.after⟩
    | some a =>
      have hspans : spans start stop (c.step (.exit b)).completed =
          spans start stop c.completed ++ [(start a, stop b)] := by
        simp only [Calls.step, hp, spans, List.map_append, List.map_cons, List.map_nil]
      have hidle : (c.step (.exit b)).pending = none := by
        simp only [Calls.step, hp]
      constructor
      · rw [hspans]
        exact h.sequential.snoc (hlast _ (h.starts a hp)) (h.after a hp)
      · rw [hspans]
        intro i hi
        rcases List.mem_append.mp hi with hi | hi
        · exact hold _ (h.stops i hi)
        · rw [List.mem_singleton.mp hi]
          exact hnew
      · intro a' ha'
        rw [hidle] at ha'
        cases ha'
      · intro a' ha'
        rw [hidle] at ha'
        cases ha'

/-- The calls of a caller whose clock does not go backwards follow one another. -/
theorem calls_sequential {view : ε → Option (Probe α β)} {tr : List ε}
    (h : Monotonic start stop view tr) :
    Sequential (spans start stop (calls view tr).completed) := by
  suffices hs : CallSpans start stop (tr.filterMap view) (calls view tr) from hs.sequential
  unfold Monotonic at h
  unfold calls
  generalize tr.filterMap view = ps at h ⊢
  induction ps using List.reverseRecOn with
  | nil =>
    refine ⟨Sequential.nil, ?_, ?_, ?_⟩
    · intro i hi
      cases hi
    · intro a ha
      cases ha
    · intro a ha
      cases ha
  | append_singleton ps q ih =>
    rw [List.map_append, List.pairwise_append] at h
    rw [List.foldl_append, List.foldl_cons, List.foldl_nil]
    exact (ih h.1).step q (fun t ht => h.2.2 t ht _ (List.mem_singleton_self _))

/-- On a clock that advances from probe to probe every call takes time. -/
theorem calls_lasting {view : ε → Option (Probe α β)} {tr : List ε}
    (h : ((tr.filterMap view).map (Probe.stamp start stop)).Pairwise (· < ·)) :
    ∀ i ∈ spans start stop (calls view tr).completed, i.1 < i.2 := by
  suffices hs : (∀ i ∈ spans start stop (calls view tr).completed, i.1 < i.2) ∧
      ∀ a, (calls view tr).pending = some a →
        start a ∈ (tr.filterMap view).map (Probe.stamp start stop) from hs.1
  unfold calls
  generalize tr.filterMap view = ps at h ⊢
  induction ps using List.reverseRecOn with
  | nil =>
    refine ⟨fun i hi => ?_, fun a ha => ?_⟩
    · cases hi
    · cases ha
  | append_singleton ps q ih =>
    rw [List.map_append, List.pairwise_append] at h
    obtain ⟨hlasting, hpending⟩ := ih h.1
    rw [List.foldl_append, List.foldl_cons, List.foldl_nil, List.map_append]
    generalize List.foldl Calls.step ⟨none, []⟩ ps = c at hlasting hpending ⊢
    cases q with
    | enter a =>
      refine ⟨hlasting, fun b hb => ?_⟩
      cases hb
      exact List.mem_append_right _ (List.mem_singleton_self _)
    | exit b =>
      cases hp : c.pending with
      | none =>
        simp only [Calls.step, hp]
        refine ⟨hlasting, fun a ha => ?_⟩
        cases ha
      | some a =>
        simp only [Calls.step, hp]
        refine ⟨fun i hi => ?_, fun a' ha' => by cases ha'⟩
        rw [spans, List.map_append] at hi
        rcases List.mem_append.mp hi with hi | hi
        · exact hlasting i hi
        · rw [List.mem_singleton.mp hi]
          exact h.2.2 _ (hpending a hp) _ (List.mem_singleton_self _)

end Calls

end CpuSubsystem
