import CpuSubsystem.Lib.Latest

/-!
# The call in flight

A `mark` says what an event means for one caller: `some (some a)` begins a call, `some none` ends
whatever is in flight.  The call in flight is named by the position of its beginning in the trace,
so that two ends are ends of one call only when they are the same event.
-/

namespace CpuSubsystem

variable {ε α : Type*} (mark : ε → Option (Option α))

def inFlight (tr : List ε) : Option (Nat × α) :=
  (latest (fun x : ε × Nat => (mark x.1).map fun c => c.map fun a => (x.2, a)) tr.zipIdx).join

variable {mark} {pre post : List ε} {e : ε}

@[simp] theorem inFlight_nil : inFlight mark [] = none := rfl

theorem inFlight_snoc (mark : ε → Option (Option α)) (pre : List ε) (e : ε) :
    inFlight mark (pre ++ [e]) =
      match mark e with
      | some c => c.map fun a => (pre.length, a)
      | none => inFlight mark pre := by
  unfold inFlight
  rw [List.zipIdx_append, List.zipIdx_cons, List.zipIdx_nil, latest_snoc, Nat.zero_add]
  cases mark e with
  | none => rw [Option.map_none, Option.none_or]
  | some c => rw [Option.map_some, Option.some_or]; rfl

theorem inFlight_snoc_skip (h : mark e = none) :
    inFlight mark (pre ++ [e]) = inFlight mark pre := by
  rw [inFlight_snoc, h]

theorem inFlight_snoc_begin {a : α} (h : mark e = some (some a)) :
    inFlight mark (pre ++ [e]) = some (pre.length, a) := by
  rw [inFlight_snoc, h]
  rfl

theorem inFlight_snoc_end (h : mark e = some none) : inFlight mark (pre ++ [e]) = none := by
  rw [inFlight_snoc, h]
  rfl

/-- The call began where its name says. -/
theorem inFlight_begun {tr : List ε} {i : Nat} {a : α} (h : inFlight mark tr = some (i, a)) :
    ∃ e, tr[i]? = some e ∧ mark e = some (some a) := by
  induction tr using List.reverseRecOn with
  | nil => cases h
  | append_singleton pre e ih =>
    cases hm : mark e with
    | none =>
      rw [inFlight_snoc_skip hm] at h
      obtain ⟨x, hget, hx⟩ := ih h
      refine ⟨x, ?_, hx⟩
      rw [List.getElem?_append_left (List.getElem?_eq_some_iff.mp hget).1]
      exact hget
    | some c =>
      cases c with
      | none =>
        rw [inFlight_snoc_end hm] at h
        cases h
      | some b =>
        rw [inFlight_snoc_begin hm] at h
        cases h
        exact ⟨e, by simp, hm⟩

/-- After the end of a call the calls in flight are later ones. -/
theorem inFlight_after_end (he : mark e = some none) {i : Nat} {a : α}
    (h : inFlight mark (pre ++ [e] ++ post) = some (i, a)) : pre.length < i := by
  induction post using List.reverseRecOn with
  | nil =>
    rw [List.append_nil, inFlight_snoc_end he] at h
    cases h
  | append_singleton post x ih =>
    rw [← List.append_assoc] at h
    cases hm : mark x with
    | none =>
      rw [inFlight_snoc_skip hm] at h
      exact ih h
    | some c =>
      cases c with
      | none =>
        rw [inFlight_snoc_end hm] at h
        cases h
      | some b =>
        rw [inFlight_snoc_begin hm] at h
        cases h
        simp only [List.length_append, List.length_singleton]
        omega

theorem inFlight_lt {tr : List ε} {i : Nat} {a : α} (h : inFlight mark tr = some (i, a)) :
    i < tr.length := by
  obtain ⟨e, hget, _⟩ := inFlight_begun h
  exact (List.getElem?_eq_some_iff.mp hget).1

/-- Two ends at which the same call is in flight are one event. -/
theorem inFlight_unique {tr pre pre' : List ε} {e e' : ε} (hp : pre ++ [e] <+: tr)
    (hp' : pre' ++ [e'] <+: tr) (he : mark e = some none) (he' : mark e' = some none) {i : Nat}
    {a a' : α} (h : inFlight mark pre = some (i, a)) (h' : inFlight mark pre' = some (i, a')) :
    pre = pre' := by
  have haux : ∀ {p q : List ε} {x y : ε} {b b' : α}, p ++ [x] <+: tr → q ++ [y] <+: tr →
      mark x = some none → inFlight mark p = some (i, b) → inFlight mark q = some (i, b') →
      ¬p.length < q.length := by
    intro p q x y b b' hpx hqy hx hb hb' hlt
    have hq : q <+: tr := (List.prefix_append q [y]).trans hqy
    have hpq : p ++ [x] <+: q := by
      apply List.prefix_of_prefix_length_le hpx hq
      rw [List.length_append, List.length_singleton]
      exact hlt
    obtain ⟨post, rfl⟩ := hpq
    have hafter := inFlight_after_end hx hb'
    have hbefore := inFlight_lt hb
    omega
  have hlen : pre.length = pre'.length :=
    Nat.le_antisymm (Nat.le_of_not_lt (haux hp' hp he' h' h))
      (Nat.le_of_not_lt (haux hp hp' he h h'))
  have hpre : pre <+: tr := (List.prefix_append pre [e]).trans hp
  have hpre' : pre' <+: tr := (List.prefix_append pre' [e']).trans hp'
  exact (List.prefix_of_prefix_length_le hpre hpre' hlen.le).eq_of_length hlen

end CpuSubsystem
