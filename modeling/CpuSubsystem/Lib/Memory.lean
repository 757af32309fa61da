import CpuSubsystem.Lib.Machine

/-!
# Memory that a program did not write

An event can bring memory along with what was there before; `blank` is what is left of the event
without it.  When the memory does not reach the state, two runs that differ in it alone are read in
the same way exactly if this holds of every single event.
-/

namespace CpuSubsystem

/-- Two reservations that differ in memory alone. -/
theorem map_const_eq_iff {μ : Type*} {zero : μ} {slot slot' : Option μ} :
    slot'.map (fun _ => zero) = slot.map (fun _ => zero) ↔
      ∃ mem, slot' = slot.map fun _ => mem := by
  cases slot with
  | none => simpa using fun _ => ⟨zero⟩
  | some mem => simp [Option.map_eq_some_iff]

namespace Machine

variable {σ ε ρ β γ : Type*} (m : Machine σ ε ρ) (blank : ε → β) (read : ρ → Option γ)

/-- What is read of the records that an event emits. -/
def readings (s : σ) (e : ε) : List γ := (m.step s e).2.filterMap read

/-- Two runs that differ in memory alone are read in the same way. -/
def ReadSame (tr : List ε) : Prop :=
  ∀ tr', tr'.map blank = tr.map blank →
    (m.emitted tr').filterMap read = (m.emitted tr).filterMap read

/-- What is read of the event does not depend on its memory. -/
def Settled (pre : List ε) (e : ε) : Prop :=
  ∀ e', blank e' = blank e → m.readings read (m.exec pre) e' = m.readings read (m.exec pre) e

variable {m blank read} {a b tr tr' : List ε}

/-- Two runs that have come to the same state go on in the same way. -/
theorem goes_on (h : m.exec a = m.exec b) (post : List ε) :
    m.exec (a ++ post) = m.exec (b ++ post) ∧
      ∃ out, m.emitted (a ++ post) = m.emitted a ++ out ∧
        m.emitted (b ++ post) = m.emitted b ++ out := by
  induction post using List.reverseRecOn with
  | nil =>
    rw [List.append_nil, List.append_nil]
    exact ⟨h, [], by simp⟩
  | append_singleton post e ih =>
    obtain ⟨hexec, out, ha, hb⟩ := ih
    rw [← List.append_assoc, ← List.append_assoc, m.exec_snoc, m.exec_snoc, m.emitted_snoc,
      m.emitted_snoc, ha, hb, emits, emits, hexec]
    exact ⟨rfl, out ++ (m.step (m.exec (b ++ post)) e).2, by simp⟩

section Blank

variable (hstate : ∀ s e e', blank e = blank e' → (m.step s e).1 = (m.step s e').1)
include hstate

theorem exec_congr (h : tr.map blank = tr'.map blank) : m.exec tr = m.exec tr' := by
  induction tr using List.reverseRecOn generalizing tr' with
  | nil =>
    rw [List.map_nil, eq_comm, List.map_eq_nil_iff] at h
    rw [h]
  | append_singleton tr e ih =>
    obtain ⟨pre, last, rfl, hpre, hlast⟩ := List.map_eq_append_iff.mp
      (h.symm.trans List.map_append)
    obtain ⟨e', rfl, he⟩ := List.map_eq_singleton_iff.mp hlast
    rw [m.exec_snoc, m.exec_snoc, ih hpre.symm]
    exact hstate _ e e' he.symm

theorem readSame_iff (tr : List ε) :
    m.ReadSame blank read tr ↔ Throughout (m.Settled blank read) tr := by
  constructor
  · intro h pre e hp e' he
    obtain ⟨post, rfl⟩ := hp
    have hsame : m.exec (pre ++ [e']) = m.exec (pre ++ [e]) := by
      rw [m.exec_snoc, m.exec_snoc]
      exact hstate _ e' e he
    obtain ⟨-, out, hout', hout⟩ := goes_on hsame post
    have hread := h (pre ++ [e'] ++ post) (by simp [he])
    rw [hout', hout, m.emitted_snoc, m.emitted_snoc] at hread
    simp only [List.filterMap_append, List.append_assoc] at hread
    exact List.append_cancel_right (List.append_cancel_left hread)
  · intro h
    induction tr using List.reverseRecOn with
    | nil =>
      intro tr' ht
      rw [List.map_nil, List.map_eq_nil_iff] at ht
      rw [ht]
    | append_singleton tr e ih =>
      intro tr' ht
      obtain ⟨pre, last, rfl, hpre, hlast⟩ := List.map_eq_append_iff.mp
        (ht.trans List.map_append)
      obtain ⟨e', rfl, he⟩ := List.map_eq_singleton_iff.mp hlast
      have hlines := h.last e' he
      rw [m.emitted_snoc, m.emitted_snoc, List.filterMap_append, List.filterMap_append,
        ih h.of_snoc pre hpre, emits, exec_congr hstate hpre]
      exact congrArg _ hlines

end Blank

/-- The rule for a program with records that show a part of the memory.  `Unwritten` says when such
a record is sent, and `fill` gives an event other memory. -/
theorem readSame_iff_of_shown {μ φ : Type*} {fill : μ → ε → ε} {Unwritten : σ → ε → Prop}
    {field : γ → φ} (part : μ → φ) {a b : μ} (hne : part a ≠ part b)
    (hblank : ∀ e e', blank e' = blank e ↔ ∃ mem, e' = fill mem e)
    (hstate : ∀ s e mem, (m.step s (fill mem e)).1 = (m.step s e).1)
    (hwritten : ∀ s e mem, ¬ Unwritten s e → (m.step s (fill mem e)).2 = (m.step s e).2)
    (hshown : ∀ pre e mem, Unwritten (m.exec pre) e →
      (m.readings read (m.exec pre) (fill mem e)).map field = [part mem]) (tr : List ε) :
    m.ReadSame blank read tr ↔ Throughout (fun pre e => ¬ Unwritten (m.exec pre) e) tr := by
  have hsettled : ∀ pre e, m.Settled blank read pre e ↔ ¬ Unwritten (m.exec pre) e := by
    intro pre e
    constructor
    · intro h hu
      -- the two memories would be shown
      have hread : m.readings read (m.exec pre) (fill a e) =
          m.readings read (m.exec pre) (fill b e) :=
        (h _ ((hblank e _).mpr ⟨a, rfl⟩)).trans (h _ ((hblank e _).mpr ⟨b, rfl⟩)).symm
      have hparts := congrArg (List.map field) hread
      rw [hshown pre e a hu, hshown pre e b hu, List.cons.injEq] at hparts
      exact hne hparts.1
    · intro h e' he'
      obtain ⟨mem, rfl⟩ := (hblank e e').mp he'
      exact congrArg (List.filterMap read) (hwritten _ e mem h)
  have hstate' : ∀ s e e', blank e = blank e' → (m.step s e).1 = (m.step s e').1 := by
    intro s e e' he
    obtain ⟨mem, rfl⟩ := (hblank e' e).mp he
    exact hstate s e' mem
  rw [readSame_iff hstate']
  exact forall₃_congr fun pre e _ => hsettled pre e

end Machine

end CpuSubsystem
