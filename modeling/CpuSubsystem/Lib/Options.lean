import CpuSubsystem.Lib.Latest
import CpuSubsystem.Lib.Outcome
import Mathlib.Logic.Function.Basic

/-!
# Programs that are told by options which cells to write

The options of a command line are folded into a record, one after the other, by a parser that may
refuse one of them; the record is then expanded into writes.
-/

namespace CpuSubsystem

universe u

variable {ε γ ι ν β : Type*} {σ : Type u}

/-- `strtol`: the number of the text, or the nearest `long`. -/
def strtol (n : Int) : Int :=
  if n < -9223372036854775808 then -9223372036854775808
  else if n > 9223372036854775807 then 9223372036854775807
  else n

/-- A checked option is accepted if its check does not fail. -/
theorem exists_ok_of_check {p : Prop} [Decidable p] {e : ε} {s : σ} :
    (∃ s', (if p then Except.error e else Except.ok s) = .ok s') ↔ ¬p := by
  by_cases hp : p
  · rw [if_pos hp]
    exact ⟨fun ⟨_, h⟩ => (nomatch h), fun h => absurd hp h⟩
  · rw [if_neg hp]
    exact ⟨fun _ => hp, fun _ => ⟨s, rfl⟩⟩

section Parser

variable {f : σ → γ → Except ε σ} {l : List γ} {s s' : σ}

/-- A list is accepted if each option is, where the record plays no part in it. -/
theorem foldlM_accepts {accepts : γ → Prop}
    (hstep : ∀ s c, (∃ s', f s c = .ok s') ↔ accepts c) :
    (∃ s', l.foldlM f s = .ok s') ↔ ∀ c ∈ l, accepts c := by
  induction l generalizing s with
  | nil => exact ⟨fun _ => nofun, fun _ => ⟨s, rfl⟩⟩
  | cons c l ih =>
    rw [List.forall_mem_cons, ← hstep s c]
    simp only [List.foldlM_cons, bind_eq_ok]
    constructor
    · rintro ⟨s', a, ha, hs'⟩
      exact ⟨⟨a, ha⟩, ih.mp ⟨s', hs'⟩⟩
    · rintro ⟨⟨a, ha⟩, hl⟩
      obtain ⟨s', hs'⟩ := (ih (s := a)).mpr hl
      exact ⟨s', a, ha, hs'⟩

/-- A field that options set to a value keeps the latest one. -/
theorem foldlM_latest {field : σ → β} {sets : γ → Option β}
    (hstep : ∀ s c s', f s c = .ok s' → field s' = (sets c).getD (field s))
    (h : l.foldlM f s = .ok s') : field s' = (latest sets l).getD (field s) := by
  induction l using List.reverseRecOn generalizing s' with
  | nil =>
    cases h
    rfl
  | append_singleton l c ih =>
    obtain ⟨a, ha, hc⟩ := foldlM_snoc_eq_ok.mp h
    rw [hstep a c s' hc, ih ha, latest_snoc]
    cases sets c <;> rfl

/-- A flag that options only raise is up if one of them raises it. -/
theorem foldlM_flag {flag : σ → Bool} {raises : γ → Bool}
    (hstep : ∀ s c s', f s c = .ok s' → flag s' = (flag s || raises c))
    (h : l.foldlM f s = .ok s') : flag s' = (flag s || l.any raises) := by
  induction l using List.reverseRecOn generalizing s' with
  | nil =>
    cases h
    exact (Bool.or_false _).symm
  | append_singleton l c ih =>
    obtain ⟨a, ha, hc⟩ := foldlM_snoc_eq_ok.mp h
    rw [hstep a c s' hc, ih ha, List.any_append, List.any_cons, List.any_nil, Bool.or_false,
      Bool.or_assoc]

end Parser

/-- What each case of a parser does to the use mode and to the flags of the cells. -/
structure ParserCases (f : σ → γ → Except ε σ) (initial : σ) (Accepted : γ → Prop)
    (mode? : γ → Option Nat) (enables : γ → ι → Bool) (usemode : σ → Nat)
    (enabled : σ → ι → Bool) : Prop where
  accepts : ∀ s o, (∃ s', f s o = .ok s') ↔ Accepted o
  sets_mode : ∀ s o s', f s o = .ok s' → usemode s' = (mode? o).getD (usemode s)
  raises : ∀ s o s', f s o = .ok s' → ∀ i, enabled s' i = (enabled s i || enables o i)
  initial_mode : usemode initial = 0
  initial_flags : ∀ i, enabled initial i = false

/-- The writes for a list of options; a refused option ends the program before them. -/
def writesFor (f : σ → γ → Except ε σ) (initial : σ) (run : σ → List ν) (l : List γ) : List ν :=
  match l.foldlM f initial with
  | .error _ => []
  | .ok s => run s

section Flags

variable {f : σ → γ → Except ε σ} {initial : σ} {Accepted : γ → Prop} {mode? : γ → Option Nat}
  {enables : γ → ι → Bool} {usemode : σ → Nat} {enabled : σ → ι → Bool} {cell : ν → ι}
  {run : σ → List ν}

/-- A flag is up at the end if an option raises it, and the last use mode decides on the writes. -/
theorem ParserCases.mem_writesFor
    (hf : ParserCases f initial Accepted mode? enables usemode enabled) (Writes : Nat → Prop)
    (h0 : ¬Writes 0)
    (hrun : ∀ s i, i ∈ (run s).map cell ↔ Writes (usemode s) ∧ enabled s i = true)
    (l : List γ) (i : ι) :
    i ∈ (writesFor f initial run l).map cell ↔
      ((∀ o ∈ l, Accepted o) ∧ ∃ k ∈ latest mode? l, Writes k) ∧ ∃ o ∈ l, enables o i = true := by
  have hacc := foldlM_accepts (l := l) (s := initial) hf.accepts
  unfold writesFor
  rw [← hacc]
  cases hl : l.foldlM f initial with
  | error e => simp only [List.map_nil, List.not_mem_nil, reduceCtorEq, exists_false, false_and]
  | ok s =>
    -- the three parts of the record that the writes depend on, from the whole list
    have hmode : usemode s = (latest mode? l).getD 0 := by
      rw [foldlM_latest hf.sets_mode hl, hf.initial_mode]
    have hflag : enabled s i = l.any (fun o => enables o i) := by
      have hstep : ∀ s o s', f s o = .ok s' → enabled s' i = (enabled s i || enables o i) :=
        fun s o s' h => hf.raises s o s' h i
      rw [foldlM_flag hstep hl, hf.initial_flags, Bool.false_or]
    have hwrites : Writes (usemode s) ↔ ∃ k ∈ latest mode? l, Writes k := by
      rw [hmode]
      cases latest mode? l with
      | none => exact ⟨fun h => absurd h h0, fun ⟨_, hk, _⟩ => nomatch hk⟩
      | some k => simp only [Option.getD_some, Option.mem_def, Option.some.injEq, exists_eq_left']
    rw [hrun, hwrites, hflag, List.any_eq_true]
    simp only [Except.ok.injEq, exists_eq', true_and]

end Flags

/-- A write under a flag. -/
theorem mem_map_guarded {cell : ν → ι} {flag : Bool} {v : ν} {i : ι} :
    i ∈ (if flag then [v] else []).map cell ↔ flag = true ∧ i = cell v := by
  cases flag with
  | true => simp only [if_true, List.map_cons, List.map_nil, List.mem_singleton, true_and]
  | false => simp only [Bool.false_eq_true, if_false, List.map_nil, List.not_mem_nil, false_and]

section Writes

variable [DecidableEq ι] (cell : ν → ι)

/-- Every value is written to its own cell. -/
def writeAll (m : ι → ν) (writes : List ν) : ι → ν :=
  writes.foldl (fun m v => Function.update m (cell v) v) m

/-- A cell that no value belongs to is left as it was. -/
theorem writeAll_of_notMem {m : ι → ν} {writes : List ν} {i : ι} (h : i ∉ writes.map cell) :
    writeAll cell m writes i = m i := by
  unfold writeAll
  induction writes generalizing m with
  | nil => rfl
  | cons v writes ih =>
    rw [List.map_cons, List.mem_cons, not_or] at h
    rw [List.foldl_cons, ih h.2, Function.update_of_ne h.1]

variable (names : γ → Option ι)

/-- Exactly the cells that the options name are written. -/
structure TouchesNamed (args : List γ) (writes : List ν) : Prop where
  written : ∀ i, i ∈ writes.map cell ↔ ∃ o ∈ args, names o = some i
  others : ∀ (m : ι → ν) i, (∀ o ∈ args, names o ≠ some i) → writeAll cell m writes i = m i

/-- One kind of option goes on into the case of another cell; that cell has to be named too. -/
theorem touchesNamed_iff {args : List γ} {writes : List ν} {runs : Prop} {falls : γ → Prop}
    {next : ι} {enables : γ → ι → Bool}
    (hwrites : ∀ i, i ∈ writes.map cell ↔ runs ∧ ∃ o ∈ args, enables o i = true)
    (henables : ∀ o i, enables o i = true ↔ names o = some i ∨ i = next ∧ falls o) :
    TouchesNamed cell names args writes ↔
      (runs → (∃ o ∈ args, falls o) → ∃ o ∈ args, names o = some next) ∧
      (¬runs → ∀ o ∈ args, names o = none) := by
  have h : ∀ i, i ∈ writes.map cell ↔
      runs ∧ ((∃ o ∈ args, names o = some i) ∨ i = next ∧ ∃ o ∈ args, falls o) := by
    intro i
    rw [hwrites]
    simp only [henables, and_or_left, exists_or, and_left_comm, exists_and_left]
  constructor
  · intro ht
    constructor
    · -- the option that goes on writes the next cell, which then has to be named
      intro hr hf
      exact (ht.written next).mp ((h next).mpr ⟨hr, .inr ⟨rfl, hf⟩⟩)
    · intro hr o ho
      cases hn : names o with
      | none => rfl
      | some i => exact absurd ((h i).mp ((ht.written i).mpr ⟨o, ho, hn⟩)).1 hr
  · rintro ⟨hruns, hnot⟩
    have hw : ∀ i, i ∈ writes.map cell ↔ ∃ o ∈ args, names o = some i := by
      intro i
      rw [h]
      constructor
      · rintro ⟨hr, hn | ⟨rfl, hf⟩⟩
        · exact hn
        · exact hruns hr hf
      · rintro ⟨o, ho, hn⟩
        refine ⟨?_, .inl ⟨o, ho, hn⟩⟩
        by_contra hr
        rw [hnot hr o ho] at hn
        cases hn
    -- a cell that is not named is not written, and so left alone
    refine ⟨hw, fun m i hi => writeAll_of_notMem cell ?_⟩
    rw [hw]
    rintro ⟨o, ho, hn⟩
    exact hi o ho hn

end Writes

end CpuSubsystem
