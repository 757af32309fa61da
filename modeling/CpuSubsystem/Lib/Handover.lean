import CpuSubsystem.Lib.Calls
import CpuSubsystem.Lib.Machine
import Mathlib.Logic.Function.Basic

/-!
# Context switches in two steps

A CPU first turns from one task to the next and then finishes the switch; until it has finished, the
previous task is still its own and nobody else can put it on a CPU.  A task that is on a CPU, or
about to leave it, occupies it.
-/

namespace CpuSubsystem

inductive Hand (κ τ : Type*) where
  | turns (cpu : κ) (prev next : τ)
  | finishes (cpu : κ) (prev : τ)

/-- The task that each CPU runs, and the one that it has turned from. -/
structure Seats (κ τ : Type*) where
  current : κ → τ
  leaving : κ → Option τ

variable {ε κ τ α β : Type*}

section Seats

variable [DecidableEq κ]

def Seats.after (s : Seats κ τ) : Hand κ τ → Seats κ τ
  | .turns cpu prev next =>
    ⟨Function.update s.current cpu next, Function.update s.leaving cpu (some prev)⟩
  | .finishes cpu _ => { s with leaving := Function.update s.leaving cpu none }

/-- A CPU turns from the task that it runs to one that occupies no CPU, once its latest switch is
finished. -/
def Seats.Admits (cpus : List κ) (s : Seats κ τ) : Hand κ τ → Prop
  | .turns cpu prev next =>
    cpu ∈ cpus ∧ s.current cpu = prev ∧ s.leaving cpu = none ∧
      ∀ k ∈ cpus, s.current k ≠ next ∧ s.leaving k ≠ some next
  | .finishes cpu prev => cpu ∈ cpus ∧ s.leaving cpu = some prev

instance [DecidableEq τ] (cpus : List κ) (s : Seats κ τ) (h : Hand κ τ) :
    Decidable (s.Admits cpus h) :=
  match h with
  | .turns _ _ _ | .finishes _ _ => inferInstanceAs (Decidable (_ ∧ _))

/-- The task occupies the CPU. -/
def Seats.Occupies (s : Seats κ τ) (p : τ) (cpu : κ) : Prop :=
  s.current cpu = p ∨ s.leaving cpu = some p

/-- No task occupies two CPUs, or one of them twice. -/
structure Seats.Apart (cpus : List κ) (s : Seats κ τ) : Prop where
  unique : ∀ p, ∀ k ∈ cpus, ∀ k' ∈ cpus, s.Occupies p k → s.Occupies p k' → k = k'
  once : ∀ k ∈ cpus, s.leaving k ≠ some (s.current k)

variable {cpus : List κ} {s : Seats κ τ} {cpu : κ} {prev next p : τ}

/-- Who occupies a CPU after it has turned to another task. -/
theorem Seats.occupies_turns {k : κ} (hcur : s.current cpu = prev) (hleft : s.leaving cpu = none) :
    (s.after (.turns cpu prev next)).Occupies p k ↔ s.Occupies p k ∨ (k = cpu ∧ next = p) := by
  by_cases hk : k = cpu
  · subst hk
    simp only [Occupies, after, Function.update_self, Option.some.injEq, hcur, hleft, reduceCtorEq,
      or_false, true_and]
    exact or_comm
  · simp only [Occupies, after, Function.update_of_ne hk, hk, false_and, or_false]

/-- Who occupies a CPU after it has finished a switch. -/
theorem Seats.occupies_finishes {k : κ} (h : s.Apart cpus) (hcpu : cpu ∈ cpus)
    (hleft : s.leaving cpu = some prev) :
    (s.after (.finishes cpu prev)).Occupies p k ↔ s.Occupies p k ∧ ¬(k = cpu ∧ prev = p) := by
  by_cases hk : k = cpu
  · subst hk
    have honce := h.once k hcpu
    simp only [Occupies, after, Function.update_self, hleft, Option.some.injEq, reduceCtorEq,
      or_false, true_and] at honce ⊢
    constructor
    · intro hp
      exact ⟨Or.inl hp, fun hprev => honce (congrArg some (hprev.trans hp.symm))⟩
    · rintro ⟨hp | hp, hne⟩
      · exact hp
      · exact absurd hp hne
  · simp only [Occupies, after, Function.update_of_ne hk, hk, false_and, not_false_eq_true,
      and_true]

theorem Seats.Apart.after (h : s.Apart cpus) {e : Hand κ τ} (ha : s.Admits cpus e) :
    (s.after e).Apart cpus := by
  cases e with
  | turns cpu prev next =>
    obtain ⟨hcpu, hcur, hleft, hfree⟩ := ha
    have hnobody : ∀ k ∈ cpus, ¬s.Occupies next k := by
      rintro k hk (hnext | hnext)
      · exact (hfree k hk).1 hnext
      · exact (hfree k hk).2 hnext
    constructor
    -- nobody else occupies what `next` takes, and `next` occupied nothing
    · intro p k hk k' hk' hp hp'
      rw [occupies_turns hcur hleft] at hp hp'
      rcases hp with hp | ⟨hsame, rfl⟩
      · rcases hp' with hp' | ⟨hsame', rfl⟩
        · exact h.unique p k hk k' hk' hp hp'
        · exact absurd hp (hnobody k hk)
      · rcases hp' with hp' | ⟨hsame', -⟩
        · exact absurd hp' (hnobody k' hk')
        · rw [hsame, hsame']
    · intro k hk
      by_cases hsame : k = cpu
      · subst hsame
        simp only [Seats.after, Function.update_self, ne_eq, Option.some.injEq]
        rw [← hcur]
        exact (hfree k hk).1
      · simp only [Seats.after, Function.update_of_ne hsame]
        exact h.once k hk
  | finishes cpu prev =>
    obtain ⟨hcpu, hleft⟩ := ha
    constructor
    · intro p k hk k' hk' hp hp'
      rw [occupies_finishes h hcpu hleft] at hp hp'
      exact h.unique p k hk k' hk' hp.1 hp'.1
    · intro k hk
      by_cases hsame : k = cpu
      · subst hsame
        simp [Seats.after]
      · simp only [Seats.after, Function.update_of_ne hsame]
        exact h.once k hk

end Seats

section Tenure

variable [DecidableEq τ] (hand : ε → Option (Hand κ τ)) (enter : ε → α) (leave : ε → β)

/-- The task `p` gets a CPU, or its last switch there is finished. -/
def tenure (p : τ) (e : ε) : Option (Probe α β) :=
  (hand e).bind fun
    | .turns _ _ next => if next = p then some (.enter (enter e)) else none
    | .finishes _ prev => if prev = p then some (.exit (leave e)) else none

variable {hand enter leave} {e : ε} {p : τ}

theorem tenure_turns {cpu : κ} {prev : τ} (hh : hand e = some (.turns cpu prev p)) :
    tenure hand enter leave p e = some (.enter (enter e)) := by
  simp only [tenure, hh, Option.bind_some, if_true]

theorem tenure_turns_other {cpu : κ} {prev next : τ} (hh : hand e = some (.turns cpu prev next))
    (hne : next ≠ p) : tenure hand enter leave p e = none := by
  simp only [tenure, hh, Option.bind_some, if_neg hne]

theorem tenure_finishes {cpu : κ} (hh : hand e = some (.finishes cpu p)) :
    tenure hand enter leave p e = some (.exit (leave e)) := by
  simp only [tenure, hh, Option.bind_some, if_true]

theorem tenure_finishes_other {cpu : κ} {prev : τ} (hh : hand e = some (.finishes cpu prev))
    (hne : prev ≠ p) : tenure hand enter leave p e = none := by
  simp only [tenure, hh, Option.bind_some, if_neg hne]

theorem tenure_none (hh : hand e = none) : tenure hand enter leave p e = none := by
  simp only [tenure, hh, Option.bind_none]

end Tenure

section Runs

variable [DecidableEq κ] (hand : ε → Option (Hand κ τ))

/-- Who occupies the CPUs, when it was `s₀` in the beginning. -/
def seated (s₀ : Seats κ τ) (tr : List ε) : Seats κ τ :=
  tr.foldl (fun s e => match hand e with
    | some h => s.after h
    | none => s) s₀

def Seated (cpus : List κ) (s₀ : Seats κ τ) (pre : List ε) (e : ε) : Prop :=
  ∀ h ∈ hand e, (seated hand s₀ pre).Admits cpus h

instance [DecidableEq τ] (cpus : List κ) (s₀ : Seats κ τ) (pre : List ε) (e : ε) :
    Decidable (Seated hand cpus s₀ pre e) :=
  Option.decidableForallMem _

/-- Whoever occupies the CPUs in the beginning. -/
def ValidHandover (tr : List ε) : Prop :=
  ∃ cpus s₀, s₀.Apart cpus ∧ Throughout (Seated hand cpus s₀) tr

variable {hand} {cpus : List κ} {s₀ : Seats κ τ} {tr pre : List ε} {e : ε} {h : Hand κ τ} {p : τ}

theorem seated_snoc (hh : hand e = some h) :
    seated hand s₀ (pre ++ [e]) = (seated hand s₀ pre).after h := by
  simp only [seated, List.foldl_append, List.foldl_cons, List.foldl_nil, hh]

theorem seated_snoc_skip (hh : hand e = none) :
    seated hand s₀ (pre ++ [e]) = seated hand s₀ pre := by
  simp only [seated, List.foldl_append, List.foldl_cons, List.foldl_nil, hh]

theorem Seats.Apart.seated (h₀ : s₀.Apart cpus) (htr : Throughout (Seated hand cpus s₀) tr) :
    (CpuSubsystem.seated hand s₀ tr).Apart cpus := by
  induction tr using List.reverseRecOn with
  | nil => exact h₀
  | append_singleton pre e ih =>
    cases hh : hand e with
    | none =>
      rw [seated_snoc_skip hh]
      exact ih htr.of_snoc
    | some h =>
      rw [seated_snoc hh]
      exact (ih htr.of_snoc).after (htr.last h hh)

theorem ValidHandover.restrict (h : ValidHandover hand tr) (hp : pre <+: tr) :
    ValidHandover hand pre := by
  obtain ⟨cpus, s₀, happart, htr⟩ := h
  exact ⟨cpus, s₀, happart, htr.restrict hp⟩

theorem ValidHandover.prev_ne_next {cpu : κ} {prev next : τ}
    (h : ValidHandover hand (pre ++ [e])) (hh : hand e = some (.turns cpu prev next)) :
    prev ≠ next := by
  obtain ⟨cpus, s₀, -, htr⟩ := h
  obtain ⟨hcpu, hcur, -, hfree⟩ := htr.last _ hh
  rw [← hcur]
  exact (hfree cpu hcpu).1

variable [DecidableEq τ] {enter : ε → α} {leave : ε → β}

/-- Which kind the latest step of a task was tells whether it occupies a CPU. -/
theorem occupies_iff (h₀ : s₀.Apart cpus) (htr : Throughout (Seated hand cpus s₀) tr) {b : Bool}
    (hl : ((tr.filterMap (tenure hand enter leave p)).map Probe.isEnter).getLast? = some b) :
    b = true ↔ ∃ k ∈ cpus, (seated hand s₀ tr).Occupies p k := by
  induction tr using List.reverseRecOn generalizing b with
  | nil => cases hl
  | append_singleton pre e ih =>
    have happart := h₀.seated htr.of_snoc
    have ih := fun b hl => ih htr.of_snoc (b := b) hl
    rw [List.filterMap_append, List.map_append] at hl
    cases hh : hand e with
    | none =>
      rw [seated_snoc_skip hh]
      apply ih
      simpa [tenure_none hh] using hl
    | some h =>
      have hadm := htr.last h hh
      rw [seated_snoc hh]
      cases h with
      | turns cpu prev next =>
        obtain ⟨hcpu, hcur, hleft, -⟩ := hadm
        simp only [Seats.occupies_turns hcur hleft]
        -- `prev` still occupies the CPU, so only `next` matters
        by_cases hp : next = p
        · subst hp
          have hb : b = true := by
            simpa [tenure_turns hh, Probe.isEnter, eq_comm] using hl
          exact ⟨fun _ => ⟨cpu, hcpu, Or.inr ⟨rfl, rfl⟩⟩, fun _ => hb⟩
        · simp only [hp, and_false, or_false]
          apply ih
          simpa [tenure_turns_other hh hp] using hl
      | finishes cpu prev =>
        obtain ⟨hcpu, hleft⟩ := hadm
        simp only [Seats.occupies_finishes happart hcpu hleft]
        by_cases hp : prev = p
        · subst hp
          have hb : b = false := by
            simpa [tenure_finishes hh, Probe.isEnter, eq_comm] using hl
          rw [hb]
          refine ⟨fun hf => absurd hf Bool.false_ne_true, ?_⟩
          -- the task that is leaving occupies no other CPU
          rintro ⟨k, hk, hocc, hne⟩
          exact absurd ⟨happart.unique prev k hk cpu hcpu hocc (Or.inr hleft), rfl⟩ hne
        · simp only [hp, and_false, not_false_eq_true, and_true]
          apply ih
          simpa [tenure_finishes_other hh hp] using hl

/-- A task gets a CPU and leaves it in turns, however often it migrates. -/
theorem ValidHandover.alternating (h : ValidHandover hand tr) (enter : ε → α) (leave : ε → β)
    (p : τ) : Alternating (tenure hand enter leave p) tr := by
  obtain ⟨cpus, s₀, h₀, htr⟩ := h
  apply alternating_of_steps
  intro pre e q hpre hv b hb
  have hocc := occupies_iff h₀ (htr.restrict ((List.prefix_append pre [e]).trans hpre)) hb
  cases hh : hand e with
  | none =>
    rw [tenure_none hh] at hv
    cases hv
  | some h =>
    have hadm := htr pre e hpre h hh
    cases h with
    | turns cpu prev next =>
      obtain ⟨-, -, -, hfree⟩ := hadm
      by_cases hp : next = p
      · subst hp
        rw [tenure_turns hh] at hv
        cases hv
        intro hb
        -- who gets a CPU occupied none before
        obtain ⟨k, hk, hon | hon⟩ := hocc.mp hb
        · exact (hfree k hk).1 hon
        · exact (hfree k hk).2 hon
      · rw [tenure_turns_other hh hp] at hv
        cases hv
    | finishes cpu prev =>
      obtain ⟨hcpu, hleft⟩ := hadm
      by_cases hp : prev = p
      · subst hp
        rw [tenure_finishes hh] at hv
        cases hv
        rw [hocc.mpr ⟨cpu, hcpu, Or.inr hleft⟩]
        exact fun hf => Bool.false_ne_true hf.symm
      · rw [tenure_finishes_other hh hp] at hv
        cases hv

end Runs

end CpuSubsystem
