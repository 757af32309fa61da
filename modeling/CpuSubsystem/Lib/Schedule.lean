import CpuSubsystem.Lib.Calls
import CpuSubsystem.Lib.Machine

/-!
# Schedules of several CPUs

A context switch takes one task off a CPU and puts another one on it.  The switches of each CPU
chain, and no task is on two CPUs, so that the times on a CPU of one task alternate with those off
it, however often the task migrates.
-/

namespace CpuSubsystem

structure Switch (κ τ : Type*) where
  cpu : κ
  prev : τ
  next : τ

variable {ε κ τ α β : Type*}

section Stays

variable [DecidableEq τ]

/-- The task `p` leaves its CPU, with what is known there, or gets on one. -/
def stays (sw : ε → Option (Switch κ τ)) (leave : ε → β) (enter : ε → α) (p : τ) (e : ε) :
    Option (Probe α β) :=
  (sw e).bind fun w =>
    if w.prev = p then some (.exit (leave e))
    else if w.next = p then some (.enter (enter e)) else none

variable {sw : ε → Option (Switch κ τ)} {leave : ε → β} {enter : ε → α} {p : τ} {e : ε}
  {w : Switch κ τ}

theorem stays_none (h : sw e = none) : stays sw leave enter p e = none := by
  rw [stays, h, Option.bind_none]

theorem stays_prev (hw : sw e = some w) (hp : w.prev = p) :
    stays sw leave enter p e = some (.exit (leave e)) := by
  rw [stays, hw, Option.bind_some, if_pos hp]

theorem stays_next (hw : sw e = some w) (hne : w.prev ≠ p) (hp : w.next = p) :
    stays sw leave enter p e = some (.enter (enter e)) := by
  rw [stays, hw, Option.bind_some, if_neg hne, if_pos hp]

theorem stays_other (hw : sw e = some w) (hne : w.prev ≠ p) (hne' : w.next ≠ p) :
    stays sw leave enter p e = none := by
  rw [stays, hw, Option.bind_some, if_neg hne, if_neg hne']

end Stays

variable [DecidableEq κ] (sw : ε → Option (Switch κ τ))

/-- The task on each CPU, when `at₀` were there in the beginning. -/
def placed (at₀ : κ → τ) (tr : List ε) : κ → τ :=
  tr.foldl (fun on e => match sw e with
    | some w => Function.update on w.cpu w.next
    | none => on) at₀

/-- The switch takes off the task that is on its CPU, and puts on one that is on none. -/
def Chained (cpus : List κ) (at₀ : κ → τ) (pre : List ε) (e : ε) : Prop :=
  ∀ w ∈ sw e, w.cpu ∈ cpus ∧ placed sw at₀ pre w.cpu = w.prev ∧
    ∀ k ∈ cpus, placed sw at₀ pre k ≠ w.next

instance [DecidableEq τ] (cpus : List κ) (at₀ : κ → τ) (pre : List ε) (e : ε) :
    Decidable (Chained sw cpus at₀ pre e) :=
  Option.decidableForallMem _

/-- Some CPUs with different tasks on them in the beginning. -/
def Apart (cpus : List κ) (on : κ → τ) : Prop :=
  ∀ k ∈ cpus, ∀ k' ∈ cpus, on k = on k' → k = k'

/-- Whatever is on the CPUs in the beginning. -/
def ValidSchedule (tr : List ε) : Prop :=
  ∃ cpus at₀, Apart cpus at₀ ∧ Throughout (Chained sw cpus at₀) tr

variable {sw} {cpus : List κ} {at₀ : κ → τ} {tr pre : List ε} {e : ε} {w : Switch κ τ} {p : τ}

theorem placed_snoc (h : sw e = some w) :
    placed sw at₀ (pre ++ [e]) = Function.update (placed sw at₀ pre) w.cpu w.next := by
  simp only [placed, List.foldl_append, List.foldl_cons, List.foldl_nil, h]

theorem placed_snoc_skip (h : sw e = none) :
    placed sw at₀ (pre ++ [e]) = placed sw at₀ pre := by
  simp only [placed, List.foldl_append, List.foldl_cons, List.foldl_nil, h]

/-- No task is ever on two CPUs. -/
theorem Apart.placed (h : Apart cpus at₀) (htr : Throughout (Chained sw cpus at₀) tr) :
    Apart cpus (CpuSubsystem.placed sw at₀ tr) := by
  induction tr using List.reverseRecOn with
  | nil => exact h
  | append_singleton pre e ih =>
    have hpre := ih htr.of_snoc
    cases hw : sw e with
    | none =>
      rw [placed_snoc_skip hw]
      exact hpre
    | some w =>
      obtain ⟨-, -, hnext⟩ := htr.last w hw
      rw [placed_snoc hw]
      intro k hk k' hk' heq
      -- `next` is on its new CPU only
      by_cases h₁ : k = w.cpu
      · by_cases h₂ : k' = w.cpu
        · rw [h₁, h₂]
        · rw [h₁, Function.update_self, Function.update_of_ne h₂] at heq
          exact absurd heq.symm (hnext k' hk')
      · by_cases h₂ : k' = w.cpu
        · rw [h₂, Function.update_self, Function.update_of_ne h₁] at heq
          exact absurd heq (hnext k hk)
        · rw [Function.update_of_ne h₁, Function.update_of_ne h₂] at heq
          exact hpre k hk k' hk' heq

/-- The two tasks of a switch differ. -/
theorem Chained.prev_ne_next (h : Chained sw cpus at₀ pre e) (hw : sw e = some w) :
    w.prev ≠ w.next := by
  obtain ⟨hcpu, hprev, hnext⟩ := h w hw
  rw [← hprev]
  exact hnext w.cpu hcpu

theorem ValidSchedule.restrict (h : ValidSchedule sw tr) (hp : pre <+: tr) :
    ValidSchedule sw pre := by
  obtain ⟨cpus, at₀, happart, htr⟩ := h
  exact ⟨cpus, at₀, happart, htr.restrict hp⟩

variable [DecidableEq τ] {leave : ε → β} {enter : ε → α}

/-- Which kind the latest switch of a task was tells whether it is on a CPU. -/
theorem onCpu_iff (h : Apart cpus at₀) (htr : Throughout (Chained sw cpus at₀) tr) {k : Bool}
    (hl : ((tr.filterMap (stays sw leave enter p)).map Probe.isEnter).getLast? = some k) :
    k = true ↔ ∃ cpu ∈ cpus, placed sw at₀ tr cpu = p := by
  induction tr using List.reverseRecOn generalizing k with
  | nil => cases hl
  | append_singleton pre e ih =>
    have happart := h.placed htr.of_snoc
    have hchained : Chained sw cpus at₀ pre e := htr.last
    have ih := fun k hl => ih htr.of_snoc (k := k) hl
    rw [List.filterMap_append, List.map_append] at hl
    cases hw : sw e with
    | none =>
      rw [placed_snoc_skip hw]
      apply ih
      simpa [stays_none hw] using hl
    | some w =>
      obtain ⟨hcpu, hprev, hnext⟩ := hchained w hw
      rw [placed_snoc hw]
      by_cases hp : w.prev = p
      · -- `p` was on this CPU only
        have hk : k = false := by simpa [stays_prev hw hp, Probe.isEnter, eq_comm] using hl
        rw [hk]
        refine ⟨fun hf => absurd hf Bool.false_ne_true, ?_⟩
        rintro ⟨cpu, hmem, hon⟩
        by_cases hsame : cpu = w.cpu
        · rw [hsame, Function.update_self] at hon
          exact absurd (hp.trans hon.symm) (hchained.prev_ne_next hw)
        · rw [Function.update_of_ne hsame] at hon
          exact absurd (happart cpu hmem w.cpu hcpu (hon.trans (hprev.trans hp).symm)) hsame
      · by_cases hp' : w.next = p
        · have hk : k = true := by
            simpa [stays_next hw hp hp', Probe.isEnter, eq_comm] using hl
          rw [hk]
          exact ⟨fun _ => ⟨w.cpu, hcpu, by rw [Function.update_self, hp']⟩, fun _ => rfl⟩
        -- two other tasks are switched, on a CPU where `p` is not
        · rw [ih k (by simpa [stays_other hw hp hp'] using hl)]
          constructor
          · rintro ⟨cpu, hmem, hon⟩
            refine ⟨cpu, hmem, ?_⟩
            rw [Function.update_of_ne]
            · exact hon
            · intro hsame
              rw [hsame, hprev] at hon
              exact hp hon
          · rintro ⟨cpu, hmem, hon⟩
            refine ⟨cpu, hmem, ?_⟩
            by_cases hsame : cpu = w.cpu
            · rw [hsame, Function.update_self] at hon
              exact absurd hon hp'
            · rwa [Function.update_of_ne hsame] at hon

/-- The switches onto a CPU and off it of one task alternate. -/
theorem ValidSchedule.alternating (h : ValidSchedule sw tr) (leave : ε → β) (enter : ε → α)
    (p : τ) : Alternating (stays sw leave enter p) tr := by
  obtain ⟨cpus, at₀, happart, htr⟩ := h
  apply alternating_of_steps
  intro pre e q hpre hv k hk
  have hchained : Chained sw cpus at₀ pre e := htr pre e hpre
  have hon := onCpu_iff happart (htr.restrict ((List.prefix_append pre [e]).trans hpre)) hk
  cases hw : sw e with
  | none =>
    rw [stays_none hw] at hv
    cases hv
  | some w =>
    obtain ⟨hcpu, hprev, hnext⟩ := hchained w hw
    by_cases hp : w.prev = p
    · rw [stays_prev hw hp] at hv
      cases hv
      -- `p` leaves a CPU, so it was on one and its latest switch was onto it
      rw [hon.mpr ⟨w.cpu, hcpu, hprev.trans hp⟩]
      exact fun hf => Bool.false_ne_true hf.symm
    · by_cases hp' : w.next = p
      · rw [stays_next hw hp hp'] at hv
        cases hv
        intro hk
        -- `p` gets a CPU, so it was on none
        obtain ⟨cpu, hmem, hplace⟩ := hon.mp hk
        exact hnext cpu hmem (hplace.trans hp'.symm)
      · rw [stays_other hw hp hp'] at hv
        cases hv

end CpuSubsystem
