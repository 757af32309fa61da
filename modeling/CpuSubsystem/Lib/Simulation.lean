import CpuSubsystem.Lib.Machine

/-!
# Simulation of machines

A machine simulates another one that sees the same events: related states stay related, and what the
one emits reads as what the other emits.
-/

namespace CpuSubsystem

variable {σ τ ε ρ ω : Type*}

/-- The events meet `Q`. -/
structure Simulates (m : Machine σ ε ρ) (m' : Machine τ ε ω) (Q : ε → Prop) (rel : σ → τ → Prop)
    (read : ρ → ω) : Prop where
  init : rel m.init m'.init
  step : ∀ s t e, Q e → rel s t →
    rel (m.step s e).1 (m'.step t e).1 ∧ (m.step s e).2.map read = (m'.step t e).2

variable {m : Machine σ ε ρ} {m' : Machine τ ε ω} {Q : ε → Prop} {rel : σ → τ → Prop} {read : ρ → ω}

theorem Simulates.run (h : Simulates m m' Q rel read) {tr : List ε} (hQ : ∀ e ∈ tr, Q e) :
    rel (m.exec tr) (m'.exec tr) ∧ (m.emitted tr).map read = m'.emitted tr := by
  induction tr using List.reverseRecOn with
  | nil => exact ⟨h.init, rfl⟩
  | append_singleton pre e ih =>
    obtain ⟨hrel, hemitted⟩ := ih fun x hx => hQ x (List.mem_append_left _ hx)
    have hlast : Q e := hQ e (List.mem_append_right _ List.mem_cons_self)
    obtain ⟨hrel', hemits⟩ := h.step _ _ e hlast hrel
    rw [Machine.exec_snoc, Machine.exec_snoc, Machine.emitted_snoc, Machine.emitted_snoc,
      List.map_append, hemitted, Machine.emits, Machine.emits, hemits]
    exact ⟨hrel', rfl⟩

end CpuSubsystem
