import CpuSubsystem.Lib.Latest
import CpuSubsystem.Lib.Machine

/-!
# Tables under headings

Several tables go to one output.  Some lines are headings, and others are meant for the columns of
one heading.
-/

namespace CpuSubsystem

variable {ℓ κ : Type*} (heading : ℓ → Option κ) (wants : ℓ → Option κ)

/-- Every line that is meant for a heading comes under that one, with no other in between. -/
def Headed (lines : List ℓ) : Prop :=
  Throughout (fun pre line => ∀ k, wants line = some k → latest heading pre = some k) lines

variable {heading wants} {lines rows : List ℓ} {line : ℓ} {k : κ}

theorem headed_nil : Headed heading wants [] := throughout_nil

theorem Headed.snoc_heading (h : Headed heading wants lines) (hline : wants line = none) :
    Headed heading wants (lines ++ [line]) := by
  apply Throughout.snoc h
  intro k hk
  rw [hline] at hk
  cases hk

/-- Rows that are meant for the latest heading. -/
theorem Headed.append_rows (h : Headed heading wants lines) (hk : latest heading lines = some k)
    (hrows : ∀ row ∈ rows, heading row = none ∧ wants row = some k) :
    Headed heading wants (lines ++ rows) ∧ latest heading (lines ++ rows) = some k := by
  induction rows using List.reverseRecOn with
  | nil =>
    rw [List.append_nil]
    exact ⟨h, hk⟩
  | append_singleton rows row ih =>
    obtain ⟨ihead, ilatest⟩ := ih fun r hr => hrows r (List.mem_append_left _ hr)
    obtain ⟨hnone, hwants⟩ := hrows row (List.mem_append_right _ (List.mem_singleton_self row))
    rw [← List.append_assoc]
    constructor
    · apply Throughout.snoc ihead
      intro k' hk'
      rw [ilatest, ← hk', hwants]
    · rw [latest_snoc_none _ hnone, ilatest]

end CpuSubsystem
