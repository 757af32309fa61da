import Mathlib.Data.List.Infix
import Mathlib.Logic.Function.Basic

/-!
# Threads that take and give back locks

A call that takes a lock, or gives it back, has two ends, and the lock changes hands somewhere in
between.  `Holders` cannot express a lock held exclusively together with any other hold.
-/

namespace CpuSubsystem.Locks

inductive Mode where
  | shared | exclusive
deriving DecidableEq, Repr

/-- Who holds a lock: any number of readers, none of them when it is free, or one writer. -/
inductive Holders (τ : Type*) where
  | readers (ts : List τ)
  | writer (t : τ)
deriving DecidableEq

namespace Holders

variable {τ : Type*} [DecidableEq τ]

/-- How `t` holds the lock. -/
def mode (t : τ) : Holders τ → Option Mode
  | readers ts => if t ∈ ts then some .shared else none
  | writer t' => if t = t' then some .exclusive else none

/-- `t` takes the lock, if its holders let it. -/
def take (t : τ) : Mode → Holders τ → Option (Holders τ)
  | .shared, readers ts => some (readers (t :: ts))
  | .exclusive, readers [] => some (writer t)
  | _, _ => none

/-- `t` gives back one hold. -/
def leave (t : τ) : Holders τ → Holders τ
  | readers ts => readers (ts.erase t)
  | writer _ => readers []

variable {t t' : τ} {h h' : Holders τ} {m m' : Mode}

@[simp] theorem mode_writer : (writer t).mode t = some .exclusive := if_pos rfl

theorem mode_exclusive (hm : h.mode t = some .exclusive) : h = writer t := by
  cases h with
  | readers ts =>
    simp only [mode] at hm
    split at hm <;> cases hm
  | writer t' =>
    simp only [mode] at hm
    split at hm
    · rename_i heq
      rw [heq]
    · cases hm

theorem mode_take_self (ha : h.take t m = some h') : h'.mode t = some m := by
  cases m with
  | shared =>
    cases h with
    | readers ts =>
      cases ha
      exact if_pos List.mem_cons_self
    | writer t' => cases ha
  | exclusive =>
    cases h with
    | readers ts =>
      cases ts with
      | nil =>
        cases ha
        exact mode_writer
      | cons t' ts => cases ha
    | writer t' => cases ha

theorem mode_take (ha : h.take t m = some h') (hm : h.mode t' = some m') :
    h'.mode t' = some m' := by
  cases h with
  | readers ts =>
    simp only [mode] at hm
    split at hm
    · rename_i hmem
      cases hm
      cases m with
      | shared =>
        cases ha
        exact if_pos (List.mem_cons_of_mem t hmem)
      | exclusive =>
        cases ts with
        | nil => cases hmem
        | cons x ts => cases ha
    · cases hm
  | writer x => cases m <;> cases ha

theorem mode_leave (ht : h.mode t = some m) (hne : t' ≠ t) (hm : h.mode t' = some m') :
    (h.leave t).mode t' = some m' := by
  cases h with
  | readers ts =>
    simp only [mode] at hm
    split at hm
    · rename_i hmem
      cases hm
      exact if_pos ((List.mem_erase_of_ne hne).mpr hmem)
    · cases hm
  | writer x =>
    simp only [mode] at ht hm
    split at ht
    · rename_i htx
      split at hm
      · rename_i htx'
        exact absurd (htx'.trans htx.symm) hne
      · cases hm
    · cases ht

end Holders

/-- What a thread is doing. -/
inductive Phase (κ : Type*) where
  | idle
  | locking (k : κ) (m : Mode) (got : Bool)
  | unlocking (k : κ) (m : Mode) (released : Bool)
deriving DecidableEq

/-- A thread enters a call or returns from it, or a lock changes hands inside the call. -/
inductive Action (τ κ : Type*) where
  | lockCall (t : τ) (k : κ) (m : Mode)
  | acquire (t : τ)
  | lockReturn (t : τ) (k : κ) (m : Mode) (ok : Bool)
  | unlockCall (t : τ) (k : κ)
  | release (t : τ)
  | unlockReturn (t : τ) (k : κ)

def Action.thread {τ κ : Type*} : Action τ κ → τ
  | lockCall t _ _ | acquire t | lockReturn t _ _ _ => t
  | unlockCall t _ | release t | unlockReturn t _ => t

structure World (τ κ : Type*) where
  phase : τ → Phase κ
  holders : κ → Holders τ

namespace World

variable {τ κ : Type*} [DecidableEq τ] [DecidableEq κ]

/-- Nobody is inside a call and nothing is held. -/
def free : World τ κ := ⟨fun _ => .idle, fun _ => .readers []⟩

def setPhase (w : World τ κ) (t : τ) (p : Phase κ) : World τ κ :=
  { w with phase := Function.update w.phase t p }

def setHolders (w : World τ κ) (k : κ) (h : Holders τ) : World τ κ :=
  { w with holders := Function.update w.holders k h }

/-- `none` when the action is not possible.  A call that takes a lock succeeds exactly when the lock
was taken in it; only a lock that is held is given back. -/
def step (w : World τ κ) : Action τ κ → Option (World τ κ)
  | .lockCall t k m =>
    match w.phase t with
    | .idle => some (w.setPhase t (.locking k m false))
    | _ => none
  | .acquire t =>
    match w.phase t with
    | .locking k m false =>
      ((w.holders k).take t m).map fun h => (w.setHolders k h).setPhase t (.locking k m true)
    | _ => none
  | .lockReturn t k m ok =>
    if w.phase t = .locking k m ok then some (w.setPhase t .idle) else none
  | .unlockCall t k =>
    match w.phase t with
    | .idle => ((w.holders k).mode t).map fun m => w.setPhase t (.unlocking k m false)
    | _ => none
  | .release t =>
    match w.phase t with
    | .unlocking k m false =>
      some ((w.setHolders k ((w.holders k).leave t)).setPhase t (.unlocking k m true))
    | _ => none
  | .unlockReturn t k =>
    match w.phase t with
    | .unlocking k' _ true => if k' = k then some (w.setPhase t .idle) else none
    | _ => none

def run (w : World τ κ) (as : List (Action τ κ)) : Option (World τ κ) := as.foldlM step w

variable {w w' : World τ κ} {a : Action τ κ} {as : List (Action τ κ)} {t t' : τ} {k k' : κ}
  {m : Mode}

@[simp] theorem run_nil : w.run [] = some w := rfl

theorem run_append (as bs : List (Action τ κ)) :
    w.run (as ++ bs) = (w.run as).bind fun w' => w'.run bs := by
  simp only [run, List.foldlM_append, bind]

theorem run_snoc : w.run (as ++ [a]) = (w.run as).bind fun w' => w'.step a := by
  rw [run_append]
  congr
  funext w'
  simp [run]

omit [DecidableEq κ] in
@[simp] theorem setPhase_phase_self (p : Phase κ) : (w.setPhase t p).phase t = p := by
  simp only [setPhase, Function.update_self]

omit [DecidableEq κ] in
theorem setPhase_phase_of_ne (p : Phase κ) (h : t' ≠ t) :
    (w.setPhase t p).phase t' = w.phase t' := by
  simp only [setPhase, Function.update_of_ne h]

/-- What an action needs and what it does. -/
theorem step_cases (h : w.step a = some w') :
    match a with
    | .lockCall t k m => w.phase t = .idle ∧ w' = w.setPhase t (.locking k m false)
    | .acquire t => ∃ k m hs, w.phase t = .locking k m false ∧ (w.holders k).take t m = some hs ∧
        w' = (w.setHolders k hs).setPhase t (.locking k m true)
    | .lockReturn t k m ok => w.phase t = .locking k m ok ∧ w' = w.setPhase t .idle
    | .unlockCall t k => ∃ m, w.phase t = .idle ∧ (w.holders k).mode t = some m ∧
        w' = w.setPhase t (.unlocking k m false)
    | .release t => ∃ k m, w.phase t = .unlocking k m false ∧
        w' = (w.setHolders k ((w.holders k).leave t)).setPhase t (.unlocking k m true)
    | .unlockReturn t k => ∃ m, w.phase t = .unlocking k m true ∧ w' = w.setPhase t .idle := by
  cases a with
  | lockCall t k m =>
    simp only [step] at h
    split at h
    · rename_i hp
      cases h
      exact ⟨hp, rfl⟩
    · cases h
  | acquire t =>
    simp only [step] at h
    split at h
    · rename_i k m hp
      obtain ⟨hs, ha, rfl⟩ := Option.map_eq_some_iff.mp h
      exact ⟨k, m, hs, hp, ha, rfl⟩
    · cases h
  | lockReturn t k m ok =>
    simp only [step] at h
    split at h
    · rename_i hp
      cases h
      exact ⟨hp, rfl⟩
    · cases h
  | unlockCall t k =>
    simp only [step] at h
    split at h
    · rename_i hp
      obtain ⟨m, hm, rfl⟩ := Option.map_eq_some_iff.mp h
      exact ⟨m, hp, hm, rfl⟩
    · cases h
  | release t =>
    simp only [step] at h
    split at h
    · rename_i k m hp
      cases h
      exact ⟨k, m, hp, rfl⟩
    · cases h
  | unlockReturn t k =>
    simp only [step] at h
    split at h
    · rename_i k' m hp
      split at h
      · rename_i hk
        cases h
        rw [hk] at hp
        exact ⟨m, hp, rfl⟩
      · cases h
    · cases h

/-- The other threads stay where they are. -/
theorem step_phase_of_ne (h : w.step a = some w') (ht : t ≠ a.thread) :
    w'.phase t = w.phase t := by
  have hcases := step_cases h
  cases a with
  | lockCall t' k m | lockReturn t' k m ok =>
    obtain ⟨-, rfl⟩ := hcases
    exact setPhase_phase_of_ne _ ht
  | acquire t' =>
    obtain ⟨k, m, hs, -, -, rfl⟩ := hcases
    exact setPhase_phase_of_ne _ ht
  | unlockCall t' k =>
    obtain ⟨m, -, -, rfl⟩ := hcases
    exact setPhase_phase_of_ne _ ht
  | release t' =>
    obtain ⟨k, m, -, rfl⟩ := hcases
    exact setPhase_phase_of_ne _ ht
  | unlockReturn t' k =>
    obtain ⟨m, -, rfl⟩ := hcases
    exact setPhase_phase_of_ne _ ht

/-! ## Who holds what -/

/-- A thread between the two ends of a call holds the lock as long as it should. -/
structure Sound (w : World τ κ) : Prop where
  taken : ∀ t k m, w.phase t = .locking k m true → (w.holders k).mode t = some m
  kept : ∀ t k m, w.phase t = .unlocking k m false → (w.holders k).mode t = some m

omit [DecidableEq κ] in
theorem sound_free : Sound (free : World τ κ) where
  taken _ _ _ h := by cases h
  kept _ _ _ h := by cases h

omit [DecidableEq κ] in
/-- One thread moves on while all other holds stay. -/
theorem Sound.move (hw : Sound w) {p : Phase κ} {hs : κ → Holders τ}
    (hothers : ∀ t' k' m', t' ≠ t → (w.holders k').mode t' = some m' →
      (hs k').mode t' = some m')
    (htaken : ∀ k m, p = .locking k m true → (hs k).mode t = some m)
    (hkept : ∀ k m, p = .unlocking k m false → (hs k).mode t = some m) :
    Sound (setPhase ⟨w.phase, hs⟩ t p) where
  taken t' k' m' h := by
    by_cases ht : t' = t
    · subst ht
      rw [setPhase_phase_self] at h
      exact htaken k' m' h
    · rw [setPhase_phase_of_ne _ ht] at h
      exact hothers t' k' m' ht (hw.taken t' k' m' h)
  kept t' k' m' h := by
    by_cases ht : t' = t
    · subst ht
      rw [setPhase_phase_self] at h
      exact hkept k' m' h
    · rw [setPhase_phase_of_ne _ ht] at h
      exact hothers t' k' m' ht (hw.kept t' k' m' h)

theorem Sound.step (hw : Sound w) (h : w.step a = some w') : Sound w' := by
  have hcases := step_cases h
  cases a with
  | lockCall t k m =>
    obtain ⟨-, rfl⟩ := hcases
    apply hw.move (fun _ _ _ _ hm => hm) <;> intro _ _ hp <;> cases hp
  | acquire t =>
    obtain ⟨k, m, hs, -, ha, rfl⟩ := hcases
    apply hw.move
    -- a lock that is taken keeps its other holders
    · intro t' k' m' _ hm
      by_cases hk : k' = k
      · subst hk
        rw [Function.update_self]
        exact Holders.mode_take ha hm
      · rwa [Function.update_of_ne hk]
    · intro k' m' hp
      cases hp
      rw [Function.update_self]
      exact Holders.mode_take_self ha
    · intro k' m' hp
      cases hp
  | lockReturn t k m ok =>
    obtain ⟨-, rfl⟩ := hcases
    apply hw.move (fun _ _ _ _ hm => hm) <;> intro _ _ hp <;> cases hp
  | unlockCall t k =>
    obtain ⟨m, -, hm, rfl⟩ := hcases
    apply hw.move (fun _ _ _ _ hm => hm)
    · intro k' m' hp
      cases hp
    · intro k' m' hp
      cases hp
      exact hm
  | release t =>
    obtain ⟨k, m, hp, rfl⟩ := hcases
    apply hw.move
    -- one that is given back loses only this thread
    · intro t' k' m' ht hm
      by_cases hk : k' = k
      · subst hk
        rw [Function.update_self]
        exact Holders.mode_leave (hw.kept t k' m hp) ht hm
      · rwa [Function.update_of_ne hk]
    · intro k' m' hp'
      cases hp'
    · intro k' m' hp'
      cases hp'
  | unlockReturn t k =>
    obtain ⟨m, -, rfl⟩ := hcases
    apply hw.move (fun _ _ _ _ hm => hm) <;> intro _ _ hp <;> cases hp

theorem Sound.run (hw : Sound w) (h : w.run as = some w') : Sound w' := by
  induction as using List.reverseRecOn generalizing w' with
  | nil =>
    cases h
    exact hw
  | append_singleton as a ih =>
    rw [run_snoc] at h
    obtain ⟨w₁, h₁, h₂⟩ := Option.bind_eq_some_iff.mp h
    exact (ih h₁).step h₂

/-! ## From an exclusive hold to the call that ends it -/

/-- `t` has `k` to itself and is not giving it back. -/
structure Owns (t : τ) (k : κ) (w : World τ κ) : Prop where
  writer : w.holders k = .writer t
  not_locking : ∀ m, w.phase t ≠ .locking k m true
  not_unlocking : ∀ m r, w.phase t ≠ .unlocking k m r

/-- `t` is inside a call that gives `k` back. -/
def Leaving (t : τ) (k : κ) (w : World τ κ) : Prop := ∃ m r, w.phase t = .unlocking k m r

theorem owns_of_lockReturn (hw : Sound w) (h : w.step (.lockReturn t k .exclusive true) = some w') :
    Owns t k w' := by
  obtain ⟨hp, rfl⟩ := step_cases h
  refine ⟨Holders.mode_exclusive (hw.taken t k .exclusive hp), ?_, ?_⟩
  · intro m hm
    rw [setPhase_phase_self] at hm
    cases hm
  · intro m r hm
    rw [setPhase_phase_self] at hm
    cases hm

/-- While `t` owns the lock, no call that wants it exclusively succeeds. -/
theorem Owns.no_lockReturn (hw : Sound w) (ho : Owns t k w) :
    w.step (.lockReturn t' k .exclusive true) = none := by
  by_contra hne
  obtain ⟨w', h⟩ := Option.ne_none_iff_exists'.mp hne
  obtain ⟨hp, -⟩ := step_cases h
  have hwriter := Holders.mode_exclusive (hw.taken t' k .exclusive hp)
  rw [ho.writer] at hwriter
  cases hwriter
  exact ho.not_locking _ hp

omit [DecidableEq κ] in
/-- A step in which `t` itself neither takes `k` nor begins to give it back. -/
theorem Owns.move (ho : Owns t k w) {p : Phase κ} (hl : t = t' → ∀ m, p ≠ .locking k m true)
    (hu : t = t' → ∀ m r, p ≠ .unlocking k m r) {hs : κ → Holders τ}
    (hk : hs k = w.holders k) : Owns t k (setPhase ⟨w.phase, hs⟩ t' p) := by
  refine ⟨hk.trans ho.writer, ?_, ?_⟩
  · intro m hm
    by_cases ht : t = t'
    · subst ht
      rw [setPhase_phase_self] at hm
      exact hl rfl m hm
    · rw [setPhase_phase_of_ne _ ht] at hm
      exact ho.not_locking m hm
  · intro m r hm
    by_cases ht : t = t'
    · subst ht
      rw [setPhase_phase_self] at hm
      exact hu rfl m r hm
    · rw [setPhase_phase_of_ne _ ht] at hm
      exact ho.not_unlocking m r hm

/-- Only its own call to give the lock back ends the ownership. -/
theorem Owns.step (hw : Sound w) (ho : Owns t k w) (h : w.step a = some w') :
    Owns t k w' ∨ Leaving t k w' := by
  have hcases := step_cases h
  cases a with
  | lockCall t' k' m =>
    obtain ⟨-, rfl⟩ := hcases
    left
    apply ho.move _ _ rfl <;> intros <;> simp
  | acquire t' =>
    obtain ⟨k', m, hs, -, ha, rfl⟩ := hcases
    left
    -- a lock with a writer cannot be taken
    have hk : k ≠ k' := by
      rintro rfl
      rw [ho.writer] at ha
      cases m <;> cases ha
    apply ho.move _ _ (Function.update_of_ne hk hs w.holders)
    · intro _ m' hp
      cases hp
      exact hk rfl
    · intro _ m' r hp
      cases hp
  | lockReturn t' k' m ok =>
    obtain ⟨-, rfl⟩ := hcases
    left
    apply ho.move _ _ rfl <;> intros <;> simp
  | unlockCall t' k' =>
    obtain ⟨m, -, -, rfl⟩ := hcases
    -- either this is the call that ends the ownership, or it is about something else
    by_cases hself : t' = t ∧ k' = k
    · obtain ⟨rfl, rfl⟩ := hself
      right
      exact ⟨m, false, setPhase_phase_self _⟩
    · left
      apply ho.move _ _ rfl
      · intro _ m' hp
        cases hp
      · intro ht m' r hp
        cases hp
        exact hself ⟨ht.symm, rfl⟩
  | release t' =>
    obtain ⟨k', m, hp, rfl⟩ := hcases
    left
    have hk : k ≠ k' := by
      rintro rfl
      -- the thread that releases holds the lock, so it is the owner
      have hmode := hw.kept t' k m hp
      rw [ho.writer] at hmode
      simp only [Holders.mode] at hmode
      split at hmode
      · rename_i ht
        rw [ht] at hp
        exact ho.not_unlocking m false hp
      · cases hmode
    apply ho.move _ _ (Function.update_of_ne hk _ w.holders)
    · intro _ m' hp'
      cases hp'
    · intro _ m' r hp'
      cases hp'
      exact hk rfl
  | unlockReturn t' k' =>
    obtain ⟨m, -, rfl⟩ := hcases
    left
    apply ho.move _ _ rfl <;> intros <;> simp

/-- Inside of that call `t` can only give the lock back and return. -/
theorem Leaving.step (hl : Leaving t k w) (h : w.step a = some w') :
    Leaving t k w' ∨ a = .unlockReturn t k := by
  obtain ⟨m, r, hp⟩ := hl
  by_cases ht : t = a.thread
  · have hcases := step_cases h
    subst ht
    cases a with
    | lockCall t' k' m' => exact absurd (hp.symm.trans hcases.1) (by simp)
    | acquire t' =>
      obtain ⟨k', m', hs, hp', -⟩ := hcases
      exact absurd (hp.symm.trans hp') (by simp)
    | lockReturn t' k' m' ok => exact absurd (hp.symm.trans hcases.1) (by simp)
    | unlockCall t' k' =>
      obtain ⟨m', hp', -⟩ := hcases
      exact absurd (hp.symm.trans hp') (by simp)
    | release t' =>
      obtain ⟨k', m', hp', rfl⟩ := hcases
      cases hp.symm.trans hp'
      exact Or.inl ⟨m, true, setPhase_phase_self _⟩
    | unlockReturn t' k' =>
      obtain ⟨m', hp', -⟩ := hcases
      cases hp.symm.trans hp'
      exact Or.inr rfl
  · exact Or.inl ⟨m, r, (step_phase_of_ne h ht).trans hp⟩

/-- After an exclusive hold began: it lasts, or its end is under way, or that call has returned. -/
theorem Owns.run (hw : Sound w) (ho : Owns t k w) (h : w.run as = some w') :
    Owns t k w' ∨ Leaving t k w' ∨ .unlockReturn t k ∈ as := by
  induction as using List.reverseRecOn generalizing w' with
  | nil =>
    cases h
    exact Or.inl ho
  | append_singleton as a ih =>
    rw [run_snoc] at h
    obtain ⟨w₁, h₁, h₂⟩ := Option.bind_eq_some_iff.mp h
    -- once the call has returned, it has returned for good
    rcases ih h₁ with ho₁ | hl₁ | hmem
    · exact (ho₁.step (hw.run h₁) h₂).imp_right Or.inl
    · rcases hl₁.step h₂ with hl₂ | rfl
      · exact Or.inr (Or.inl hl₂)
      · exact Or.inr (Or.inr (by simp))
    · exact Or.inr (Or.inr (List.mem_append_left _ hmem))

end World

end CpuSubsystem.Locks
