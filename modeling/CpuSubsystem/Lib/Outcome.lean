import Mathlib.Data.List.Induction
import Mathlib.Tactic.Common

/-!
# Computations that can fault

Postconditions of `Except` computations: the rules of the monad and the rule of loops.
-/

namespace CpuSubsystem

universe u

variable {ε γ : Type*} {α β : Type u}

/-- A result satisfies `post`, a fault satisfies `exc`. -/
def Meets (exc : ε → Prop) (post : α → Prop) : Except ε α → Prop
  | .ok a => post a
  | .error e => exc e

variable {exc : ε → Prop} {post : α → Prop} {mid : β → Prop}

theorem Meets.bind {x : Except ε β} {f : β → Except ε α} (h : Meets exc mid x)
    (hf : ∀ b, mid b → Meets exc post (f b)) : Meets exc post (x >>= f) := by
  cases x with
  | ok b => exact hf b h
  | error e => exact h

theorem Meets.mono {post' : α → Prop} {x : Except ε α} (h : Meets exc post x)
    (hp : ∀ a, post a → post' a) : Meets exc post' x := by
  cases x with
  | ok a => exact hp a h
  | error e => exact h

/-- Rule of loops. -/
theorem meets_foldlM {f : α → γ → Except ε α} {l : List γ}
    (hstep : ∀ a, post a → ∀ b ∈ l, Meets exc post (f a b)) {a : α} (ha : post a) :
    Meets exc post (l.foldlM f a) := by
  induction l generalizing a with
  | nil => exact ha
  | cons b l ih =>
    rw [List.foldlM_cons]
    apply (hstep a ha b List.mem_cons_self).bind
    intro a' ha'
    exact ih (fun x hx y hy => hstep x hx y (List.mem_cons_of_mem b hy)) ha'

/-- Rule of loops, with an invariant about the part that is done. -/
theorem meets_foldlM_prefix {f : α → γ → Except ε α} {l : List γ} {I : List γ → α → Prop}
    (hstep : ∀ pre b a, pre ++ [b] <+: l → I pre a → Meets exc (I (pre ++ [b])) (f a b)) {a : α}
    (ha : I [] a) : Meets exc (I l) (l.foldlM f a) := by
  induction l using List.reverseRecOn with
  | nil => exact ha
  | append_singleton l b ih =>
    rw [List.foldlM_append]
    have hpre := ih fun pre b' a' hp => hstep pre b' a' (hp.trans (List.prefix_append l [b]))
    apply hpre.bind
    intro a' ha'
    rw [List.foldlM_cons]
    apply (hstep l b a' List.prefix_rfl ha').bind
    intro a'' ha''
    exact ha''

/-- Rule of loops, with the element that ends them: the first one that is not good. -/
theorem meets_foldlM_first {f : α → γ → Except ε α} {l : List γ} (good : γ → Bool)
    (I : List γ → α → Prop) (fault : List γ → γ → ε → Prop)
    (hstep : ∀ pre b a, I pre a → Meets (fun e => good b = false ∧ fault pre b e)
      (fun a' => good b = true ∧ I (pre ++ [b]) a') (f a b)) {a : α} (ha : I [] a) :
    Meets (fun e => ∃ b, l.find? (fun b => !good b) = some b ∧ fault (l.takeWhile good) b e)
      (fun a' => l.find? (fun b => !good b) = none ∧ I l a') (l.foldlM f a) := by
  have hrun : Meets
      (fun e => ∃ b, l.find? (fun b => !good b) = some b ∧ fault (l.takeWhile good) b e)
      (fun a' => (∀ b ∈ l, good b = true) ∧ I l a') (l.foldlM f a) := by
    refine meets_foldlM_prefix (I := fun pre a => (∀ b ∈ pre, good b = true) ∧ I pre a)
      (fun pre b a hpre ⟨hall, hI⟩ => ?_) ⟨fun b hb => absurd hb List.not_mem_nil, ha⟩
    obtain ⟨post, hl⟩ := hpre
    rw [List.append_assoc, List.singleton_append] at hl
    have h := hstep pre b a hI
    cases hf : f a b with
    | ok a' =>
      rw [hf] at h
      refine ⟨fun c hc => ?_, h.2⟩
      rcases List.mem_append.mp hc with hc | hc
      · exact hall c hc
      · rw [List.mem_singleton.mp hc]
        exact h.1
    | error e =>
      rw [hf] at h
      obtain ⟨hbad, hfault⟩ := h
      have hwhile : l.takeWhile good = pre := by
        rw [← hl, List.takeWhile_append_of_pos hall, List.takeWhile_cons_of_neg, List.append_nil]
        rw [hbad]
        exact Bool.false_ne_true
      refine ⟨b, List.find?_eq_some_iff_append.mpr ⟨by rw [hbad]; rfl, pre, post, hl.symm, ?_⟩, ?_⟩
      · intro c hc
        rw [hall c hc]
        rfl
      · rw [hwhile]
        exact hfault
  refine hrun.mono fun a' h => ⟨List.find?_eq_none.mpr fun b hb => ?_, h.2⟩
  rw [h.1 b hb]
  exact Bool.false_ne_true

theorem meets_mapM {f : γ → Except ε α} {l : List γ}
    (h : ∀ b ∈ l, Meets exc (fun _ => True) (f b)) : Meets exc (fun _ => True) (l.mapM f) := by
  induction l with
  | nil => exact trivial
  | cons b l ih =>
    rw [List.mapM_cons]
    apply (h b List.mem_cons_self).bind
    intro _ _
    apply (ih (fun x hx => h x (List.mem_cons_of_mem b hx))).bind
    intro _ _
    exact trivial

theorem ok_bind (b : β) (f : β → Except ε α) : (Except.ok b >>= f) = f b := rfl

theorem bind_eq_ok {x : Except ε α} {f : α → Except ε β} {b : β} :
    x >>= f = .ok b ↔ ∃ a, x = .ok a ∧ f a = .ok b := by
  cases x with
  | ok a => exact ⟨fun h => ⟨a, rfl, h⟩, fun ⟨_, rfl, h⟩ => h⟩
  | error e => exact ⟨nofun, nofun⟩

/-- The last step of a loop that succeeds. -/
theorem foldlM_snoc_eq_ok {f : α → γ → Except ε α} {l : List γ} {c : γ} {a b : α} :
    (l ++ [c]).foldlM f a = .ok b ↔ ∃ a', l.foldlM f a = .ok a' ∧ f a' c = .ok b := by
  rw [List.foldlM_append, bind_eq_ok]
  simp only [List.foldlM_cons, List.foldlM_nil, bind_pure]

/-! ## Two computations side by side -/

section Agrees

variable {ε' : Type*} {α' β' : Type u} {exc : ε → ε' → Prop} {rel : α → α' → Prop}

/-- Both give a result or both fault, and the two are related. -/
def Agrees (exc : ε → ε' → Prop) (rel : α → α' → Prop) : Except ε α → Except ε' α' → Prop
  | .ok a, .ok a' => rel a a'
  | .error e, .error e' => exc e e'
  | _, _ => False

theorem Agrees.bind {mid : β → β' → Prop} {x : Except ε β} {x' : Except ε' β'}
    {f : β → Except ε α} {f' : β' → Except ε' α'} (h : Agrees exc mid x x')
    (hf : ∀ b b', mid b b' → Agrees exc rel (f b) (f' b')) :
    Agrees exc rel (x >>= f) (x' >>= f') := by
  cases x with
  | ok b =>
    cases x' with
    | ok b' => exact hf b b' h
    | error e' => exact h.elim
  | error e =>
    cases x' with
    | ok b' => exact h.elim
    | error e' => exact h

theorem Agrees.mono {rel' : α → α' → Prop} {x : Except ε α} {x' : Except ε' α'}
    (h : Agrees exc rel x x') (hr : ∀ a a', rel a a' → rel' a a') : Agrees exc rel' x x' := by
  cases x with
  | ok a =>
    cases x' with
    | ok a' => exact hr a a' h
    | error e' => exact h.elim
  | error e =>
    cases x' with
    | ok a' => exact h.elim
    | error e' => exact h

theorem agrees_mapError (lift : ε' → ε) (x : Except ε' α) :
    Agrees (fun e e' => e = lift e') Eq (x.mapError lift) x := by
  cases x <;> rfl

end Agrees

end CpuSubsystem
