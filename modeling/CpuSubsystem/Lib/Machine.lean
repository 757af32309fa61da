import Mathlib.Data.List.Infix

/-!
# Machines driven by a trace of events

A program whose handlers run atomically, one for each event, is a `Machine`: a state, a step for
each event, and the records that a step emits.  A run is a finite trace of events.  Invariants are
proved along the trace, one event at a time (`invariant`); what a specification wants to remember
about the past is a `ghost` value, updated from the state before each event and never read by it.
-/

namespace CpuSubsystem

section Throughout

variable {ε : Type*} (Q : List ε → ε → Prop)

/-- Every event of the trace meets `Q`, together with the events before it. -/
def Throughout (tr : List ε) : Prop := ∀ pre e, pre ++ [e] <+: tr → Q pre e

variable {Q} {pre : List ε} {e : ε}

theorem throughout_nil : Throughout Q [] := by
  intro pre e h
  have hnil := List.prefix_nil.mp h
  exact absurd hnil (by simp)

theorem Throughout.snoc (h : Throughout Q pre) (hq : Q pre e) : Throughout Q (pre ++ [e]) := by
  intro pre' e' hp
  rcases List.prefix_concat_iff.mp hp with heq | hp
  · obtain ⟨rfl, he⟩ := List.append_inj' heq rfl
    cases he
    exact hq
  · exact h pre' e' hp

theorem Throughout.of_snoc (h : Throughout Q (pre ++ [e])) : Throughout Q pre :=
  fun pre' e' hp => h pre' e' (hp.trans (List.prefix_append pre [e]))

theorem Throughout.last (h : Throughout Q (pre ++ [e])) : Q pre e :=
  h pre e List.prefix_rfl

theorem Throughout.restrict {tr tr' : List ε} (h : Throughout Q tr) (hp : tr' <+: tr) :
    Throughout Q tr' :=
  fun pre e he => h pre e (he.trans hp)

/-- Some event is the first one that fails to meet `Q`, if not all meet it. -/
theorem throughout_or_first (tr : List ε) :
    Throughout Q tr ∨ ∃ pre e, pre ++ [e] <+: tr ∧ Throughout Q pre ∧ ¬ Q pre e := by
  induction tr using List.reverseRecOn with
  | nil => exact Or.inl throughout_nil
  | append_singleton pre e ih =>
    rcases ih with hall | ⟨pre', e', hp, hpre, hno⟩
    · by_cases hq : Q pre e
      · exact Or.inl (hall.snoc hq)
      · exact Or.inr ⟨pre, e, List.prefix_rfl, hall, hq⟩
    · exact Or.inr ⟨pre', e', hp.trans (List.prefix_append pre [e]), hpre, hno⟩

theorem throughout_and {P : List ε → ε → Prop} {tr : List ε} :
    Throughout (fun pre e => P pre e ∧ Q pre e) tr ↔ Throughout P tr ∧ Throughout Q tr := by
  constructor
  · intro h
    exact ⟨fun pre e hp => (h pre e hp).1, fun pre e hp => (h pre e hp).2⟩
  · rintro ⟨hp, hq⟩ pre e hpre
    exact ⟨hp pre e hpre, hq pre e hpre⟩

/-- All events meet `P` exactly when all meet `Q`, if the two agree while `R` holds, and `R` goes on
after an event that meets `P`. -/
theorem throughout_congr_of {P : List ε → ε → Prop} {R : List ε → Prop} {tr : List ε}
    (hinit : R []) (hkeep : ∀ pre e, pre ++ [e] <+: tr → R pre → P pre e → R (pre ++ [e]))
    (hstep : ∀ pre e, pre ++ [e] <+: tr → R pre → (P pre e ↔ Q pre e)) :
    (Throughout P tr ↔ Throughout Q tr) ∧ (Throughout Q tr → R tr) := by
  induction tr using List.reverseRecOn with
  | nil => exact ⟨⟨fun _ => throughout_nil, fun _ => throughout_nil⟩, fun _ => hinit⟩
  | append_singleton pre e ih =>
    obtain ⟨hiff, hright⟩ := ih
      (fun pre' e' hp => hkeep pre' e' (hp.trans (List.prefix_append pre [e])))
      (fun pre' e' hp => hstep pre' e' (hp.trans (List.prefix_append pre [e])))
    have hlast := hstep pre e List.prefix_rfl
    refine ⟨⟨fun hp => ?_, fun hq => ?_⟩, fun hq => ?_⟩
    · have hq := hiff.mp hp.of_snoc
      exact hq.snoc ((hlast (hright hq)).mp hp.last)
    · exact (hiff.mpr hq.of_snoc).snoc ((hlast (hright hq.of_snoc)).mpr hq.last)
    · have hr := hright hq.of_snoc
      exact hkeep pre e List.prefix_rfl hr ((hlast hr).mpr hq.last)

/-- All events meet `P` exactly when all meet `Q`, if the two agree after a run where `R` holds, and
`P` makes `R` hold. -/
theorem throughout_congr {P : List ε → ε → Prop} {R : List ε → Prop} {tr : List ε} (hinit : R [])
    (hkeep : ∀ pre e, P pre e → R (pre ++ [e]))
    (hstep : ∀ pre e, pre ++ [e] <+: tr → R pre → (P pre e ↔ Q pre e)) :
    Throughout P tr ↔ Throughout Q tr :=
  (throughout_congr_of hinit (fun pre e _ _ hp => hkeep pre e hp) hstep).1

/-- Something holds in all states of a run exactly when every event meets `Q`, if it holds in the
beginning and an event keeps it exactly when it meets `Q`. -/
theorem throughout_states {R : List ε → Prop} {tr : List ε} (hinit : R [])
    (hstep : ∀ pre e, pre ++ [e] <+: tr → R pre → (R (pre ++ [e]) ↔ Q pre e)) :
    Throughout (fun pre e => R (pre ++ [e])) tr ↔ Throughout Q tr :=
  throughout_congr hinit (fun _ _ h => h) hstep

theorem throughout_iff {tr : List ε} :
    Throughout Q tr ↔ ∀ i : Fin tr.length, Q (tr.take i) (tr.get i) := by
  constructor
  · intro h i
    apply h
    rw [List.get_eq_getElem, ← List.take_succ_eq_append_getElem i.isLt]
    exact List.take_prefix _ _
  · intro h pre e hp
    obtain ⟨post, rfl⟩ := hp
    have hlt : pre.length < (pre ++ [e] ++ post).length := by simp
    have hi := h ⟨pre.length, hlt⟩
    simpa using hi

instance [∀ pre e, Decidable (Q pre e)] (tr : List ε) : Decidable (Throughout Q tr) :=
  decidable_of_iff _ throughout_iff.symm

end Throughout

/-- A list that every event only appends to is an initial part of what it becomes. -/
theorem grows_of_steps {ε γ : Type*} {f : List ε → List γ}
    (hstep : ∀ pre e, f pre <+: f (pre ++ [e])) {pre tr : List ε} (h : pre <+: tr) :
    f pre <+: f tr := by
  induction tr using List.reverseRecOn with
  | nil =>
    rw [List.prefix_nil.mp h]
  | append_singleton tr e ih =>
    rcases List.prefix_concat_iff.mp h with rfl | h
    · exact List.prefix_rfl
    · exact (ih h).trans (hstep tr e)

/-- States `σ`, events `ε`, emitted records `ρ`. -/
structure Machine (σ ε ρ : Type*) where
  init : σ
  step : σ → ε → σ × List ρ

namespace Machine

variable {σ ε ρ γ : Type*} (m : Machine σ ε ρ)

/-- The state reached and everything emitted after a trace. -/
def run (tr : List ε) : σ × List ρ :=
  tr.foldl (fun r e => ((m.step r.1 e).1, r.2 ++ (m.step r.1 e).2)) (m.init, [])

def exec (tr : List ε) : σ := (m.run tr).1

def emitted (tr : List ε) : List ρ := (m.run tr).2

/-- The records emitted by the event `e` when it comes after `pre`. -/
def emits (pre : List ε) (e : ε) : List ρ := (m.step (m.exec pre) e).2

/-- The same machine, among occurrences that it does not see. -/
def watching {ο : Type*} (view : ο → Option ε) : Machine σ ο ρ where
  init := m.init
  step s o :=
    match view o with
    | some e => m.step s e
    | none => (s, [])

@[simp] theorem exec_nil : m.exec [] = m.init := rfl

@[simp] theorem emitted_nil : m.emitted [] = [] := rfl

theorem exec_snoc (pre : List ε) (e : ε) : m.exec (pre ++ [e]) = (m.step (m.exec pre) e).1 := by
  simp only [exec, run, List.foldl_append, List.foldl_cons, List.foldl_nil]

theorem emitted_snoc (pre : List ε) (e : ε) :
    m.emitted (pre ++ [e]) = m.emitted pre ++ m.emits pre e := by
  simp only [emitted, emits, exec, run, List.foldl_append, List.foldl_cons, List.foldl_nil]

/-- Records are not taken back. -/
theorem emitted_grows {pre tr : List ε} (h : pre <+: tr) : m.emitted pre <+: m.emitted tr := by
  apply grows_of_steps _ h
  intro pre e
  rw [emitted_snoc]
  exact List.prefix_append _ _

/-- Every emitted record was emitted by one of the events. -/
theorem mem_emitted {tr : List ε} {r : ρ} (h : r ∈ m.emitted tr) :
    ∃ pre e, pre ++ [e] <+: tr ∧ r ∈ m.emits pre e := by
  induction tr using List.reverseRecOn with
  | nil => cases h
  | append_singleton pre e ih =>
    rw [emitted_snoc, List.mem_append] at h
    rcases h with h | h
    · obtain ⟨pre', e', hp, hr⟩ := ih h
      exact ⟨pre', e', hp.trans (List.prefix_append pre [e]), hr⟩
    · exact ⟨pre, e, List.prefix_rfl, h⟩

/-- Rule of invariants.  `Adm` selects the admitted traces; it has to be closed under prefixes. -/
theorem invariant {Adm : List ε → Prop} {P : List ε → σ → Prop}
    (hadm : ∀ pre e, Adm (pre ++ [e]) → Adm pre) (hinit : P [] m.init)
    (hstep : ∀ pre e, Adm (pre ++ [e]) → P pre (m.exec pre) →
      P (pre ++ [e]) (m.step (m.exec pre) e).1)
    (tr : List ε) (h : Adm tr) : P tr (m.exec tr) := by
  induction tr using List.reverseRecOn with
  | nil => exact hinit
  | append_singleton pre e ih =>
    rw [exec_snoc]
    exact hstep pre e h (ih (hadm pre e h))

/-- Rule of invariants, when every step meets a condition on the state before it. -/
theorem invariant_of_steps {P : σ → Prop} {Q : σ → ε → Prop} (hinit : P m.init)
    (hstep : ∀ s e, P s → Q s e → P (m.step s e).1) {tr : List ε}
    (h : Throughout (fun pre e => Q (m.exec pre) e) tr) : P (m.exec tr) := by
  induction tr using List.reverseRecOn with
  | nil => exact hinit
  | append_singleton pre e ih =>
    rw [exec_snoc]
    exact hstep _ e (ih h.of_snoc) h.last

/-- Rule of refinement.  While `P` holds, every event does to the abstract value of the state what
its operations do. -/
theorem refines {α ω : Type*} {abs : σ → α} {ops : ε → List ω} {apply : α → ω → α} {P : σ → Prop}
    {Adm : ε → Prop} (hinit : P m.init)
    (hstep : ∀ s e, P s → Adm e →
      P (m.step s e).1 ∧ abs (m.step s e).1 = (ops e).foldl apply (abs s))
    {tr : List ε} (h : ∀ e ∈ tr, Adm e) :
    P (m.exec tr) ∧ abs (m.exec tr) = (tr.flatMap ops).foldl apply (abs m.init) := by
  induction tr using List.reverseRecOn with
  | nil => exact ⟨hinit, rfl⟩
  | append_singleton pre e ih =>
    obtain ⟨hp, habs⟩ := ih fun x hx => h x (List.mem_append_left _ hx)
    have he := h e (List.mem_append_right _ (List.mem_singleton_self e))
    obtain ⟨hp', habs'⟩ := hstep _ e hp he
    rw [exec_snoc, List.flatMap_append, List.flatMap_singleton, List.foldl_append, ← habs]
    exact ⟨hp', habs'⟩

/-- A history variable: `upd` sees the state before each event. -/
def ghost (g : γ) (upd : γ → σ → ε → γ) (tr : List ε) : γ :=
  (tr.foldl (fun r e => ((m.step r.1 e).1, upd r.2 r.1 e)) (m.init, g)).2

@[simp] theorem ghost_nil (g : γ) (upd : γ → σ → ε → γ) : m.ghost g upd [] = g := rfl

theorem ghost_snoc (g : γ) (upd : γ → σ → ε → γ) (pre : List ε) (e : ε) :
    m.ghost g upd (pre ++ [e]) = upd (m.ghost g upd pre) (m.exec pre) e := by
  have hfst : ∀ tr : List ε,
      (tr.foldl (fun r e => ((m.step r.1 e).1, upd r.2 r.1 e)) (m.init, g)).1 = m.exec tr := by
    intro tr
    induction tr using List.reverseRecOn with
    | nil => rfl
    | append_singleton pre e ih =>
      rw [List.foldl_append, List.foldl_cons, List.foldl_nil, ih, exec_snoc]
  simp only [ghost, List.foldl_append, List.foldl_cons, List.foldl_nil, hfst]

/-- The events lead from the one state to the other and emit the records. -/
inductive Leads : σ → List ε → σ → List ρ → Prop where
  | nil (s : σ) : Leads s [] s []
  | cons {s s' : σ} {e : ε} {tr : List ε} {out : List ρ} (h : Leads (m.step s e).1 tr s' out) :
    Leads s (e :: tr) s' ((m.step s e).2 ++ out)

variable {m} in
theorem Leads.after {s s₁ s' : σ} {e : ε} {tr : List ε} {out₁ out : List ρ}
    (h : m.Leads s₁ tr s' out) (hstep : m.step s e = (s₁, out₁)) :
    m.Leads s (e :: tr) s' (out₁ ++ out) := by
  have hcons : m.Leads s (e :: tr) s' ((m.step s e).2 ++ out) := .cons (by rw [hstep]; exact h)
  rw [hstep] at hcons
  exact hcons

variable {m} in
theorem Leads.append {s s' s'' : σ} {tr tr' : List ε} {out out' : List ρ}
    (h : m.Leads s tr s' out) (h' : m.Leads s' tr' s'' out') :
    m.Leads s (tr ++ tr') s'' (out ++ out') := by
  induction h with
  | nil s => exact h'
  | cons h ih =>
    rw [List.append_assoc]
    exact (ih h').cons

variable {m} in
/-- From the state after a trace. -/
theorem Leads.extends {pre tr : List ε} {s' : σ} {out : List ρ}
    (h : m.Leads (m.exec pre) tr s' out) :
    m.exec (pre ++ tr) = s' ∧ m.emitted (pre ++ tr) = m.emitted pre ++ out := by
  generalize hs : m.exec pre = s at h
  induction h generalizing pre with
  | nil s =>
    rw [List.append_nil, List.append_nil]
    exact ⟨hs, rfl⟩
  | @cons s s' e tr out h ih =>
    have hnext := ih (by rw [exec_snoc, hs])
    rw [emitted_snoc, emits, hs, List.append_assoc, List.append_assoc] at hnext
    exact hnext

end Machine

end CpuSubsystem
