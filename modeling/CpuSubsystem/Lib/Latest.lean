import Mathlib.Data.List.Infix

/-!
# The latest and the earliest event of a kind

`latest f tr` is the value of the partial function `f` at the last event of the trace where it is
defined.  It states what a map entry remembers: the latest write, the latest call still open, the
latest time a task became ready.  `recent f tr` is the same for an `f` that also sees the events
before, and so the state that they lead to, and `collect f tr` has all its values.  `earliest g tr`
is the value of `g` at the first prefix of the trace where it is defined.
-/

namespace CpuSubsystem

variable {ε α β : Type*}

def latest (f : ε → Option α) (tr : List ε) : Option α := (tr.filterMap f).getLast?

@[simp] theorem latest_nil (f : ε → Option α) : latest f [] = none := rfl

theorem latest_snoc (f : ε → Option α) (pre : List ε) (e : ε) :
    latest f (pre ++ [e]) = (f e).or (latest f pre) := by
  unfold latest
  cases h : f e with
  | none => simp only [List.filterMap_append, List.filterMap_cons, h, List.filterMap_nil,
      List.append_nil, Option.none_or]
  | some a => simp only [List.filterMap_append, List.filterMap_cons, h, List.filterMap_nil,
      List.getLast?_append, List.getLast?_singleton, Option.some_or]

theorem latest_snoc_some {f : ε → Option α} {e : ε} {a : α} (pre : List ε) (h : f e = some a) :
    latest f (pre ++ [e]) = some a := by
  rw [latest_snoc, h, Option.some_or]

theorem latest_snoc_none {f : ε → Option α} {e : ε} (pre : List ε) (h : f e = none) :
    latest f (pre ++ [e]) = latest f pre := by
  rw [latest_snoc, h, Option.none_or]

theorem latest_append (f : ε → Option α) (pre post : List ε) :
    latest f (pre ++ post) = (latest f post).or (latest f pre) := by
  unfold latest
  rw [List.filterMap_append, List.getLast?_append]

/-- Where the latest value comes from: an event after which `f` is undefined. -/
theorem latest_eq_some {f : ε → Option α} {tr : List ε} {a : α} (h : latest f tr = some a) :
    ∃ pre e post, tr = pre ++ e :: post ∧ f e = some a ∧ ∀ x ∈ post, f x = none := by
  induction tr using List.reverseRecOn with
  | nil => cases h
  | append_singleton tr x ih =>
    cases hx : f x with
    | some b =>
      rw [latest_snoc_some tr hx] at h
      refine ⟨tr, x, [], rfl, hx.trans h, ?_⟩
      intro y hy
      cases hy
    | none =>
      rw [latest_snoc_none tr hx] at h
      obtain ⟨pre, e, post, htr, he, hpost⟩ := ih h
      refine ⟨pre, e, post ++ [x], by rw [htr]; simp, he, ?_⟩
      intro y hy
      rcases List.mem_append.mp hy with hy | hy
      · exact hpost y hy
      · rw [List.mem_singleton.mp hy, hx]

theorem latest_eq_none {f : ε → Option α} {tr : List ε} :
    latest f tr = none ↔ ∀ e ∈ tr, f e = none := by
  rw [latest, List.getLast?_eq_none_iff, List.filterMap_eq_nil_iff]

/-- Where `f` has a value `g` has one, so that there is a latest one. -/
theorem exists_latest {f : ε → Option α} {g : ε → Option β} {tr : List ε} {a : α}
    (h : latest f tr = some a) (hg : ∀ e, f e = some a → g e ≠ none) :
    ∃ b, latest g tr = some b := by
  obtain ⟨pre, e, post, rfl, he, -⟩ := latest_eq_some h
  apply Option.ne_none_iff_exists'.mp
  intro hnone
  exact hg e he (latest_eq_none.mp hnone e (by simp))

/-- A fold that keeps the events seen so far. -/
theorem foldl_seen (g : List ε × β → ε → β) (b : β) (tr : List ε) :
    (tr.foldl (fun r e => (r.1 ++ [e], g r e)) ([], b)).1 = tr := by
  induction tr using List.reverseRecOn with
  | nil => rfl
  | append_singleton pre e ih => rw [List.foldl_append, List.foldl_cons, List.foldl_nil, ih]

def recent (f : List ε → ε → Option α) (tr : List ε) : Option α :=
  (tr.foldl (fun r e => (r.1 ++ [e], (f r.1 e).or r.2)) (([] : List ε), none)).2

@[simp] theorem recent_nil (f : List ε → ε → Option α) : recent f [] = none := rfl

theorem recent_snoc (f : List ε → ε → Option α) (pre : List ε) (e : ε) :
    recent f (pre ++ [e]) = (f pre e).or (recent f pre) := by
  have hseen := foldl_seen (fun r e => (f r.1 e).or r.2) none pre
  simp only [recent, List.foldl_append, List.foldl_cons, List.foldl_nil, hseen]

theorem recent_snoc_some {f : List ε → ε → Option α} {pre : List ε} {e : ε} {a : α}
    (h : f pre e = some a) : recent f (pre ++ [e]) = some a := by
  rw [recent_snoc, h, Option.some_or]

theorem recent_snoc_none {f : List ε → ε → Option α} {pre : List ε} {e : ε}
    (h : f pre e = none) : recent f (pre ++ [e]) = recent f pre := by
  rw [recent_snoc, h, Option.none_or]

def collect (f : List ε → ε → Option α) (tr : List ε) : List α :=
  (tr.foldl (fun r e => (r.1 ++ [e], r.2 ++ (f r.1 e).toList)) (([] : List ε), [])).2

@[simp] theorem collect_nil (f : List ε → ε → Option α) : collect f [] = [] := rfl

theorem collect_snoc (f : List ε → ε → Option α) (pre : List ε) (e : ε) :
    collect f (pre ++ [e]) = collect f pre ++ (f pre e).toList := by
  have hseen := foldl_seen (fun r e => r.2 ++ (f r.1 e).toList) [] pre
  simp only [collect, List.foldl_append, List.foldl_cons, List.foldl_nil, hseen]

/-- A value kept beside a run, by events that know the ones before. -/
def remember (upd : List ε → β → ε → β) (b : β) (tr : List ε) : β :=
  (tr.foldl (fun r e => (r.1 ++ [e], upd r.1 r.2 e)) (([] : List ε), b)).2

@[simp] theorem remember_nil (upd : List ε → β → ε → β) (b : β) : remember upd b [] = b := rfl

theorem remember_snoc (upd : List ε → β → ε → β) (b : β) (pre : List ε) (e : ε) :
    remember upd b (pre ++ [e]) = upd pre (remember upd b pre) e := by
  have hseen := foldl_seen (fun r e => upd r.1 r.2 e) b pre
  simp only [remember, List.foldl_append, List.foldl_cons, List.foldl_nil, hseen]

def earliest (g : List ε → Option α) (tr : List ε) : Option α := tr.inits.findSome? g

theorem earliest_snoc (g : List ε → Option α) (pre : List ε) (e : ε) :
    earliest g (pre ++ [e]) = (earliest g pre).or (g (pre ++ [e])) := by
  unfold earliest
  rw [List.inits_append, List.findSome?_append]
  simp

end CpuSubsystem
