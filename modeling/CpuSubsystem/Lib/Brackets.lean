import Mathlib.Data.List.Basic

/-!
# Handlers that open and close like brackets

A `view` picks the beginnings and the ends of handlers out of a trace.  On every CPU the handler
that ends is the one that began last, so each CPU has a stack of them; the handlers of different
CPUs overlap in any way.
-/

namespace CpuSubsystem

inductive Bracket (κ ι α : Type*) where
  | opens (cpu : κ) (key : ι) (start : α)
  | closes (cpu : κ) (key : ι) (stop : α)

def Bracket.cpu {κ ι α : Type*} : Bracket κ ι α → κ
  | .opens cpu _ _ => cpu
  | .closes cpu _ _ => cpu

/-- The handlers in progress on a CPU, the innermost first, and when the completed ones began and
ended. -/
structure Nest (ι α : Type*) where
  opened : List (ι × α)
  completed : List (α × α)

variable {ε κ ι α : Type*}

def Nest.push (n : Nest ι α) (key : ι) (start : α) : Nest ι α :=
  { n with opened := (key, start) :: n.opened }

def Nest.pop (n : Nest ι α) (stop : α) : Nest ι α :=
  match n.opened with
  | [] => n
  | (_, start) :: rest => ⟨rest, n.completed ++ [(start, stop)]⟩

/-- The handler that ends is the innermost one. -/
def Nest.Admits (n : Nest ι α) : Bracket κ ι α → Prop
  | .opens _ _ _ => True
  | .closes _ key _ => n.opened.head?.map Prod.fst = some key

instance Nest.decidableAdmits [DecidableEq ι] (n : Nest ι α) (b : Bracket κ ι α) :
    Decidable (n.Admits b) :=
  match b with
  | .opens _ _ _ => inferInstanceAs (Decidable True)
  | .closes _ key _ => inferInstanceAs (Decidable (n.opened.head?.map Prod.fst = some key))

section Nests

variable [DecidableEq κ] (view : ε → Option (Bracket κ ι α))

def Nest.step (cpu : κ) (n : Nest ι α) (b : Bracket κ ι α) : Nest ι α :=
  if b.cpu = cpu then
    match b with
    | .opens _ key start => n.push key start
    | .closes _ _ stop => n.pop stop
  else n

/-- The handlers of one CPU. -/
def nest (cpu : κ) (tr : List ε) : Nest ι α := (tr.filterMap view).foldl (Nest.step cpu) ⟨[], []⟩

def Bracketed (pre : List ε) (e : ε) : Prop := ∀ b ∈ view e, (nest view b.cpu pre).Admits b

instance [DecidableEq ι] (pre : List ε) (e : ε) : Decidable (Bracketed view pre e) :=
  Option.decidableForallMem _

variable {view} {pre : List ε} {e : ε} {cpu k : κ} {key : ι} {start stop : α}

theorem nest_snoc {b : Bracket κ ι α} (h : view e = some b) :
    nest view k (pre ++ [e]) = (nest view k pre).step k b := by
  simp only [nest, List.filterMap_append, List.filterMap_cons, h, List.filterMap_nil,
    List.foldl_append, List.foldl_cons, List.foldl_nil]

theorem nest_snoc_skip (h : view e = none) : nest view k (pre ++ [e]) = nest view k pre := by
  simp only [nest, List.filterMap_append, List.filterMap_cons, h, List.filterMap_nil,
    List.append_nil]

/-- The beginning of a handler completes none. -/
theorem completed_opens (h : view e = some (.opens cpu key start)) :
    (nest view k (pre ++ [e])).completed = (nest view k pre).completed := by
  rw [nest_snoc h, Nest.step]
  split <;> rfl

theorem completed_closes (h : view e = some (.closes cpu key stop))
    (hopened : (nest view cpu pre).opened.head? = some (key, start)) :
    (nest view k (pre ++ [e])).completed =
      (nest view k pre).completed ++ if cpu = k then [(start, stop)] else [] := by
  rw [nest_snoc h]
  show (if cpu = k then (nest view k pre).pop stop else nest view k pre).completed = _
  by_cases hk : cpu = k
  · subst hk
    obtain ⟨rest, hrest⟩ := List.head?_eq_some_iff.mp hopened
    rw [if_pos rfl, if_pos rfl, Nest.pop, hrest]
  · rw [if_neg hk, if_neg hk, List.append_nil]

/-- The handler that a closing bracket ends. -/
theorem Bracketed.opened (hb : Bracketed view pre e) (h : view e = some (.closes cpu key stop)) :
    ∃ start, (nest view cpu pre).opened.head? = some (key, start) := by
  obtain ⟨⟨key', start⟩, hhead, rfl⟩ := Option.map_eq_some_iff.mp (hb _ h)
  exact ⟨start, hhead⟩

end Nests

end CpuSubsystem
