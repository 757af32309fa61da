import CpuSubsystem.Lib.Quoting
import CpuSubsystem.ProcImage.KeytimeImage.ExecArgs

/-!
# Arguments in quotes (`print_args` in `tools/keytime_image.c`)

The arguments of an exec are printed out of one buffer, in which each of them ends with a NUL.  The
quotes of an argument are escaped, its backslashes are not.
-/

namespace CpuSubsystem.KeytimeTool

open KeytimeImage (packed dots)

/-- `FULL_MAX_ARGS_ARR`. -/
abbrev fullMaxArgsArr : Nat := 60 * 128

/-- Of `struct event`, what `print_args` reads. -/
structure Event where
  argsCount : Int
  argsSize : Nat
  args : Vector UInt8 fullMaxArgsArr
deriving DecidableEq

/-- Of `env`, what `print_args` reads. -/
structure Env where
  quote : Bool
  maxArgs : Int
deriving DecidableEq, Repr

abbrev doubleQuote : UInt8 := 34

abbrev backslash : UInt8 := 92

abbrev tab : UInt8 := 9

abbrev newline : UInt8 := 10

abbrev space : UInt8 := 32

/-- The letters `t` and `n`. -/
abbrev letterT : UInt8 := 116

abbrev letterN : UInt8 := 110

def quotedSymbol (c : UInt8) : List UInt8 :=
  if c = doubleQuote then [backslash, doubleQuote]
  else if c = tab then [backslash, letterT]
  else if c = newline then [backslash, letterN]
  else [c]

/-- The loop of `print_args`, over the first `args_size` bytes of `args`. -/
def printChars (env : Env) (argsCount : Int) : List UInt8 → Int → List UInt8
  | [], _ => []
  | c :: rest, argsCounter =>
    if argsCounter < argsCount then
      if env.quote then
        if c = 0 then
          doubleQuote :: space ::
            ((if argsCounter + 1 < argsCount then [doubleQuote] else []) ++
              printChars env argsCount rest (argsCounter + 1))
        else quotedSymbol c ++ printChars env argsCount rest argsCounter
      else if c = 0 then space :: printChars env argsCount rest (argsCounter + 1)
      else c :: printChars env argsCount rest argsCounter
    else []

def printArgs (env : Env) (e : Event) : List UInt8 :=
  (if env.quote then [doubleQuote] else []) ++
    printChars env e.argsCount (e.args.toList.take e.argsSize) 0 ++
    if e.argsCount = env.maxArgs + 1 then dots else []

/-- The record holds these arguments, and not more than `max_args` of them. -/
structure Encodes (env : Env) (e : Event) (strs : List (List UInt8)) : Prop where
  noNul : ∀ str ∈ strs, (0 : UInt8) ∉ str
  bytes : e.args.toList.take e.argsSize = packed strs
  size : e.argsSize = (packed strs).length
  count : e.argsCount = strs.length
  few : e.argsCount ≤ env.maxArgs

/-- Two strings that differ at most in that the one has a tab or a newline where the other has a
backslash and a letter. -/
inductive Alike : List UInt8 → List UInt8 → Prop
  | nil : Alike [] []
  | same (c : UInt8) {s t} (h : Alike s t) : Alike (c :: s) (c :: t)
  | tabLeft {s t} (h : Alike s t) : Alike (tab :: s) (backslash :: letterT :: t)
  | tabRight {s t} (h : Alike s t) : Alike (backslash :: letterT :: s) (tab :: t)
  | newlineLeft {s t} (h : Alike s t) : Alike (newline :: s) (backslash :: letterN :: t)
  | newlineRight {s t} (h : Alike s t) : Alike (backslash :: letterN :: s) (newline :: t)

section Symbols

variable {c d : UInt8} {s t : List UInt8}

theorem quotedSymbol_escapes : Escapes quotedSymbol doubleQuote space where
  ne := by decide
  head c := by
    unfold quotedSymbol
    split_ifs with hquote
    · decide
    · decide
    · decide
    · simpa using hquote
  chain c := by
    unfold quotedSymbol
    split_ifs
    · exact List.isChain_pair.mpr fun _ => by decide
    · exact List.isChain_pair.mpr fun _ => by decide
    · exact List.isChain_pair.mpr fun _ => by decide
    · exact List.isChain_singleton c
  nonempty c := by
    unfold quotedSymbol
    split_ifs <;> exact nofun

theorem Alike.symm (h : Alike s t) : Alike t s := by
  induction h with
  | nil => exact .nil
  | same c _ ih => exact .same c ih
  | tabLeft _ ih => exact .tabRight ih
  | tabRight _ ih => exact .tabLeft ih
  | newlineLeft _ ih => exact .newlineRight ih
  | newlineRight _ ih => exact .newlineLeft ih

theorem Alike.quoted (h : Alike s t) : s.flatMap quotedSymbol = t.flatMap quotedSymbol := by
  induction h with
  | nil => rfl
  | same c _ ih => rw [List.flatMap_cons, List.flatMap_cons, ih]
  | tabLeft _ ih => simp only [List.flatMap_cons, ih]; rfl
  | tabRight _ ih => simp only [List.flatMap_cons, ih]; rfl
  | newlineLeft _ ih => simp only [List.flatMap_cons, ih]; rfl
  | newlineRight _ ih => simp only [List.flatMap_cons, ih]; rfl

/-- Two texts that begin with the sequences of `c` and `d`. -/
theorem quotedSymbol_append {u v : List UInt8} (hu : u.head? ≠ some doubleQuote)
    (hv : v.head? ≠ some doubleQuote) (h : quotedSymbol c ++ u = quotedSymbol d ++ v) :
    c = d ∧ u = v ∨
      c = tab ∧ d = backslash ∧ v = letterT :: u ∨ c = backslash ∧ d = tab ∧ u = letterT :: v ∨
      c = newline ∧ d = backslash ∧ v = letterN :: u ∨
        c = backslash ∧ d = newline ∧ u = letterN :: v := by
  unfold quotedSymbol at h
  split_ifs at h <;> grind

/-- A symbol in the text that does not begin an escape sequence stands for itself. -/
theorem flatMap_eq_cons {u : List UInt8} (hc : c ≠ backslash)
    (h : s.flatMap quotedSymbol = c :: u) : ∃ s', s = c :: s' ∧ s'.flatMap quotedSymbol = u := by
  cases s with
  | nil => cases h
  | cons d s =>
    rw [List.flatMap_cons] at h
    unfold quotedSymbol at h
    split_ifs at h
    · exact absurd (List.cons.inj h).1.symm hc
    · exact absurd (List.cons.inj h).1.symm hc
    · exact absurd (List.cons.inj h).1.symm hc
    · obtain ⟨rfl, hrest⟩ := List.cons.inj h
      exact ⟨s, rfl, hrest⟩

theorem alike_of_quoted (n : ℕ) (s t : List UInt8) (hn : s.length + t.length ≤ n)
    (h : s.flatMap quotedSymbol = t.flatMap quotedSymbol) : Alike s t := by
  induction n generalizing s t with
  | zero =>
    have hs : s = [] := List.length_eq_zero_iff.mp (by omega)
    have ht : t = [] := List.length_eq_zero_iff.mp (by omega)
    rw [hs, ht]
    exact .nil
  | succ n ih =>
    cases s with
    | nil =>
      cases t with
      | nil => exact .nil
      | cons d t =>
        have hne := quotedSymbol_escapes.nonempty d
        simp [hne] at h
    | cons c s =>
      cases t with
      | nil =>
        have hne := quotedSymbol_escapes.nonempty c
        simp [hne] at h
      | cons d t =>
        simp only [List.length_cons] at hn
        rw [List.flatMap_cons, List.flatMap_cons] at h
        rcases quotedSymbol_append (quotedSymbol_escapes.flatMap_head s)
            (quotedSymbol_escapes.flatMap_head t) h with
          ⟨rfl, hrest⟩ | ⟨rfl, rfl, hrest⟩ | ⟨rfl, rfl, hrest⟩ | ⟨rfl, rfl, hrest⟩ |
            ⟨rfl, rfl, hrest⟩
        · exact .same c (ih s t (by omega) hrest)
        · obtain ⟨t', rfl, hrest'⟩ := flatMap_eq_cons (by decide) hrest
          rw [List.length_cons] at hn
          exact .tabLeft (ih s t' (by omega) hrest'.symm)
        · obtain ⟨s', rfl, hrest'⟩ := flatMap_eq_cons (by decide) hrest
          rw [List.length_cons] at hn
          exact .tabRight (ih s' t (by omega) hrest')
        · obtain ⟨t', rfl, hrest'⟩ := flatMap_eq_cons (by decide) hrest
          rw [List.length_cons] at hn
          exact .newlineLeft (ih s t' (by omega) hrest'.symm)
        · obtain ⟨s', rfl, hrest'⟩ := flatMap_eq_cons (by decide) hrest
          rw [List.length_cons] at hn
          exact .newlineRight (ih s' t (by omega) hrest')

/-- Two strings are printed alike exactly when they are. -/
theorem quoted_iff_alike : s.flatMap quotedSymbol = t.flatMap quotedSymbol ↔ Alike s t :=
  ⟨alike_of_quoted _ s t (Nat.le_refl _), Alike.quoted⟩

end Symbols

section Printed

variable {env : Env} {e e' : Event} {strs xs ys : List (List UInt8)} {counter argsCount : Int}

theorem printChars_string {str rest : List UInt8} (hq : env.quote = true)
    (h : (0 : UInt8) ∉ str) (hlt : counter < argsCount) :
    printChars env argsCount (str ++ rest) counter =
      str.flatMap quotedSymbol ++ printChars env argsCount rest counter := by
  induction str with
  | nil => rfl
  | cons c str ih =>
    have hc : c ≠ 0 := fun heq => h (heq ▸ List.mem_cons_self)
    rw [List.cons_append, printChars, if_pos hlt, if_pos hq, if_neg hc,
      ih fun hin => h (List.mem_cons_of_mem c hin), List.flatMap_cons, List.append_assoc]

/-- From the argument with the number `counter` on, the loop prints the rest of them. -/
theorem printChars_packed (hq : env.quote = true) (h : ∀ str ∈ strs, (0 : UInt8) ∉ str)
    (hcount : counter + strs.length = argsCount) :
    printChars env argsCount (packed strs) counter =
      quotedBody quotedSymbol doubleQuote space strs := by
  induction strs generalizing counter with
  | nil => rfl
  | cons str strs ih =>
    rw [List.length_cons] at hcount
    have hlt : counter < argsCount := by omega
    have hrest : printChars env argsCount (packed strs) (counter + 1) =
        quotedBody quotedSymbol doubleQuote space strs :=
      ih (fun x hx => h x (List.mem_cons_of_mem str hx)) (by omega)
    have hsplit : packed (str :: strs) = str ++ 0 :: packed strs := by simp [packed]
    rw [hsplit, printChars_string hq (h str List.mem_cons_self) hlt, printChars, if_pos hlt,
      if_pos hq, if_pos rfl, hrest, quotedBody_cons]
    cases strs with
    | nil =>
      rw [if_neg (by simp only [List.length_nil] at hcount; omega)]
      rfl
    | cons str' strs =>
      rw [if_pos (by simp only [List.length_cons] at hcount; omega)]
      rfl

theorem printArgs_eq (hq : env.quote = true) (h : Encodes env e strs) :
    printArgs env e = doubleQuote :: quotedBody quotedSymbol doubleQuote space strs := by
  have hfew := h.few
  rw [printArgs, if_pos hq, h.bytes, printChars_packed hq h.noNul (by rw [h.count]; omega),
    if_neg (by omega), List.append_nil]
  rfl

/-- The text tells two lists of arguments apart, unless they differ only in that the one has a tab
(or a newline) at places where the other has a backslash and the letter `t` (or `n`). -/
theorem printArgs_unambiguous_iff (env : Env) (hq : env.quote = true) (e e' : Event)
    (xs ys : List (List UInt8)) (he : Encodes env e xs) (he' : Encodes env e' ys) :
    (printArgs env e = printArgs env e' → xs = ys) ↔ ¬ (xs ≠ ys ∧ List.Forall₂ Alike xs ys) := by
  have hprints : printArgs env e = printArgs env e' ↔ List.Forall₂ Alike xs ys := by
    rw [printArgs_eq hq he, printArgs_eq hq he', List.cons_inj_right,
      quotedBody_inj_iff quotedSymbol_escapes]
    simp only [quoted_iff_alike]
  rw [hprints, not_and, not_imp_not]

/-- The record of these arguments. -/
def record (strs : List (List UInt8)) : Event where
  argsCount := strs.length
  argsSize := (packed strs).length
  args := Vector.ofFn fun i => (packed strs).getD i 0

theorem record_encodes (h : ∀ str ∈ strs, (0 : UInt8) ∉ str)
    (hsize : (packed strs).length ≤ fullMaxArgsArr) (hfew : (strs.length : Int) ≤ env.maxArgs) :
    Encodes env (record strs) strs where
  noNul := h
  bytes := by
    apply List.ext_getElem
    · simp only [record, List.length_take, Vector.length_toList]
      omega
    · intro i _ hi
      simp [record, hi]
  size := rfl
  count := rfl
  few := hfew

/-- The option `-q`. -/
def quoting : Env := ⟨true, 20⟩

/-- A tab, and a backslash with a `t`. -/
def tabArgs : List (List UInt8) := [[tab]]

def letterArgs : List (List UInt8) := [[backslash, letterT]]

/-- Two arguments, and one with quotes and a space in it. -/
def twoArgs : List (List UInt8) := [[97], [98]]

def oneArg : List (List UInt8) := [[97, doubleQuote, space, doubleQuote, 98]]

theorem printArgs_unambiguous_iff_quotes :
    twoArgs ≠ oneArg ∧
      printArgs quoting (record twoArgs) ≠ printArgs quoting (record oneArg) := by
  have hne : twoArgs ≠ oneArg := by decide
  refine ⟨hne, fun hprint => hne ?_⟩
  exact (printArgs_unambiguous_iff quoting rfl (record twoArgs) (record oneArg) twoArgs oneArg
    (record_encodes (by decide) (by decide) (by decide))
    (record_encodes (by decide) (by decide) (by decide))).mpr
    (fun h => absurd h.2.length_eq (by decide)) hprint

/-- A tab is printed as a backslash with a `t` is. -/
theorem tab_printed_alike :
    ¬ ∀ (env : Env) (e e' : Event) (xs ys : List (List UInt8)), env.quote = true →
      Encodes env e xs → Encodes env e' ys → printArgs env e = printArgs env e' → xs = ys := by
  intro h
  have hx : Encodes quoting (record tabArgs) tabArgs :=
    record_encodes (by decide) (by decide) (by decide)
  have hy : Encodes quoting (record letterArgs) letterArgs :=
    record_encodes (by decide) (by decide) (by decide)
  have hne : tabArgs ≠ letterArgs := by decide
  apply hne
  apply h quoting _ _ tabArgs letterArgs rfl hx hy
  rw [printArgs_eq rfl hx, printArgs_eq rfl hy]
  rfl

end Printed

end CpuSubsystem.KeytimeTool
