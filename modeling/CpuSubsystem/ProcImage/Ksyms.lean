import CpuSubsystem.Lib.Outcome
import Mathlib.Data.List.Forall2
import Mathlib.Data.List.TakeWhile
import Mathlib.Data.UInt

/-!
# Kernel symbols (`ksyms` in `trace_helpers.c`, `print_stack`)

The symbols of `/proc/kallsyms` are put in two blocks of memory that grow by `realloc`, sorted, and
searched for the last one at or below an address.  A name that does not fit in `sym_name` and a
capacity that is no longer an `int` are faults.
-/

namespace CpuSubsystem.Ksyms

inductive Fault where
  | outOfBounds (index : Int)
  | nameOverflow
  | intOverflow
deriving DecidableEq, Repr

/-- The size of `sym_name`. -/
abbrev nameSize : Nat := 256

/-- `struct ksym`; the name is an offset into the strings. -/
structure Ksym where
  name : Nat
  addr : UInt64
deriving DecidableEq, Repr

/-- `struct ksyms`: the blocks, which are as long as the capacities, and how much is in use. -/
structure Table where
  syms : List Ksym
  symsSz : Nat
  strs : List UInt8
  strsSz : Nat

/-- `calloc(1, sizeof(*ksyms))`. -/
def Table.empty : Table := ⟨[], 0, [], 0⟩

/-- A symbol that `fscanf` reads, and what the calls of `realloc` find for it: nothing, or memory
with any contents. -/
structure Line where
  addr : UInt64
  name : List UInt8
  noNul : 0 ∉ name
  strsMem : Option (Nat → UInt8)
  symsMem : Option (Nat → Ksym)

/-- `realloc` to a larger block. -/
def regrow {α : Type} (block : List α) (newCap : Nat) (fresh : Nat → α) : List α :=
  block ++ (List.range (newCap - block.length)).map fresh

/-- A write of these elements into a block. -/
def put {α : Type} (block : List α) (i : Nat) (new : List α) : Except Fault (List α) :=
  if i + new.length ≤ block.length then
    .ok (block.take i ++ new ++ block.drop (i + new.length))
  else .error (.outOfBounds i)

/-- The capacity that `ksyms__add_symbol` asks for when a block is full.  The old one is an `int`, and
so is the product. -/
def newCap (cap need : Nat) : Except Fault Nat :=
  if cap * 4 < 2 ^ 31 then .ok (max (max (cap * 4 / 3) need) 1024) else .error .intOverflow

/-- The first half of `ksyms__add_symbol`; `none` when `realloc` fails. -/
def Table.growStrs (t : Table) (line : Line) : Except Fault (Option Table) := do
  let need := t.strsSz + (line.name.length + 1)
  if need > t.strs.length then
    let cap ← newCap t.strs.length need
    return line.strsMem.map fun fresh => { t with strs := regrow t.strs cap fresh }
  else
    return some t

/-- Here the code does not compare with what is needed. -/
def Table.growSyms (t : Table) (line : Line) : Except Fault (Option Table) := do
  if t.symsSz + 1 > t.syms.length then
    let cap ← newCap t.syms.length 0
    return line.symsMem.map fun fresh => { t with syms := regrow t.syms cap fresh }
  else
    return some t

/-- `ksyms__add_symbol`. -/
def Table.addSymbol (t : Table) (line : Line) : Except Fault (Option Table) := do
  match ← t.growStrs line with
  | none => return none
  | some t =>
    match ← t.growSyms line with
    | none => return none
    | some t =>
      let syms ← put t.syms t.symsSz [⟨t.strsSz, line.addr⟩]
      let strs ← put t.strs t.strsSz (line.name ++ [0])
      return some { t with
        syms := syms
        symsSz := t.symsSz + 1
        strs := strs
        strsSz := t.strsSz + (line.name.length + 1) }

/-- One pass of the loop of `ksyms__load`.  The `%s` stores the whole name and a NUL. -/
def Table.readLine (t : Table) (line : Line) : Except Fault (Option Table) :=
  if line.name.length < nameSize then t.addSymbol line else .error .nameOverflow

/-- The difference of the first bytes that differ. -/
def strcmp : List UInt8 → List UInt8 → Int
  | [], [] => 0
  | [], b :: _ => -b.toNat
  | a :: _, [] => a.toNat
  | a :: as, b :: bs => if a = b then strcmp as bs else a.toNat - b.toNat

/-- The string at an offset. -/
def strAt (strs : List UInt8) (off : Nat) : List UInt8 := (strs.drop off).takeWhile (· ≠ 0)

def ksymCmp (strs : List UInt8) (s1 s2 : Ksym) : Int :=
  if s1.addr = s2.addr then strcmp (strAt strs s1.name) (strAt strs s2.name)
  else if s1.addr < s2.addr then -1 else 1

/-- The loop of `ksyms__load`: `none` when a symbol cannot be added. -/
def readAll : Table → List Line → Except Fault (Option Table)
  | t, [] => .ok (some t)
  | t, line :: lines => do
    match ← t.readLine line with
    | none => return none
    | some t => readAll t lines

/-- `ksyms__load`, when the file can be opened or not and `calloc` has memory or not.  Reading stops
behind the lines, at the end of the file or at what is no symbol. -/
def load (opens room : Bool) (lines : List Line) (atEnd : Bool) : Except Fault (Option Table) := do
  if opens && room then
    match ← readAll Table.empty lines with
    | none => return none
    | some t =>
      if atEnd then
        return some { t with
          syms := (t.syms.take t.symsSz).mergeSort (fun a b => ksymCmp t.strs a b ≤ 0) }
      else
        return none
  else
    return none

/-- `syms[i]`. -/
def symAt (syms : List Ksym) (i : Int) : Except Fault Ksym :=
  if 0 ≤ i then
    match syms[i.toNat]? with
    | some s => .ok s
    | none => .error (.outOfBounds i)
  else .error (.outOfBounds i)

/-- The loop of `ksyms__map_addr`: where it leaves `start` and `end`. -/
def searchAddr (syms : List Ksym) (addr : UInt64) (start stop : Int) : Except Fault (Int × Int) :=
  if _h : start < stop then do
    let mid := start + (stop - start + 1) / 2
    let s ← symAt syms mid
    if s.addr ≤ addr then searchAddr syms addr mid stop
    else searchAddr syms addr start (mid - 1)
  else .ok (start, stop)
termination_by (stop - start).toNat

/-- `ksyms__map_addr`. -/
def Table.mapAddr (t : Table) (addr : UInt64) : Except Fault (Option Ksym) := do
  let (start, stop) ← searchAddr t.syms addr 0 (t.symsSz - 1)
  if start = stop then
    let s ← symAt t.syms start
    if s.addr ≤ addr then return some s else return none
  else
    return none

/-- What `print_stack` prints: an address, and the name and the distance of a symbol. -/
inductive StackLine where
  | known (address : UInt64) (name : List UInt8) (off : UInt64)
  | unknown (address : UInt64)
deriving DecidableEq

def Table.printStack (t : Table) (address : UInt64) : Except Fault StackLine := do
  match ← t.mapAddr address with
  | some s => return .known address (strAt t.strs s.name) (address - s.addr)
  | none => return .unknown address

/-! ## Loading -/

section Load

variable {t : Table} {line : Line} {lines pre : List Line}

/-- The symbol has the address and, in this part of the strings, the name of the line. -/
def Holds (used : List UInt8) (line : Line) (s : Ksym) : Prop :=
  s.addr = line.addr ∧ line.name ++ [0] <+: used.drop s.name

theorem Holds.grow {used used' : List UInt8} {s : Ksym} (h : Holds used line s)
    (hpre : used <+: used') : Holds used' line s :=
  ⟨h.1, h.2.trans (hpre.drop s.name)⟩

theorem Holds.strAt_eq {strs : List UInt8} {n : Nat} {s : Ksym} (h : Holds (strs.take n) line s) :
    strAt strs s.name = line.name := by
  obtain ⟨rest, hrest⟩ := (h.grow (List.take_prefix n strs)).2
  have hall : ∀ b ∈ line.name, decide (b ≠ 0) = true := by
    intro b hb
    rw [decide_eq_true_iff]
    rintro rfl
    exact line.noNul hb
  rw [strAt, ← hrest, List.append_assoc, List.takeWhile_append_of_pos hall]
  simp

/-- The bytes that the names of these lines take. -/
def needed (lines : List Line) : Nat := (lines.map fun line => line.name.length + 1).sum

@[simp] theorem needed_append (lines lines' : List Line) :
    needed (lines ++ lines') = needed lines + needed lines' := by
  rw [needed, List.map_append, List.sum_append]
  rfl

@[simp] theorem needed_singleton (line : Line) : needed [line] = line.name.length + 1 := rfl

theorem length_le_needed (lines : List Line) : lines.length ≤ needed lines := by
  induction lines with
  | nil => exact Nat.le_refl 0
  | cons line lines ih =>
    rw [← List.singleton_append, needed_append, needed_singleton, List.length_append,
      List.length_singleton]
    omega

/-- The table has these lines, in this order, and its capacities are `int`s. -/
structure Added (t : Table) (lines : List Line) : Prop where
  symsSz : t.symsSz = lines.length
  strsSz : t.strsSz = needed lines
  symsCap : t.symsSz ≤ t.syms.length
  strsCap : t.strsSz ≤ t.strs.length
  symsInt : t.syms.length < 2 ^ 30
  strsInt : t.strs.length < 2 ^ 30
  syms : List.Forall₂ (Holds (t.strs.take t.strsSz)) lines (t.syms.take t.symsSz)

theorem added_empty : Added Table.empty [] :=
  ⟨rfl, rfl, Nat.le_refl 0, Nat.le_refl 0, by decide, by decide, .nil⟩

/-- Where reading stops: at a name that overflows the buffer, at a capacity that is no `int`, or
without memory. -/
inductive Stops (pre : List Line) (line : Line) : Except Fault (Option Table) → Prop where
  | nameOverflow (h : nameSize ≤ line.name.length) : Stops pre line (.error .nameOverflow)
  | intOverflow (hshort : line.name.length < nameSize) (h : 2 ^ 29 < needed (pre ++ [line])) :
      Stops pre line (.error .intOverflow)
  | noMemory (hshort : line.name.length < nameSize)
      (h : line.strsMem = none ∨ line.symsMem = none) : Stops pre line (.ok none)

theorem take_regrow {α : Type} {block : List α} {n : Nat} (h : n ≤ block.length) (newCap : Nat)
    (fresh : Nat → α) : (regrow block newCap fresh).take n = block.take n :=
  List.take_append_of_le_length h

theorem length_regrow {α : Type} {block : List α} {newCap : Nat} (h : block.length ≤ newCap)
    (fresh : Nat → α) : (regrow block newCap fresh).length = newCap := by
  rw [regrow, List.length_append, List.length_map, List.length_range]
  omega

theorem newCap_spec (cap need : Nat) :
    (newCap cap need = .error .intOverflow ∧ 2 ^ 29 ≤ cap) ∨
    ∃ cap', newCap cap need = .ok cap' ∧ cap < cap' ∧ need ≤ cap' ∧
      (need < cap + 2 ^ 29 → cap' < 2 ^ 30) := by
  unfold newCap
  split
  -- a third more is a larger number from 3 on, and below that 1024 is
  · exact Or.inr ⟨_, rfl, by omega, by omega, by omega⟩
  · exact Or.inl ⟨rfl, by omega⟩

theorem put_spec {α : Type} {block new : List α} {i : Nat}
    (h : i + new.length ≤ block.length) :
    ∃ block', put block i new = .ok block' ∧ block'.length = block.length ∧
      block'.take (i + new.length) = block.take i ++ new := by
  have hlen : (block.take i ++ new).length = i + new.length := by
    rw [List.length_append, List.length_take_of_le (by omega)]
  refine ⟨_, if_pos h, ?_, ?_⟩
  · rw [List.length_append, hlen, List.length_drop]
    omega
  · rw [← hlen, List.take_left]

theorem Added.regrowStrs (h : Added t pre) {cap : Nat} (hlt : t.strs.length < cap)
    (hint : cap < 2 ^ 30) (fresh : Nat → UInt8) :
    Added { t with strs := regrow t.strs cap fresh } pre := by
  have hlen := length_regrow (Nat.le_of_lt hlt) fresh
  refine ⟨h.symsSz, h.strsSz, h.symsCap, ?_, h.symsInt, ?_, ?_⟩
  · show t.strsSz ≤ (regrow t.strs cap fresh).length
    rw [hlen]
    exact h.strsCap.trans (Nat.le_of_lt hlt)
  · show (regrow t.strs cap fresh).length < 2 ^ 30
    rw [hlen]
    exact hint
  · show List.Forall₂ (Holds ((regrow t.strs cap fresh).take t.strsSz)) _ _
    rw [take_regrow h.strsCap]
    exact h.syms

theorem Added.regrowSyms (h : Added t pre) {cap : Nat} (hlt : t.syms.length < cap)
    (hint : cap < 2 ^ 30) (fresh : Nat → Ksym) :
    Added { t with syms := regrow t.syms cap fresh } pre := by
  have hlen := length_regrow (Nat.le_of_lt hlt) fresh
  refine ⟨h.symsSz, h.strsSz, ?_, h.strsCap, ?_, h.strsInt, ?_⟩
  · show t.symsSz ≤ (regrow t.syms cap fresh).length
    rw [hlen]
    exact h.symsCap.trans (Nat.le_of_lt hlt)
  · show (regrow t.syms cap fresh).length < 2 ^ 30
    rw [hlen]
    exact hint
  · show List.Forall₂ _ _ ((regrow t.syms cap fresh).take t.symsSz)
    rw [take_regrow h.symsCap]
    exact h.syms

theorem growStrs_spec (h : Added t pre) (hshort : line.name.length < nameSize) :
    (t.growStrs line = .error .intOverflow ∧ 2 ^ 29 < needed (pre ++ [line])) ∨
    (t.growStrs line = .ok none ∧ line.strsMem = none) ∨
    ∃ t', t.growStrs line = .ok (some t') ∧ Added t' pre ∧
      t'.strsSz + (line.name.length + 1) ≤ t'.strs.length := by
  have hcap := h.strsCap
  unfold Table.growStrs
  dsimp only
  split
  · rename_i hfull
    rcases newCap_spec t.strs.length (t.strsSz + (line.name.length + 1)) with
      ⟨hover, hlarge⟩ | ⟨cap, hnew, hlt, hneed, hcapInt⟩
    · refine Or.inl ⟨by rw [hover]; rfl, ?_⟩
      rw [needed_append, needed_singleton, ← h.strsSz]
      omega
    rw [hnew]
    cases hmem : line.strsMem with
    | none => exact Or.inr (Or.inl ⟨rfl, rfl⟩)
    | some fresh =>
      -- what is needed beyond the old capacity is one short name
      have hint : cap < 2 ^ 30 := hcapInt (by rw [nameSize] at hshort; omega)
      refine Or.inr (Or.inr ⟨_, rfl, h.regrowStrs hlt hint fresh, ?_⟩)
      exact hneed.trans_eq (length_regrow (Nat.le_of_lt hlt) fresh).symm
  · exact Or.inr (Or.inr ⟨t, rfl, h, by omega⟩)

theorem growSyms_spec (h : Added t pre) (line : Line) :
    (t.growSyms line = .error .intOverflow ∧ 2 ^ 29 < needed (pre ++ [line])) ∨
    (t.growSyms line = .ok none ∧ line.symsMem = none) ∨
    ∃ t', t.growSyms line = .ok (some t') ∧ Added t' pre ∧ t'.symsSz + 1 ≤ t'.syms.length ∧
      t'.strs = t.strs ∧ t'.strsSz = t.strsSz := by
  have hsz := h.symsSz
  have hcap := h.symsCap
  unfold Table.growSyms
  split
  · rename_i hfull
    rcases newCap_spec t.syms.length 0 with ⟨hover, hlarge⟩ | ⟨cap, hnew, hlt, -, hcapInt⟩
    · refine Or.inl ⟨by rw [hover]; rfl, ?_⟩
      -- each of so many symbols has at least one byte among the strings
      have hlines := length_le_needed pre
      rw [needed_append, needed_singleton]
      omega
    rw [hnew]
    cases hmem : line.symsMem with
    | none => exact Or.inr (Or.inl ⟨rfl, rfl⟩)
    | some fresh =>
      have hint : cap < 2 ^ 30 := hcapInt (by omega)
      refine Or.inr (Or.inr ⟨_, rfl, h.regrowSyms hlt hint fresh, ?_, rfl, rfl⟩)
      exact (Nat.succ_le_succ hcap).trans
        (hlt.trans_eq (length_regrow (Nat.le_of_lt hlt) fresh).symm)
  · exact Or.inr (Or.inr ⟨t, rfl, h, by omega, rfl, rfl⟩)

/-- No write is out of bounds, and the new string is found where the symbol says. -/
theorem addSymbol_spec (h : Added t pre) (hshort : line.name.length < nameSize) :
    Stops pre line (t.addSymbol line) ∨
    ∃ t', t.addSymbol line = .ok (some t') ∧ Added t' (pre ++ [line]) := by
  unfold Table.addSymbol
  rcases growStrs_spec h hshort with ⟨hover, hlarge⟩ | ⟨hnone, hmem⟩ | ⟨t₁, h₁, hadd₁, hroom₁⟩
  · rw [hover]
    exact Or.inl (.intOverflow hshort hlarge)
  · rw [hnone]
    exact Or.inl (.noMemory hshort (Or.inl hmem))
  rw [h₁, ok_bind]
  dsimp only
  rcases growSyms_spec hadd₁ line with
    ⟨hover, hlarge⟩ | ⟨hnone, hmem⟩ | ⟨t₂, h₂, hadd₂, hroom₂, hstrs, hsz⟩
  · rw [hover]
    exact Or.inl (.intOverflow hshort hlarge)
  · rw [hnone]
    exact Or.inl (.noMemory hshort (Or.inr hmem))
  -- the second half leaves the room that the first has made
  rw [← hstrs, ← hsz] at hroom₁
  have hfits : t₂.strsSz + (line.name ++ [0]).length ≤ t₂.strs.length := by
    rw [List.length_append, List.length_singleton]
    exact hroom₁
  have hroom₂' : t₂.symsSz + [(⟨t₂.strsSz, line.addr⟩ : Ksym)].length ≤ t₂.syms.length := hroom₂
  obtain ⟨syms, hsyms, hlen, htake⟩ := put_spec hroom₂'
  obtain ⟨strs, hstrs', hlen', htake'⟩ := put_spec hfits
  rw [h₂, ok_bind]
  dsimp only
  rw [hsyms, ok_bind, hstrs', ok_bind]
  rw [List.length_append, List.length_singleton] at htake'
  rw [List.length_singleton] at htake
  refine Or.inr ⟨_, rfl, ?_, ?_, ?_, ?_, hlen ▸ hadd₂.symsInt, hlen' ▸ hadd₂.strsInt, ?_⟩
  · show t₂.symsSz + 1 = _
    rw [hadd₂.symsSz, List.length_append, List.length_singleton]
  · show t₂.strsSz + (line.name.length + 1) = _
    rw [hadd₂.strsSz, needed_append, needed_singleton]
  · show t₂.symsSz + 1 ≤ syms.length
    rw [hlen]
    exact hroom₂
  · show t₂.strsSz + (line.name.length + 1) ≤ strs.length
    rw [hlen']
    exact hroom₁
  · show List.Forall₂ (Holds (strs.take (t₂.strsSz + (line.name.length + 1)))) _
      (syms.take (t₂.symsSz + 1))
    rw [htake, htake']
    refine List.rel_append ?_ (.cons ⟨rfl, ?_⟩ .nil)
    · exact hadd₂.syms.imp fun _ _ hs => hs.grow (List.prefix_append _ _)
    · show line.name ++ [0] <+: (t₂.strs.take t₂.strsSz ++ (line.name ++ [0])).drop t₂.strsSz
      rw [List.drop_left' (List.length_take_of_le hadd₂.strsCap)]

theorem readLine_spec (h : Added t pre) (line : Line) :
    Stops pre line (t.readLine line) ∨
    ∃ t', t.readLine line = .ok (some t') ∧ line.name.length < nameSize ∧
      Added t' (pre ++ [line]) := by
  unfold Table.readLine
  split
  · rename_i hshort
    rcases addSymbol_spec h hshort with hstops | ⟨t', ht', hadd⟩
    · exact Or.inl hstops
    · exact Or.inr ⟨t', ht', hshort, hadd⟩
  · exact Or.inl (.nameOverflow (by omega))

/-- All names before the line fit in the buffer, and reading stops at the line. -/
def StopsIn (pre lines : List Line) (r : Except Fault (Option Table)) : Prop :=
  ∃ done line rest, lines = done ++ line :: rest ∧
    (∀ l ∈ done, l.name.length < nameSize) ∧ Stops (pre ++ done) line r

theorem readAll_spec (h : Added t pre) (lines : List Line) :
    StopsIn pre lines (readAll t lines) ∨
    ∃ t', readAll t lines = .ok (some t') ∧ (∀ l ∈ lines, l.name.length < nameSize) ∧
      Added t' (pre ++ lines) := by
  induction lines generalizing t pre with
  | nil =>
    refine Or.inr ⟨t, rfl, nofun, ?_⟩
    rw [List.append_nil]
    exact h
  | cons line lines ih =>
    unfold readAll
    rcases readLine_spec h line with hstops | ⟨t₁, h₁, hshort, hadd⟩
    · refine Or.inl ⟨[], line, lines, rfl, nofun, ?_⟩
      rw [List.append_nil]
      cases hr : t.readLine line with
      | error e =>
        rw [hr] at hstops
        exact hstops
      | ok r =>
        rw [hr] at hstops
        cases hstops with
        | noMemory hshort hmem => exact .noMemory hshort hmem
    · rw [h₁, ok_bind]
      dsimp only
      have hcons : ∀ done : List Line, (∀ l ∈ done, l.name.length < nameSize) →
          ∀ l ∈ line :: done, l.name.length < nameSize := by
        intro done hdone l hl
        rcases List.mem_cons.mp hl with rfl | hl
        · exact hshort
        · exact hdone l hl
      rcases ih hadd with ⟨done, last, rest, rfl, hdone, hstops⟩ | ⟨t', ht', hall, hadd'⟩
      · refine Or.inl ⟨line :: done, last, rest, rfl, hcons done hdone, ?_⟩
        rw [List.append_cons]
        exact hstops
      · refine Or.inr ⟨t', ht', hcons lines hall, ?_⟩
        rw [List.append_cons]
        exact hadd'

/-! ## Sorting -/

theorem strcmp_self (a : List UInt8) : strcmp a a = 0 := by
  induction a with
  | nil => rfl
  | cons x a ih =>
    rw [strcmp, if_pos rfl]
    exact ih

theorem strcmp_total (a b : List UInt8) : strcmp a b ≤ 0 ∨ strcmp b a ≤ 0 := by
  fun_induction strcmp a b with
  | case1 => exact Or.inl (Int.le_refl 0)
  | case2 y b => exact Or.inl (by omega)
  | case3 x a => exact Or.inr (by rw [strcmp]; omega)
  | case4 a x b ih =>
    rw [strcmp, if_pos rfl]
    exact ih
  | case5 x a y b hne =>
    rw [strcmp, if_neg (Ne.symm hne)]
    omega

theorem strcmp_nil_pos {x : UInt8} {a : List UInt8} (h : 0 ∉ x :: a) :
    0 < strcmp (x :: a) [] := by
  have hx : x.toNat ≠ 0 := by
    intro hzero
    have hx0 : x = 0 := UInt8.toNat_inj.mp hzero
    exact h (hx0 ▸ List.mem_cons_self)
  rw [strcmp]
  omega

/-- Strings without a NUL are in order. -/
theorem strcmp_trans {a b c : List UInt8} (ha : 0 ∉ a) (hb : 0 ∉ b) (hab : strcmp a b ≤ 0)
    (hbc : strcmp b c ≤ 0) : strcmp a c ≤ 0 := by
  induction a generalizing b c with
  | nil =>
    cases c with
    | nil => exact Int.le_refl 0
    | cons z c =>
      rw [strcmp]
      omega
  | cons x a ih =>
    cases b with
    | nil => exact absurd hab (Int.not_le.mpr (strcmp_nil_pos ha))
    | cons y b =>
      cases c with
      | nil => exact absurd hbc (Int.not_le.mpr (strcmp_nil_pos hb))
      | cons z c =>
        rw [strcmp] at hab hbc ⊢
        have hinj : ∀ {p q : UInt8}, p.toNat = q.toNat → p = q := UInt8.toNat_inj.mp
        by_cases hxy : x = y
        · subst hxy
          rw [if_pos rfl] at hab
          by_cases hxz : x = z
          · rw [if_pos hxz] at hbc ⊢
            exact ih (fun h => ha (List.mem_cons_of_mem x h))
              (fun h => hb (List.mem_cons_of_mem x h)) hab hbc
          · rw [if_neg hxz] at hbc ⊢
            exact hbc
        · rw [if_neg hxy] at hab
          have hlt : x.toNat ≠ y.toNat := fun h => hxy (hinj h)
          split at hbc
          · rename_i hyz
            subst hyz
            rw [if_neg hxy]
            exact hab
          · have hxz : x ≠ z := by
              rintro rfl
              omega
            rw [if_neg hxz]
            omega

theorem nul_notMem_strAt (strs : List UInt8) (off : Nat) : 0 ∉ strAt strs off := by
  intro h
  have hne := List.mem_takeWhile_imp h
  simp at hne

theorem ksymCmp_total (strs : List UInt8) (a b : Ksym) :
    ksymCmp strs a b ≤ 0 ∨ ksymCmp strs b a ≤ 0 := by
  unfold ksymCmp
  by_cases heq : a.addr = b.addr
  · rw [if_pos heq, if_pos heq.symm]
    exact strcmp_total _ _
  · rw [if_neg heq, if_neg (Ne.symm heq)]
    rcases UInt64.lt_or_lt_of_ne heq with hlt | hgt
    · exact Or.inl (by rw [if_pos hlt]; decide)
    · exact Or.inr (by rw [if_pos hgt]; decide)

theorem addr_le_of_ksymCmp {strs : List UInt8} {a b : Ksym} (h : ksymCmp strs a b ≤ 0) :
    a.addr ≤ b.addr ∧
      (a.addr = b.addr → strcmp (strAt strs a.name) (strAt strs b.name) ≤ 0) := by
  unfold ksymCmp at h
  by_cases heq : a.addr = b.addr
  · rw [if_pos heq] at h
    exact ⟨UInt64.le_of_eq heq, fun _ => h⟩
  · rw [if_neg heq] at h
    split at h
    · rename_i hlt
      exact ⟨UInt64.le_of_lt hlt, fun h' => absurd h' heq⟩
    · exact absurd h (by decide)

theorem ksymCmp_le_iff {strs : List UInt8} {a b : Ksym} :
    ksymCmp strs a b ≤ 0 ↔ a.addr ≤ b.addr ∧
      (a.addr = b.addr → strcmp (strAt strs a.name) (strAt strs b.name) ≤ 0) := by
  refine ⟨addr_le_of_ksymCmp, fun ⟨hle, hname⟩ => ?_⟩
  unfold ksymCmp
  split
  · exact hname ‹_›
  · rename_i hne
    rw [if_pos (UInt64.lt_of_le_of_ne hle hne)]
    decide

theorem ksymCmp_trans {strs : List UInt8} {a b c : Ksym} (hab : ksymCmp strs a b ≤ 0)
    (hbc : ksymCmp strs b c ≤ 0) : ksymCmp strs a c ≤ 0 := by
  rw [ksymCmp_le_iff] at hab hbc ⊢
  refine ⟨UInt64.le_trans hab.1 hbc.1, fun heq => ?_⟩
  have hb : a.addr = b.addr := UInt64.le_antisymm hab.1 (heq ▸ hbc.1)
  exact strcmp_trans (nul_notMem_strAt _ _) (nul_notMem_strAt _ _) (hab.2 hb)
    (hbc.2 (hb.symm.trans heq))

theorem sorted_ksyms (strs : List UInt8) (syms : List Ksym) :
    (syms.mergeSort fun a b => ksymCmp strs a b ≤ 0).Pairwise fun a b => ksymCmp strs a b ≤ 0 := by
  have htrans : ∀ a b c : Ksym, decide (ksymCmp strs a b ≤ 0) = true →
      decide (ksymCmp strs b c ≤ 0) = true → decide (ksymCmp strs a c ≤ 0) = true := by
    intro a b c
    rw [decide_eq_true_iff, decide_eq_true_iff, decide_eq_true_iff]
    exact ksymCmp_trans
  have htotal : ∀ a b : Ksym,
      (decide (ksymCmp strs a b ≤ 0) || decide (ksymCmp strs b a ≤ 0)) = true := by
    intro a b
    rw [Bool.or_eq_true, decide_eq_true_iff, decide_eq_true_iff]
    exact ksymCmp_total strs a b
  exact (List.pairwise_mergeSort htrans htotal syms).imp of_decide_eq_true

/-- What `ksyms__load` gives. -/
structure Loaded (t : Table) (lines : List Line) : Prop where
  size : t.symsSz = t.syms.length
  sizeInt : t.syms.length < 2 ^ 30
  sorted : t.syms.Pairwise fun a b => ksymCmp t.strs a b ≤ 0
  lines : ∃ syms, syms.Perm t.syms ∧
    List.Forall₂ (fun line s => s.addr = line.addr ∧ strAt t.strs s.name = line.name) lines syms

theorem Added.loaded (h : Added t lines) :
    Loaded { t with syms := (t.syms.take t.symsSz).mergeSort (fun a b => ksymCmp t.strs a b ≤ 0) }
      lines := by
  have hlen : (t.syms.take t.symsSz).length = t.symsSz := List.length_take_of_le h.symsCap
  refine ⟨?_, ?_, sorted_ksyms t.strs _, t.syms.take t.symsSz, (List.mergeSort_perm _ _).symm, ?_⟩
  · show t.symsSz = (List.mergeSort (t.syms.take t.symsSz) _).length
    rw [List.length_mergeSort, hlen]
  · show (List.mergeSort (t.syms.take t.symsSz) _).length < 2 ^ 30
    rw [List.length_mergeSort, hlen]
    exact h.symsCap.trans_lt h.symsInt
  · exact h.syms.imp fun _ _ hs => ⟨hs.1, hs.strAt_eq⟩

/-- How `ksyms__load` ends: without the file or the table, at a line that stops it or is no symbol,
or with a table of this kind. -/
inductive Ends (made : Table → Prop) (opens room : Bool) (lines : List Line) (atEnd : Bool) :
    Except Fault (Option Table) → Prop where
  | noFile (h : opens = false) : Ends made opens room lines atEnd (.ok none)
  | noTable (h : room = false) : Ends made opens room lines atEnd (.ok none)
  | stopped {r : Except Fault (Option Table)} (h : StopsIn [] lines r) :
      Ends made opens room lines atEnd r
  | noSymbol (h : atEnd = false) : Ends made opens room lines atEnd (.ok none)
  | loaded {t : Table} (hfile : opens = true) (hroom : room = true) (hend : atEnd = true)
      (hshort : ∀ l ∈ lines, l.name.length < nameSize) (h : made t) :
      Ends made opens room lines atEnd (.ok (some t))

theorem Ends.imp {made made' : Table → Prop} {opens room atEnd : Bool}
    {r : Except Fault (Option Table)} (h : Ends made opens room lines atEnd r)
    (himp : ∀ t, made t → made' t) : Ends made' opens room lines atEnd r := by
  cases h with
  | noFile h => exact .noFile h
  | noTable h => exact .noTable h
  | stopped h => exact .stopped h
  | noSymbol h => exact .noSymbol h
  | loaded hfile hroom hend hshort h => exact .loaded hfile hroom hend hshort (himp _ h)

theorem load_ends (opens room : Bool) (lines : List Line) (atEnd : Bool) :
    Ends (Loaded · lines) opens room lines atEnd (load opens room lines atEnd) := by
  unfold load
  cases opens with
  | false => exact .noFile rfl
  | true =>
    cases room with
    | false => exact .noTable rfl
    | true =>
      rw [if_pos (show (true && true) = true from rfl)]
      rcases readAll_spec added_empty lines with hstops | ⟨t, ht, hshort, hadd⟩
      · cases hr : readAll Table.empty lines with
        | error e =>
          rw [hr] at hstops
          exact .stopped hstops
        | ok r =>
          rw [hr] at hstops
          cases r with
          | none => exact .stopped hstops
          | some t =>
            obtain ⟨_, _, _, _, _, hstops⟩ := hstops
            cases hstops
      · rw [ht]
        cases atEnd with
        | false => exact .noSymbol rfl
        | true => exact .loaded rfl rfl rfl hshort hadd.loaded

/-- With memory for them, not too many names that fit in the buffer are loaded. -/
theorem load_fits (hshort : ∀ l ∈ lines, l.name.length < nameSize) (hfits : needed lines ≤ 2 ^ 29)
    (hmem : ∀ l ∈ lines, l.strsMem ≠ none ∧ l.symsMem ≠ none) :
    ∃ t, load true true lines true = .ok (some t) := by
  have hends := load_ends true true lines true
  generalize load true true lines true = r at hends
  cases hends with
  | noFile h => cases h
  | noTable h => cases h
  | noSymbol h => cases h
  | loaded _ _ _ _ h => exact ⟨_, rfl⟩
  | stopped h =>
    obtain ⟨done, line, rest, rfl, -, hstops⟩ := h
    have hline : line ∈ done ++ line :: rest := List.mem_append_right _ List.mem_cons_self
    exfalso
    cases hstops with
    | nameOverflow hlong => exact absurd (hshort line hline) (Nat.not_lt.mpr hlong)
    | intOverflow _ hlarge =>
      rw [List.append_cons, needed_append] at hfits
      rw [List.nil_append] at hlarge
      omega
    | noMemory _ hnone =>
      rcases hnone with hnone | hnone
      · exact (hmem line hline).1 hnone
      · exact (hmem line hline).2 hnone

theorem loaded_of_load {opens room atEnd : Bool} (h : load opens room lines atEnd = .ok (some t)) :
    Loaded t lines := by
  have hends := load_ends opens room lines atEnd
  rw [h] at hends
  cases hends with
  | stopped hstops =>
    obtain ⟨_, _, _, _, _, hstops⟩ := hstops
    cases hstops
  | loaded _ _ _ _ hloaded => exact hloaded

end Load

/-! ## Searching -/

section Search

variable {syms : List Ksym} {addr : UInt64} {t : Table} {lines : List Line}

/-- All symbols behind `stop` are above the address, and the one at `start` is not. -/
structure Between (syms : List Ksym) (addr : UInt64) (start stop : Int) : Prop where
  nonneg : 0 ≤ start
  le : start ≤ stop
  bound : stop < syms.length
  above : ∀ (i : Nat) (s : Ksym), stop < i → syms[i]? = some s → addr < s.addr
  below : start = 0 ∨ ∃ s, syms[start.toNat]? = some s ∧ s.addr ≤ addr

theorem symAt_eq {i : Int} (hlo : 0 ≤ i) (hhi : i < syms.length) :
    ∃ s, syms[i.toNat]? = some s ∧ symAt syms i = .ok s := by
  have hlt : i.toNat < syms.length := by omega
  refine ⟨syms[i.toNat], List.getElem?_eq_getElem hlt, ?_⟩
  rw [symAt, if_pos hlo, List.getElem?_eq_getElem hlt]

theorem addr_le_of_index (hsorted : syms.Pairwise fun a b => a.addr ≤ b.addr) {i j : Nat}
    (hij : i ≤ j) {a b : Ksym} (ha : syms[i]? = some a) (hb : syms[j]? = some b) :
    a.addr ≤ b.addr := by
  obtain ⟨hi, rfl⟩ := List.getElem?_eq_some_iff.mp ha
  obtain ⟨hj, rfl⟩ := List.getElem?_eq_some_iff.mp hb
  rcases Nat.eq_or_lt_of_le hij with rfl | hlt
  · exact UInt64.le_rfl
  · exact List.pairwise_iff_getElem.mp hsorted i j hi hj hlt

theorem searchAddr_spec (hsorted : syms.Pairwise fun a b => a.addr ≤ b.addr) {start stop : Int}
    (h : Between syms addr start stop) :
    ∃ r, searchAddr syms addr start stop = .ok (r, r) ∧ Between syms addr r r := by
  induction hn : (stop - start).toNat using Nat.strong_induction_on generalizing start stop with
  | h n ih =>
    have hlo := h.nonneg
    have hle := h.le
    have hhi := h.bound
    unfold searchAddr
    by_cases hlt : start < stop
    · obtain ⟨s, hs, hat⟩ : ∃ s, syms[(start + (stop - start + 1) / 2).toNat]? = some s ∧
          symAt syms (start + (stop - start + 1) / 2) = .ok s :=
        symAt_eq (by omega) (by omega)
      rw [dif_pos hlt]
      dsimp only
      rw [hat]
      by_cases hsle : s.addr ≤ addr
      · have hnext : Between syms addr (start + (stop - start + 1) / 2) stop :=
          ⟨by omega, by omega, hhi, h.above, Or.inr ⟨s, hs, hsle⟩⟩
        obtain ⟨r, hr, hbetween⟩ := ih _ (by omega) hnext rfl
        exact ⟨r, by rw [← hr]; exact if_pos hsle, hbetween⟩
      · have hnext : Between syms addr start (start + (stop - start + 1) / 2 - 1) := by
          refine ⟨hlo, by omega, by omega, fun i s' hi hs' => ?_, h.below⟩
          have hls' := addr_le_of_index hsorted (by omega) hs hs'
          exact UInt64.lt_of_lt_of_le (UInt64.not_le.mp hsle) hls'
        obtain ⟨r, hr, hbetween⟩ := ih _ (by omega) hnext rfl
        exact ⟨r, by rw [← hr]; exact if_neg hsle, hbetween⟩
    · have heq : start = stop := by omega
      subst heq
      rw [dif_neg hlt]
      exact ⟨start, rfl, h⟩

/-- A symbol at or below the address that no other such symbol comes after, if there is one. -/
def Finds (t : Table) (addr : UInt64) : Option Ksym → Prop
  | some s => s ∈ t.syms ∧ s.addr ≤ addr ∧
    ∀ s' ∈ t.syms, s'.addr ≤ addr → ksymCmp t.strs s' s ≤ 0
  | none => ∀ s ∈ t.syms, addr < s.addr

theorem Loaded.by_addr (h : Loaded t lines) : t.syms.Pairwise fun a b => a.addr ≤ b.addr :=
  h.sorted.imp fun hcmp => (addr_le_of_ksymCmp hcmp).1

theorem Loaded.last (h : Loaded t lines) {i j : Nat} (hij : i ≤ j) {a b : Ksym}
    (ha : t.syms[i]? = some a) (hb : t.syms[j]? = some b) : ksymCmp t.strs a b ≤ 0 := by
  obtain ⟨hi, rfl⟩ := List.getElem?_eq_some_iff.mp ha
  obtain ⟨hj, rfl⟩ := List.getElem?_eq_some_iff.mp hb
  rcases Nat.eq_or_lt_of_le hij with rfl | hlt
  · rw [ksymCmp, if_pos rfl, strcmp_self]
  · exact List.pairwise_iff_getElem.mp h.sorted i j hi hj hlt

theorem mapAddr_spec (h : Loaded t lines) (addr : UInt64) :
    ∃ r, t.mapAddr addr = .ok r ∧ Finds t addr r := by
  unfold Table.mapAddr
  rw [h.size]
  by_cases hempty : t.syms.length = 0
  · rw [hempty, searchAddr, dif_neg (by decide)]
    refine ⟨none, rfl, fun s hs => ?_⟩
    rw [List.length_eq_zero_iff.mp hempty] at hs
    exact absurd hs List.not_mem_nil
  have hstart : Between t.syms addr 0 (t.syms.length - 1) := by
    refine ⟨Int.le_refl 0, by omega, by omega, fun i s hi hs => ?_, Or.inl rfl⟩
    obtain ⟨hlt, -⟩ := List.getElem?_eq_some_iff.mp hs
    omega
  obtain ⟨r, hr, hbetween⟩ := searchAddr_spec h.by_addr hstart
  obtain ⟨s, hs, hat⟩ := symAt_eq hbetween.nonneg hbetween.bound
  have hindex : ((r.toNat : Nat) : Int) = r := Int.toNat_of_nonneg hbetween.nonneg
  rw [hr]
  by_cases hle : s.addr ≤ addr
  · refine ⟨some s, ?_, List.mem_of_getElem? hs, hle, fun s' hs' hle' => ?_⟩
    · show (if r = r then symAt t.syms r >>= _ else _) = _
      rw [if_pos rfl, hat]
      exact if_pos hle
    · obtain ⟨i, hi⟩ := List.mem_iff_getElem?.mp hs'
      by_cases hir : i ≤ r.toNat
      · exact h.last hir hi hs
      · have habove := hbetween.above i s' (by omega) hi
        exact absurd hle' (UInt64.not_le.mpr habove)
  · refine ⟨none, ?_, fun s' hs' => ?_⟩
    · show (if r = r then symAt t.syms r >>= _ else _) = _
      rw [if_pos rfl, hat]
      exact if_neg hle
    · have hzero : r = 0 := by
        rcases hbetween.below with hzero | ⟨s₁, hs₁, hle₁⟩
        · exact hzero
        · rw [hs] at hs₁
          cases hs₁
          exact absurd hle₁ hle
      subst hzero
      obtain ⟨i, hi⟩ := List.mem_iff_getElem?.mp hs'
      exact UInt64.lt_of_lt_of_le (UInt64.not_le.mp hle)
        (addr_le_of_index h.by_addr (Nat.zero_le i) hs hi)

theorem exists_left {α β : Type} {rel : α → β → Prop} {l : List α} {l' : List β}
    (h : List.Forall₂ rel l l') {b : β} (hb : b ∈ l') : ∃ a ∈ l, rel a b := by
  induction h with
  | nil => exact absurd hb List.not_mem_nil
  | cons hab h ih =>
    rcases List.mem_cons.mp hb with rfl | hb
    · exact ⟨_, List.mem_cons_self, hab⟩
    · obtain ⟨a, ha, hrel⟩ := ih hb
      exact ⟨a, List.mem_cons_of_mem _ ha, hrel⟩

theorem Loaded.line_of_sym (h : Loaded t lines) {s : Ksym} (hs : s ∈ t.syms) :
    ∃ line ∈ lines, s.addr = line.addr ∧ strAt t.strs s.name = line.name := by
  obtain ⟨syms, hperm, hlines⟩ := h.lines
  exact exists_left hlines (hperm.mem_iff.mpr hs)

theorem Loaded.sym_of_line (h : Loaded t lines) {line : Line} (hline : line ∈ lines) :
    ∃ s ∈ t.syms, s.addr = line.addr ∧ strAt t.strs s.name = line.name := by
  obtain ⟨syms, hperm, hlines⟩ := h.lines
  obtain ⟨s, hs, hrel⟩ := exists_left (List.Forall₂.flip hlines) hline
  exact ⟨s, hperm.mem_iff.mp hs, hrel⟩

/-- The right line for an address: the distance is that to the nearest symbol at or below it, and
the name is the last one of those at that symbol's address. -/
inductive Resolves (lines : List Line) (address : UInt64) : StackLine → Prop where
  | known {line : Line} (hmem : line ∈ lines) (hle : line.addr ≤ address)
      (hnearest : ∀ other ∈ lines, other.addr ≤ address → other.addr ≤ line.addr ∧
        (other.addr = line.addr → strcmp other.name line.name ≤ 0)) :
      Resolves lines address (.known address line.name (address - line.addr))
  | unknown (h : ∀ line ∈ lines, address < line.addr) : Resolves lines address (.unknown address)

/-- Every address of a stack is printed with the right symbol. -/
theorem Loaded.printStack (h : Loaded t lines) (address : UInt64) :
    ∃ out, t.printStack address = .ok out ∧ Resolves lines address out := by
  obtain ⟨found, hmap, hfinds⟩ := mapAddr_spec h address
  unfold Table.printStack
  rw [hmap]
  cases found with
  | none =>
    refine ⟨_, rfl, .unknown fun line hline => ?_⟩
    obtain ⟨s, hs, haddr, -⟩ := h.sym_of_line hline
    rw [← haddr]
    exact hfinds s hs
  | some s =>
    obtain ⟨hs, hle, hlast⟩ := hfinds
    obtain ⟨line, hline, haddr, hname⟩ := h.line_of_sym hs
    refine ⟨_, rfl, ?_⟩
    rw [haddr, hname]
    refine .known hline (haddr ▸ hle) fun other hother hother' => ?_
    obtain ⟨s', hs', haddr', hname'⟩ := h.sym_of_line hother
    have hcmp := addr_le_of_ksymCmp (hlast s' hs' (haddr' ▸ hother'))
    rw [haddr, haddr', hname, hname'] at hcmp
    exact hcmp

end Search

end CpuSubsystem.Ksyms
