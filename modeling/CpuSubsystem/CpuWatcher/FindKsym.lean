import Mathlib.Data.List.DropRight
import Mathlib.Data.Nat.ModEq
import Mathlib.Data.UInt
import Mathlib.Tactic.Common

/-!
# The address of a kernel symbol (`find_ksym` in `cpu_watcher.c`)

`find_ksym` scans `/proc/kallsyms` with one `fscanf` for each symbol.  The kernel writes the name of
a module behind the symbols that come from one, which the format does not cover.
-/

namespace CpuSubsystem.FindKsym

abbrev tab : UInt8 := 9

abbrev newline : UInt8 := 10

abbrev space : UInt8 := 32

/-- Brackets around the name of a module. -/
abbrev leftBracket : UInt8 := 91

abbrev rightBracket : UInt8 := 93

/-- The size of `symbol_name`. -/
abbrev nameSize : Nat := 99

/-- `isspace`. -/
def isSpace (c : UInt8) : Bool := c = space || (9 ≤ c && c ≤ 13)

/-- The value of a hexadecimal digit. -/
def hexVal (c : UInt8) : Option Nat :=
  if 48 ≤ c ∧ c ≤ 57 then some (c.toNat - 48)
  else if 97 ≤ c ∧ c ≤ 102 then some (c.toNat - 87)
  else if 65 ≤ c ∧ c ≤ 70 then some (c.toNat - 55)
  else none

def isHex (c : UInt8) : Bool := (hexVal c).isSome

def hexValue (digits : List UInt8) : Nat :=
  digits.foldl (fun n c => n * 16 + (hexVal c).getD 0) 0

/-- A conversion out of range gives the greatest value. -/
def toAddress (n : Nat) : UInt64 := if n < 2 ^ 64 then UInt64.ofNat n else UInt64.ofNat (2 ^ 64 - 1)

def skipSpace (s : List UInt8) : List UInt8 := s.dropWhile isSpace

/-- What `fscanf` with `"%llx %*c %s\n"` reads: the end of the file before anything, or the values of
the conversions up to the first one that fails, and what is left to be read. -/
inductive Scan where
  | eof
  | fields (address : Option UInt64) (name : Option (List UInt8)) (rest : List UInt8)
deriving DecidableEq, Repr

/-- A sign or `0x` in front of the digits is not modelled. -/
def fscanf (file : List UInt8) : Scan :=
  let s := skipSpace file
  if s = [] then .eof
  else if s.takeWhile isHex = [] then .fields none none s
  else
    let address := some (toAddress (hexValue (s.takeWhile isHex)))
    match skipSpace (s.dropWhile isHex) with
    | [] => .fields address none []
    | _ :: s =>
      let s := skipSpace s
      let name := s.takeWhile fun c => !isSpace c
      if name = [] then .fields address none []
      else .fields address (some name) (skipSpace (s.dropWhile fun c => !isSpace c))

inductive Outcome where
  | returned (address : UInt64)
  | overflow
deriving DecidableEq, Repr

/-- The loop, with the contents of `symbol_address` and `symbol_name`; `none` when it still runs. -/
def scanLoop (target : List UInt8) : Nat → UInt64 → List UInt8 → List UInt8 → Option Outcome
  | 0, _, _, _ => none
  | fuel + 1, address, name, file =>
    match fscanf file with
    | .eof => some (.returned address)
    | .fields address? name? rest =>
      -- a conversion that fails leaves its variable as it is
      let address := address?.getD address
      let name := name?.getD name
      if nameSize ≤ name.length then some .overflow
      else if name = target then some (.returned address)
      else scanLoop target fuel address name rest

/-- `buffer` is what `symbol_name` contains before anything is stored in it. -/
def findKsym (file : Option (List UInt8)) (target buffer : List UInt8) (fuel : Nat) :
    Option Outcome :=
  match file with
  | none => some (.returned 1)
  | some file => scanLoop target fuel 0 buffer file

/-! ## The file -/

/-- A symbol of the kernel or of a module. -/
structure Symbol where
  addr : UInt64
  type : UInt8
  name : List UInt8
  module : Option (List UInt8)
  type_visible : isSpace type = false
  name_visible : ∀ c ∈ name, isSpace c = false
  name_ne : name ≠ []
deriving DecidableEq

def digit (d : Nat) : UInt8 := if d < 10 then UInt8.ofNat (48 + d) else UInt8.ofNat (87 + d)

def paddedHex : Nat → Nat → List UInt8
  | 0, _ => []
  | k + 1, n => paddedHex k (n / 16) ++ [digit (n % 16)]

/-- What stands behind the name. -/
def Symbol.suffix (s : Symbol) : List UInt8 :=
  match s.module with
  | none => []
  | some m => tab :: leftBracket :: m ++ [rightBracket]

/-- The line that the kernel writes. -/
def Symbol.line (s : Symbol) : List UInt8 :=
  paddedHex 16 s.addr.toNat ++ space :: s.type :: space :: (s.name ++ (s.suffix ++ [newline]))

/-- `/proc/kallsyms`. -/
def kallsyms (symbols : List Symbol) : List UInt8 := symbols.flatMap Symbol.line

section Digits

theorem hexVal_digit {d : Nat} (h : d < 16) : hexVal (digit d) = some d := by
  revert h
  revert d
  decide

theorem isHex_of_mem {k n : Nat} {c : UInt8} (h : c ∈ paddedHex k n) : isHex c = true := by
  induction k generalizing n with
  | zero => cases h
  | succ k ih =>
    rcases List.mem_append.mp h with h | h
    · exact ih h
    · rw [List.mem_singleton.mp h, isHex, hexVal_digit (Nat.mod_lt n (by decide))]
      rfl

theorem hexValue_paddedHex (k n : Nat) : hexValue (paddedHex k n) = n % 16 ^ k := by
  induction k generalizing n with
  | zero => rw [pow_zero, Nat.mod_one]; rfl
  | succ k ih =>
    have hstep : hexValue (paddedHex k (n / 16) ++ [digit (n % 16)]) =
        hexValue (paddedHex k (n / 16)) * 16 + (hexVal (digit (n % 16))).getD 0 := by
      rw [hexValue, List.foldl_append]
      rfl
    rw [paddedHex, hstep, ih, hexVal_digit (Nat.mod_lt n (by decide)), Option.getD_some, pow_succ,
      Nat.mul_comm (16 ^ k) 16, Nat.mod_mul]
    omega

theorem toAddress_paddedHex (a : UInt64) :
    toAddress (hexValue (paddedHex 16 a.toNat)) = a := by
  have hlt : a.toNat < 2 ^ 64 := a.toNat_lt
  rw [hexValue_paddedHex, Nat.mod_eq_of_lt (by omega), toAddress, if_pos hlt, UInt64.ofNat_toNat]

theorem isSpace_of_isHex {c : UInt8} (h : isHex c = true) : isSpace c = false := by
  unfold isHex hexVal at h
  have hrange : 48 ≤ c.toNat := by
    split_ifs at h with h1 h2 h3
    · exact UInt8.le_iff_toNat_le.mp h1.1
    · have hlow := UInt8.le_iff_toNat_le.mp h2.1
      exact le_trans (by decide) hlow
    · have hlow := UInt8.le_iff_toNat_le.mp h3.1
      exact le_trans (by decide) hlow
    · cases h
  have hspace : c ≠ space := by
    rintro rfl
    exact absurd hrange (by decide)
  have hrow : ¬ c ≤ 13 := fun hle => by
    have hhigh := UInt8.le_iff_toNat_le.mp hle
    exact absurd (le_trans hrange hhigh) (by decide)
  simp [isSpace, hspace, hrow]

end Digits

section Scanning

variable {target name buffer rest word : List UInt8} {c : UInt8} {s : Symbol}
  {symbols before after : List Symbol} {fuel : Nat} {address : UInt64}

theorem skipSpace_visible (h : isSpace c = false) : skipSpace (c :: rest) = c :: rest := by
  rw [skipSpace, List.dropWhile_cons_of_neg (by rw [h]; exact Bool.false_ne_true)]

theorem skipSpace_space (h : isSpace c = true) : skipSpace (c :: rest) = skipSpace rest :=
  List.dropWhile_cons_of_pos h

theorem skipSpace_skipSpace (file : List UInt8) : skipSpace (skipSpace file) = skipSpace file :=
  List.dropWhile_idempotent _ _

/-- A word that ends at a character of another kind. -/
theorem takeWhile_word {p : UInt8 → Bool} (h : ∀ c ∈ word, p c = true) (hc : p c = false)
    (rest : List UInt8) :
    (word ++ c :: rest).takeWhile p = word ∧ (word ++ c :: rest).dropWhile p = c :: rest := by
  constructor
  · rw [List.takeWhile_append_of_pos h, List.takeWhile_cons_of_neg, List.append_nil]
    rw [hc]
    exact Bool.false_ne_true
  · rw [List.dropWhile_append_of_pos h, List.dropWhile_cons_of_neg]
    rw [hc]
    exact Bool.false_ne_true

theorem fscanf_skipSpace (file : List UInt8) : fscanf (skipSpace file) = fscanf file := by
  unfold fscanf
  rw [skipSpace_skipSpace]

/-- The address starts a line, and nothing is skipped in front of it. -/
theorem skipSpace_line (s : Symbol) (rest : List UInt8) :
    skipSpace (s.line ++ rest) = s.line ++ rest := by
  cases hd : paddedHex 16 s.addr.toNat with
  | nil =>
    have hlen : (paddedHex 16 s.addr.toNat).length = 0 := congrArg List.length hd
    simp [paddedHex] at hlen
  | cons c digits =>
    have hc : isHex c = true := isHex_of_mem (hd ▸ List.mem_cons_self)
    rw [Symbol.line, hd]
    exact skipSpace_visible (isSpace_of_isHex hc)

/-- The name ends at a space. -/
theorem suffix_head (s : Symbol) (rest : List UInt8) :
    ∃ c r, s.suffix ++ newline :: rest = c :: r ∧ isSpace c = true := by
  unfold Symbol.suffix
  cases s.module with
  | none => exact ⟨newline, rest, rfl, by decide⟩
  | some m => exact ⟨tab, _, rfl, by decide⟩

/-- One call of `fscanf` reads a line up to the name. -/
theorem fscanf_line (s : Symbol) (rest : List UInt8) :
    fscanf (s.line ++ rest) =
      .fields (some s.addr) (some s.name) (skipSpace (s.suffix ++ newline :: rest)) := by
  have hline : s.line ++ rest = paddedHex 16 s.addr.toNat ++
      space :: s.type :: space :: (s.name ++ (s.suffix ++ newline :: rest)) := by
    simp [Symbol.line]
  have hne : s.line ++ rest ≠ [] := by
    rw [hline]
    simp
  have hdigits : paddedHex 16 s.addr.toNat ≠ [] := by simp [paddedHex]
  obtain ⟨htake, hdrop⟩ := takeWhile_word (p := isHex) (c := space)
    (fun c hc => isHex_of_mem (k := 16) (n := s.addr.toNat) hc) (by decide)
    (s.type :: space :: (s.name ++ (s.suffix ++ newline :: rest)))
  obtain ⟨c, r, htail, hc⟩ := suffix_head s rest
  obtain ⟨htake', hdrop'⟩ := takeWhile_word (p := fun c => !isSpace c)
    (fun c hc => by rw [s.name_visible c hc]; rfl) (show (!isSpace c) = false by rw [hc]; rfl) r
  have hname : skipSpace (s.name ++ c :: r) = s.name ++ c :: r := by
    cases hn : s.name with
    | nil => exact absurd hn s.name_ne
    | cons d name =>
      exact skipSpace_visible (s.name_visible d (hn ▸ List.mem_cons_self))
  have htype : skipSpace (space :: s.type :: space :: (s.name ++ c :: r)) =
      s.type :: space :: (s.name ++ c :: r) :=
    (skipSpace_space (by decide)).trans (skipSpace_visible s.type_visible)
  unfold fscanf
  rw [skipSpace_line, if_neg hne, hline, htake, if_neg hdigits, hdrop, htail, htype,
    toAddress_paddedHex]
  simp only [skipSpace_space (show isSpace space = true by decide), hname, htake', hdrop',
    if_neg s.name_ne]

/-- At a bracket nothing is read, and nothing is consumed. -/
theorem fscanf_bracket (rest : List UInt8) :
    fscanf (leftBracket :: rest) = .fields none none (leftBracket :: rest) := by
  have hskip : skipSpace (leftBracket :: rest) = leftBracket :: rest :=
    skipSpace_visible (by decide)
  have htake : (leftBracket :: rest).takeWhile isHex = [] :=
    List.takeWhile_cons_of_neg (by decide)
  unfold fscanf
  rw [hskip, if_neg (List.cons_ne_nil _ _), if_pos htake]

/-! ## The loop -/

theorem scanLoop_skipSpace (fuel : Nat) (address : UInt64) (name file : List UInt8) :
    scanLoop target fuel address name (skipSpace file) = scanLoop target fuel address name file := by
  cases fuel with
  | zero => rfl
  | succ fuel => rw [scanLoop, scanLoop, fscanf_skipSpace]

/-- The loop stays at a bracket. -/
theorem scanLoop_bracket (hname : name ≠ target) (hshort : name.length < nameSize) (fuel : Nat) :
    scanLoop target fuel address name (leftBracket :: rest) = none := by
  induction fuel with
  | zero => rfl
  | succ fuel ih =>
    rw [scanLoop, fscanf_bracket]
    exact (if_neg (Nat.not_le.mpr hshort)).trans ((if_neg hname).trans ih)

theorem scanLoop_line (fuel : Nat) (address : UInt64) (name : List UInt8) :
    scanLoop target (fuel + 1) address name (s.line ++ rest) =
      if nameSize ≤ s.name.length then some .overflow
      else if s.name = target then some (.returned s.addr)
      else scanLoop target fuel s.addr s.name (s.suffix ++ newline :: rest) := by
  rw [scanLoop, fscanf_line]
  simp only [Option.getD_some, scanLoop_skipSpace]

/-- A symbol that the loop goes past. -/
structure Passed (target : List UInt8) (s : Symbol) : Prop where
  name : s.name ≠ target
  short : s.name.length < nameSize
  kernel : s.module = none

/-- The address of the last symbol. -/
def lastAddress (address : UInt64) (symbols : List Symbol) : UInt64 :=
  (symbols.getLast?.map Symbol.addr).getD address

theorem scanLoop_passed (h : ∀ s ∈ before, Passed target s) (rest : List UInt8) (fuel : Nat)
    (address : UInt64) (name : List UInt8) :
    ∃ name', scanLoop target (before.length + fuel) address name (kallsyms before ++ rest) =
      scanLoop target fuel (lastAddress address before) name' rest := by
  induction before generalizing address name with
  | nil => exact ⟨name, by rw [List.length_nil, Nat.zero_add]; rfl⟩
  | cons s before ih =>
    obtain ⟨hname, hshort, hkernel⟩ := h s List.mem_cons_self
    obtain ⟨name', hrest⟩ := ih (fun x hx => h x (List.mem_cons_of_mem s hx)) s.addr s.name
    refine ⟨name', ?_⟩
    have hlines : kallsyms (s :: before) ++ rest = s.line ++ (kallsyms before ++ rest) := by
      simp [kallsyms]
    have hsuffix : s.suffix = [] := by rw [Symbol.suffix, hkernel]
    have hlast : lastAddress address (s :: before) = lastAddress s.addr before := by
      unfold lastAddress
      cases before with
      | nil => rfl
      | cons s' before => rw [List.getLast?_cons_cons, List.getLast?_cons]; rfl
    rw [hlines, List.length_cons, Nat.add_right_comm, scanLoop_line,
      if_neg (Nat.not_le.mpr hshort), if_neg hname, hsuffix, List.nil_append, ← scanLoop_skipSpace,
      skipSpace_space (by decide), scanLoop_skipSpace, hrest, hlast]

theorem kallsyms_append (before after : List Symbol) :
    kallsyms (before ++ after) = kallsyms before ++ kallsyms after := List.flatMap_append

/-- The loop still runs when it has read part of the symbols that it goes past. -/
theorem scanLoop_running (h : ∀ s ∈ before, Passed target s) (hfuel : fuel ≤ before.length)
    (address : UInt64) (name : List UInt8) :
    scanLoop target fuel address name (kallsyms before ++ rest) = none := by
  have hsplit : kallsyms before ++ rest =
      kallsyms (before.take fuel) ++ (kallsyms (before.drop fuel) ++ rest) := by
    rw [← List.append_assoc, ← kallsyms_append, List.take_append_drop]
  obtain ⟨name', hrest⟩ := scanLoop_passed (fun s hs => h s (List.mem_of_mem_take hs))
    (kallsyms (before.drop fuel) ++ rest) 0 address name
  rw [List.length_take, Nat.min_eq_left hfuel, Nat.add_zero] at hrest
  rw [hsplit, hrest]
  rfl

/-- The loop comes to a symbol. -/
theorem scanLoop_reaches (h : ∀ s ∈ before, Passed target s) (s : Symbol) (after : List Symbol)
    (fuel : Nat) (address : UInt64) (name : List UInt8) :
    scanLoop target (before.length + (fuel + 1)) address name (kallsyms (before ++ s :: after)) =
      if nameSize ≤ s.name.length then some .overflow
      else if s.name = target then some (.returned s.addr)
      else scanLoop target fuel s.addr s.name
        (s.suffix ++ newline :: kallsyms after) := by
  have hlines : kallsyms (before ++ s :: after) =
      kallsyms before ++ (s.line ++ kallsyms after) := by
    rw [kallsyms_append]
    rfl
  obtain ⟨name', hrest⟩ := scanLoop_passed h (s.line ++ kallsyms after) (fuel + 1) address name
  rw [hlines, hrest, scanLoop_line]

/-- Behind a symbol of a module the loop stays. -/
theorem scanLoop_module (hname : s.name ≠ target) (hshort : s.name.length < nameSize)
    (hmodule : s.module ≠ none) (fuel : Nat) :
    scanLoop target fuel s.addr s.name (s.suffix ++ newline :: rest) = none := by
  obtain ⟨m, hm⟩ := Option.ne_none_iff_exists'.mp hmodule
  have hsuffix : s.suffix ++ newline :: rest =
      tab :: leftBracket :: (m ++ [rightBracket] ++ newline :: rest) := by
    rw [Symbol.suffix, hm]
    rfl
  rw [hsuffix, ← scanLoop_skipSpace, skipSpace_space (by decide), scanLoop_skipSpace]
  exact scanLoop_bracket hname hshort fuel

/-- How `find_ksym` ends, for every contents of the buffer: at the first symbol with the name, if it
is one of the kernel or the first one of a module; never, behind the first symbol of a module; with a
name that is too long for the buffer; or with the address of the last symbol. -/
theorem findKsym_ends (target buffer : List UInt8) (before : List Symbol)
    (h : ∀ s ∈ before, Passed target s) :
    (∀ s after fuel, s.name = target → s.name.length < nameSize → before.length < fuel →
      findKsym (some (kallsyms (before ++ s :: after))) target buffer fuel =
        some (.returned s.addr)) ∧
    (∀ s after fuel, s.name ≠ target → s.name.length < nameSize → s.module ≠ none →
      findKsym (some (kallsyms (before ++ s :: after))) target buffer fuel = none) ∧
    (∀ s after fuel, nameSize ≤ s.name.length → before.length < fuel →
      findKsym (some (kallsyms (before ++ s :: after))) target buffer fuel = some .overflow) ∧
    (∀ fuel, before.length < fuel →
      findKsym (some (kallsyms before)) target buffer fuel =
        some (.returned (lastAddress 0 before))) := by
  refine ⟨fun s after fuel hname hshort hfuel => ?_, fun s after fuel hname hshort hmodule => ?_,
    fun s after fuel hlong hfuel => ?_, fun fuel hfuel => ?_⟩
  · obtain ⟨k, rfl⟩ := Nat.exists_eq_add_of_lt hfuel
    show scanLoop target (before.length + (k + 1)) 0 buffer _ = _
    rw [scanLoop_reaches h, if_neg (Nat.not_le.mpr hshort), if_pos hname]
  · show scanLoop target fuel 0 buffer _ = _
    by_cases hfuel : fuel ≤ before.length
    · rw [kallsyms_append]
      exact scanLoop_running h hfuel 0 buffer
    · obtain ⟨k, rfl⟩ := Nat.exists_eq_add_of_lt (Nat.lt_of_not_le hfuel)
      show scanLoop target (before.length + (k + 1)) 0 buffer _ = _
      rw [scanLoop_reaches h, if_neg (Nat.not_le.mpr hshort), if_neg hname]
      exact scanLoop_module hname hshort hmodule k
  · obtain ⟨k, rfl⟩ := Nat.exists_eq_add_of_lt hfuel
    show scanLoop target (before.length + (k + 1)) 0 buffer _ = _
    rw [scanLoop_reaches h, if_pos hlong]
  · obtain ⟨k, rfl⟩ := Nat.exists_eq_add_of_lt hfuel
    obtain ⟨name', hrest⟩ := scanLoop_passed h [] (k + 1) 0 buffer
    rw [List.append_nil] at hrest
    exact hrest

/-- A symbol of the kernel, and one of a module. -/
def kernelSymbol : Symbol :=
  ⟨4096, 84, [97], none, rfl, List.forall_mem_singleton.mpr rfl, List.cons_ne_nil 97 []⟩

def moduleSymbol : Symbol :=
  ⟨8192, 116, [98], some [109], rfl, List.forall_mem_singleton.mpr rfl, List.cons_ne_nil 98 []⟩

-- the lines are `0000000000001000 T a` and `0000000000002000 t b` with `[m]`
example : kallsyms [kernelSymbol, moduleSymbol] =
    List.replicate 12 48 ++ [49, 48, 48, 48, 32, 84, 32, 97, 10] ++
      (List.replicate 12 48 ++ [50, 48, 48, 48, 32, 116, 32, 98, 9, 91, 109, 93, 10]) := by decide

/-- The first symbol of a module is still found. -/
theorem findKsym_ends_module :
    findKsym (some (kallsyms [kernelSymbol, moduleSymbol])) [98] [] 2 = some (.returned 8192) := by
  have hpassed : ∀ s ∈ [kernelSymbol], Passed [98] s := by
    intro s hs
    rw [List.mem_singleton.mp hs]
    exact ⟨by decide, by decide, rfl⟩
  exact (findKsym_ends [98] [] [kernelSymbol] hpassed).1 moduleSymbol [] 2 rfl (by decide)
    (by decide)

end Scanning

end CpuSubsystem.FindKsym
