import CpuSubsystem.Lib.Simulation
import CpuSubsystem.ProcImage.KeytimeTool.Model

/-!
# What the tool `keytime_image` prints

Without maps and buffers, the tool remembers the exec that the target is in, with the strings that
were readable at its entry.  The probes and `handle_event` together print just that.
-/

namespace CpuSubsystem.KeytimeTool

open KeytimeImage (UserMemory argsize totalMaxArgs overwrite overwrite_before overwrite_written
  argString packed packed_append spaced dots)

/-! ## What is to be printed -/

/-- The values in front of the first one that is missing. -/
def leading {α : Type*} : List (Option α) → List α
  | [] => []
  | none :: _ => []
  | some a :: l => a :: leading l

/-- What can be read of `argv[1]` to `argv[19]`. -/
def argValues (user : UserMemory) (args : UInt64) : List (Option (List UInt8)) :=
  (List.range' 1 (defaultMaxargs - 1)).map (argString user args)

/-- The file name and the arguments, each up to its first 127 bytes. -/
def shown (user : UserMemory) (filename args : UInt64) : List (List UInt8) :=
  match user.str filename with
  | none => []
  | some name => (name :: leading (argValues user args)).map (List.take (argsize - 1))

/-- All of them can be read, and `argv[20]` can too, though it may be the NULL behind them. -/
def hasMore (user : UserMemory) (filename args : UInt64) : Bool :=
  (user.str filename).isSome && (argValues user args).all Option.isSome &&
    (user.word (args + 8 * UInt64.ofNat defaultMaxargs)).isSome

/-- The strings in the last column.  In quotes, one more is opened in front of the dots. -/
def argsText (quote : Bool) (strs : List (List UInt8)) (more : Bool) : List UInt8 :=
  if quote then
    doubleQuote :: (quotedBody quotedSymbol doubleQuote space strs ++
      if more then doubleQuote :: dots else [])
  else spaced strs ++ if more then dots else []

/-- An exec in progress. -/
structure Exec where
  caller : Task
  start : UInt64
  strs : List (List UInt8)
  more : Bool
deriving DecidableEq

section Lines

variable (quote : Bool) (x : Exec) (cur : Task) (now : UInt64)

def Exec.text : Text := .chars (argsText quote x.strs x.more)

def Exec.entered : Line :=
  .pad x.start .execveEnter x.caller.comm x.caller.pid x.caller.ppid (x.text quote)

def Exec.returned (ret : Int) : Line :=
  .timed now .execveExit x.caller.comm x.caller.pid x.caller.ppid
    ((now - x.start).toNat * 1 / 1000) ret (x.text quote)

def missed (ret : Int) : Line := .miss now .execveExit cur.comm cur.pid cur.ppid ret

def exited (arg : UInt64) : Line :=
  .pad now .exit cur.comm cur.pid cur.ppid (.numbers quote [arg.toInt64.toInt])

end Lines

section Spec

variable (ro : Rodata) (quote : Bool) (open? : Option Exec)

/-- The entry of an exec of the target, while no other one is open. -/
def enters (cur : Task) (now : UInt64) (room sent : Bool) (filename args : UInt64)
    (user : UserMemory) : Option Exec × List Line :=
  if ro.enableExecve ∧ cur.pid = ro.targetPid ∧ open? = none ∧ room then
    let x : Exec := ⟨cur, now, shown user filename args, hasMore user filename args⟩
    (some x, if sent then [x.entered quote] else [])
  else (open?, [])

/-- Its return, after which none is open. -/
def returns (cur : Task) (now : UInt64) (room sent : Bool) (ret : Int) :
    Option Exec × List Line :=
  if ro.enableExecve ∧ cur.pid = ro.targetPid then
    if ret < 0 then (none, [])
    else
      match open? with
      | some x => (none, if sent then [x.returned quote now ret] else [])
      | none => (none, if room ∧ sent then [missed cur now ret] else [])
  else (open?, [])

/-- The exit of the target is not printed while an exec is open. -/
def exits (cur : Task) (now : UInt64) (room sent : Bool) (arg : UInt64) :
    Option Exec × List Line :=
  if ro.enableExit ∧ cur.pid = ro.targetPid ∧ open? = none ∧ room then
    (open?, if sent then [exited quote cur now arg] else [])
  else (open?, [])

def track : Act → Option Exec × List Line
  | .sysEnterExecve cur now room sent filename args user =>
    enters ro quote open? cur now room sent filename args user
  | .sysExitExecve cur now room sent ret => returns ro quote open? cur now room sent ret
  | .sysEnterExitGroup cur now room sent arg | .sysEnterExit cur now room sent arg =>
    exits ro quote open? cur now room sent arg

def tracker : Machine (Option Exec) Act (Option Line) where
  init := none
  step open? a := ((track ro quote open? a).1, (track ro quote open? a).2.map some)

end Spec

/-- Strings contain no NUL, and the clock does not show 0. -/
def Act.Sane (a : Act) : Prop :=
  a.now ≠ 0 ∧ ∀ cur now room sent filename args user,
    a = .sysEnterExecve cur now room sent filename args user → user.NulFree

/-! ## The buffer -/

/-- The record is `base` with these strings, and counts one more if `more` is set. -/
structure Packs (base : Sample) (strs : List (List UInt8)) (more : Bool) (e : Sample) : Prop where
  head : e = { base with toEvent := e.toEvent }
  bytes : e.args.toList.take e.argsSize = packed strs
  size : e.argsSize ≤ argsize * strs.length
  count : e.argsCount = strs.length + if more then 1 else 0

section Buffer

variable {user : UserMemory} {filename args addr : UInt64} {base event : Sample}
  {str : List UInt8} {strs : List (List UInt8)} {more : Bool} {off : Nat}

theorem readUserStr_none (buf : Vector UInt8 fullMaxArgsArr) (off : Nat)
    (h : user.str addr = none) : (readUserStr user buf off addr).1 < 0 ∧
      (readUserStr user buf off addr).2.toList.take off = buf.toList.take off := by
  unfold readUserStr
  rw [h]
  exact ⟨show (-14 : Int) < 0 by decide, overwrite_before buf off _⟩

theorem packed_singleton (str : List UInt8) : packed [str] = str ++ [0] := by simp [packed]

theorem readUserStr_some (buf : Vector UInt8 fullMaxArgsArr) (h : user.str addr = some str)
    (hoff : off ≤ lastArg) :
    ∃ n : Nat, (readUserStr user buf off addr).1 = n ∧ n ≤ argsize ∧
      (readUserStr user buf off addr).2.toList.take (off + n) =
        buf.toList.take off ++ packed [str.take (argsize - 1)] := by
  have hle : (str.take (argsize - 1) ++ [0]).length ≤ argsize := by
    have hmin : (str.take (argsize - 1)).length ≤ argsize - 1 := List.length_take_le _ _
    have hsize : argsize = 128 := rfl
    rw [List.length_append, List.length_singleton]
    omega
  refine ⟨_, by rw [readUserStr, h], hle, ?_⟩
  rw [readUserStr, h, packed_singleton]
  apply overwrite_written
  have hsizes : lastArg + argsize = fullMaxArgsArr := rfl
  omega

/-- The guard in front of a string never fires: as many strings as the loop reads fit. -/
theorem Packs.room (h : Packs base strs more event) (hroom : strs.length < totalMaxArgs) :
    event.argsSize ≤ lastArg := by
  have hsizes : lastArg + argsize = argsize * totalMaxArgs := rfl
  have hmul : argsize * strs.length + argsize ≤ argsize * totalMaxArgs :=
    Nat.mul_le_mul_left argsize hroom
  have hsize := h.size
  omega

/-- A string that can be read goes behind the others. -/
theorem Packs.snoc (h : Packs base strs false event) (hroom : strs.length < totalMaxArgs)
    (hstr : user.str addr = some str) :
    0 ≤ (readUserStr user event.args event.argsSize addr).1 ∧
      (readUserStr user event.args event.argsSize addr).1 ≤ argsize ∧
      Packs base (strs ++ [str.take (argsize - 1)]) false { event with
        args := (readUserStr user event.args event.argsSize addr).2
        argsCount := event.argsCount + 1
        argsSize :=
          event.argsSize + (readUserStr user event.args event.argsSize addr).1.toNat } := by
  obtain ⟨n, hret, hle, hbytes⟩ := readUserStr_some event.args hstr (h.room hroom)
  refine ⟨by omega, by omega, ?_, ?_, ?_, ?_⟩
  · rw [h.head]
  · show (readUserStr user event.args event.argsSize addr).2.toList.take
      (event.argsSize + (readUserStr user event.args event.argsSize addr).1.toNat) = _
    rw [hret, Int.toNat_natCast, hbytes, h.bytes, packed_append]
  · show event.argsSize + (readUserStr user event.args event.argsSize addr).1.toNat ≤ _
    rw [hret, Int.toNat_natCast, List.length_append, List.length_singleton, Nat.mul_succ]
    exact Nat.add_le_add h.size hle
  · show event.argsCount + 1 = _
    rw [h.count, List.length_append]
    simp

/-- A string that cannot be read leaves what is in front of it. -/
theorem Packs.unread (h : Packs base strs false event) (hstr : user.str addr = none) :
    (readUserStr user event.args event.argsSize addr).1 < 0 ∧ Packs base strs false
      { event with args := (readUserStr user event.args event.argsSize addr).2 } := by
  obtain ⟨hneg, hbefore⟩ := readUserStr_none event.args event.argsSize hstr
  refine ⟨hneg, ?_, hbefore.trans h.bytes, h.size, h.count⟩
  rw [h.head]

/-- One iteration of the loop. -/
theorem Packs.readArg (h : Packs base strs false event) (hroom : strs.length < totalMaxArgs)
    (user : UserMemory) (args : UInt64) (i : Nat) :
    match argString user args i with
    | none => ∃ e, readArg user args event i = .error e ∧ Packs base strs false e
    | some str => ∃ e, readArg user args event i = .ok e ∧
      Packs base (strs ++ [str.take (argsize - 1)]) false e := by
  have hguard : ¬ event.argsSize > lastArg := Nat.not_lt.mpr (h.room hroom)
  unfold KeytimeTool.readArg argString
  cases hword : user.word (args + 8 * UInt64.ofNat i) with
  | none => exact ⟨event, rfl, h⟩
  | some argp =>
    simp only [if_neg hguard, Option.bind_some]
    cases hstr : user.str argp with
    | none =>
      obtain ⟨hneg, hpacks⟩ := h.unread hstr
      rw [if_pos hneg]
      exact ⟨_, rfl, hpacks⟩
    | some str =>
      obtain ⟨hpos, -, hpacks⟩ := h.snoc hroom hstr
      rw [if_neg (Int.not_lt.mpr hpos)]
      exact ⟨_, rfl, hpacks⟩

/-- The loop takes what stands in front of the first argument that cannot be read. -/
theorem Packs.loop (user : UserMemory) (args : UInt64) (l : List Nat)
    (h : Packs base strs false event) (hroom : strs.length + l.length ≤ totalMaxArgs) :
    if (l.map (argString user args)).all Option.isSome then
      ∃ e, l.foldlM (KeytimeTool.readArg user args) event = .ok e ∧
        Packs base (strs ++ (leading (l.map (argString user args))).map
          (List.take (argsize - 1))) false e
    else
      ∃ e, l.foldlM (KeytimeTool.readArg user args) event = .error e ∧
        Packs base (strs ++ (leading (l.map (argString user args))).map
          (List.take (argsize - 1))) false e := by
  induction l generalizing strs event with
  | nil =>
    refine ⟨event, rfl, ?_⟩
    rw [List.map_nil, leading, List.map_nil, List.append_nil]
    exact h
  | cons i l ih =>
    rw [List.length_cons] at hroom
    have hstep := h.readArg (by omega) user args i
    rw [List.map_cons, List.foldlM_cons]
    cases harg : argString user args i with
    | none =>
      rw [harg] at hstep
      obtain ⟨e, he, hpacks⟩ := hstep
      refine ⟨e, by rw [he]; rfl, ?_⟩
      rw [leading, List.map_nil, List.append_nil]
      exact hpacks
    | some str =>
      rw [harg] at hstep
      obtain ⟨e, he, hpacks⟩ := hstep
      have hrest := ih hpacks (by rw [List.length_append, List.length_singleton]; omega)
      rw [he, List.all_cons, Option.isSome_some, Bool.true_and, leading, List.map_cons]
      rw [List.append_assoc, List.singleton_append] at hrest
      exact hrest

theorem Packs.start (hsize : base.argsSize = 0) (hcount : base.argsCount = 0) :
    Packs base [] false base := by
  refine ⟨rfl, ?_, ?_, ?_⟩
  · rw [hsize]
    rfl
  · rw [hsize]
    exact Nat.zero_le _
  · rw [hcount]
    rfl

/-- What is read of the arguments, behind the file name. -/
theorem Packs.readArgs (h : Packs base [str] false event) :
    Packs base (str :: (leading (argValues user args)).map (List.take (argsize - 1)))
      ((argValues user args).all Option.isSome &&
        (user.word (args + 8 * UInt64.ofNat defaultMaxargs)).isSome)
      (KeytimeTool.readArgs user args event) := by
  have hloop := h.loop user args (List.range' 1 (min totalMaxArgs defaultMaxargs - 1))
    (by rw [List.length_range', List.length_singleton]; decide)
  have hvalues : (List.range' 1 (min totalMaxArgs defaultMaxargs - 1)).map (argString user args) =
      argValues user args := rfl
  rw [hvalues] at hloop
  unfold KeytimeTool.readArgs
  by_cases hall : (argValues user args).all Option.isSome = true
  · rw [if_pos hall] at hloop
    obtain ⟨e, he, hpacks⟩ := hloop
    rw [he, hall, Bool.true_and]
    cases user.word (args + 8 * UInt64.ofNat defaultMaxargs) with
    | none => exact hpacks
    | some w =>
      refine ⟨?_, hpacks.bytes, hpacks.size, ?_⟩
      · rw [hpacks.head]
      · show e.argsCount + 1 = _
        rw [hpacks.count]
        rfl
  · rw [if_neg hall] at hloop
    obtain ⟨e, he, hpacks⟩ := hloop
    rw [he, Bool.eq_false_iff.mpr hall, Bool.false_and]
    exact hpacks

theorem readStrings_packs (hsize : base.argsSize = 0) (hcount : base.argsCount = 0) :
    Packs base (shown user filename args) (hasMore user filename args)
      (readStrings user filename args base) := by
  have hstart : Packs base [] false base := .start hsize hcount
  unfold readStrings shown hasMore
  cases hname : user.str filename with
  | none =>
    obtain ⟨hneg, hpacks⟩ := hstart.unread hname
    rw [hsize] at hneg hpacks
    simp only [if_pos hneg, hsize]
    exact hpacks
  | some name =>
    obtain ⟨hpos, hle, hpacks⟩ := hstart.snoc (by decide) hname
    rw [hsize] at hpos hle hpacks
    simp only [if_neg (Int.not_lt.mpr hpos), if_pos hle, hsize]
    exact hpacks.readArgs

end Buffer

/-! ## The text -/

section Text

variable {env : Env} {counter argsCount : Int} {strs : List (List UInt8)} {more quote : Bool}
  {base e : Sample}

/-- One string more is counted than there are. -/
theorem printChars_open (hq : env.quote = true) (h : ∀ str ∈ strs, (0 : UInt8) ∉ str)
    (hne : strs ≠ []) (hcount : counter + strs.length < argsCount) :
    printChars env argsCount (packed strs) counter =
      quotedBody quotedSymbol doubleQuote space strs ++ [doubleQuote] := by
  induction strs generalizing counter with
  | nil => exact absurd rfl hne
  | cons str strs ih =>
    rw [List.length_cons] at hcount
    have hlt : counter < argsCount := by omega
    have hnext : counter + 1 < argsCount := by omega
    have hsplit : packed (str :: strs) = str ++ 0 :: packed strs := by simp [packed]
    rw [hsplit, printChars_string hq (h str List.mem_cons_self) hlt, printChars, if_pos hlt,
      if_pos hq, if_pos rfl, if_pos hnext, quotedBody_cons]
    cases strs with
    | nil => simp [quotedTail, packed, printChars]
    | cons str' strs =>
      rw [ih (fun x hx => h x (List.mem_cons_of_mem str hx)) (List.cons_ne_nil _ _) (by omega)]
      simp [quotedTail]

/-- Without quotes the loop is that of `print_info1`. -/
theorem printChars_unquoted (hq : env.quote = false) (l : List UInt8) (counter : Int) :
    printChars env argsCount l counter = KeytimeImage.printChars argsCount l counter := by
  induction l generalizing counter with
  | nil => rfl
  | cons c l ih =>
    rw [printChars, KeytimeImage.printChars, hq, if_neg Bool.false_ne_true, ih, ih]

theorem Packs.printArgs (h : Packs base strs more e) (hnul : ∀ str ∈ strs, (0 : UInt8) ∉ str)
    (hlen : if more then strs.length = defaultMaxargs else strs.length ≤ defaultMaxargs) :
    printArgs (envOf quote) e.toEvent = argsText quote strs more := by
  have hcount := h.count
  have hdots : e.argsCount = (envOf quote).maxArgs + 1 ↔ more = true := by
    cases more with
    | true => simp only [if_true] at hlen hcount; simp [envOf, hcount, hlen]
    | false =>
      simp only [Bool.false_eq_true, if_false] at hlen hcount
      simp only [envOf, Bool.false_eq_true, iff_false]
      omega
  unfold KeytimeTool.printArgs argsText
  rw [h.bytes]
  simp only [hdots]
  cases quote with
  | false =>
    rw [printChars_unquoted rfl, KeytimeImage.printChars_packed hnul]
    · rfl
    · rw [hcount]
      split <;> omega
  | true =>
    cases more with
    | true =>
      simp only [if_true] at hlen hcount
      have hne : strs ≠ [] := fun hnil => by simp [hnil] at hlen
      rw [printChars_open rfl hnul hne (by omega)]
      simp [envOf]
    | false =>
      simp only [Bool.false_eq_true, if_false] at hlen hcount
      rw [printChars_packed rfl hnul (by omega)]
      simp [envOf]

end Text

/-! ## The simulation -/

/-- The element of the target is the exec that is open. -/
structure Opened (x : Exec) (e : Sample) : Prop where
  packs : Packs (entryEvent x.caller x.start) x.strs x.more e
  start : x.start ≠ 0
  nul : ∀ str ∈ x.strs, (0 : UInt8) ∉ str
  length : if x.more then x.strs.length = defaultMaxargs else x.strs.length ≤ defaultMaxargs

def Matches (ro : Rodata) (s : State) (open? : Option Exec) : Prop :=
  match s.keytime.lookup ro.targetPid, open? with
  | none, none => True
  | some e, some x => Opened x e
  | _, _ => False

/-- What the probes have done is what the tracker says. -/
structure Tracks (ro : Rodata) (quote : Bool) (r : State × List Sample)
    (t : Option Exec × List Line) : Prop where
  state : Matches ro r.1 t.1
  lines : r.2.map (handleEvent (envOf quote)) = t.2.map some

section Simulation

variable {ro : Rodata} {s : State} {open? : Option Exec} {quote : Bool} {cur : Task}
  {now filename args : UInt64} {room sent : Bool} {user : UserMemory} {x : Exec} {e : Sample}

theorem length_leading {α : Type*} (l : List (Option α)) : (leading l).length ≤ l.length := by
  induction l with
  | nil => exact Nat.le_refl _
  | cons a l ih =>
    cases a with
    | none => exact Nat.zero_le _
    | some a => exact Nat.succ_le_succ ih

theorem length_leading_of_all {α : Type*} {l : List (Option α)}
    (h : l.all Option.isSome = true) : (leading l).length = l.length := by
  induction l with
  | nil => rfl
  | cons a l ih =>
    rw [List.all_cons, Bool.and_eq_true] at h
    cases a with
    | none => cases h.1
    | some a => exact congrArg Nat.succ (ih h.2)

theorem mem_leading {α : Type*} {l : List (Option α)} {a : α} (h : a ∈ leading l) :
    some a ∈ l := by
  induction l with
  | nil => cases h
  | cons b l ih =>
    cases b with
    | none => cases h
    | some b =>
      rcases List.mem_cons.mp h with rfl | h
      · exact List.mem_cons_self
      · exact List.mem_cons_of_mem _ (ih h)

theorem length_argValues : (argValues user args).length = defaultMaxargs - 1 := by
  rw [argValues, List.length_map, List.length_range']

theorem shown_length :
    if hasMore user filename args then (shown user filename args).length = defaultMaxargs
    else (shown user filename args).length ≤ defaultMaxargs := by
  have hle := length_leading (argValues user args)
  rw [length_argValues] at hle
  unfold hasMore shown
  cases user.str filename with
  | none => exact Nat.zero_le _
  | some name =>
    simp only [List.length_map, List.length_cons]
    split
    · rename_i h
      simp only [Option.isSome_some, Bool.true_and, Bool.and_eq_true] at h
      rw [length_leading_of_all h.1, length_argValues]
      rfl
    · exact Nat.succ_le_succ hle

theorem shown_nul (hnul : user.NulFree) : ∀ str ∈ shown user filename args, (0 : UInt8) ∉ str := by
  intro str hstr hzero
  unfold shown at hstr
  cases hname : user.str filename with
  | none =>
    rw [hname] at hstr
    cases hstr
  | some name =>
    rw [hname] at hstr
    obtain ⟨full, hfull, rfl⟩ := List.mem_map.mp hstr
    have hzero := List.mem_of_mem_take hzero
    rcases List.mem_cons.mp hfull with rfl | hfull
    · exact hnul filename _ hname hzero
    · obtain ⟨i, -, hi⟩ := List.mem_map.mp (mem_leading hfull)
      obtain ⟨argp, -, hargp⟩ := Option.bind_eq_some_iff.mp hi
      exact hnul argp full hargp hzero

theorem Opened.fits (h : Opened x e) : e.argsSize ≤ fullMaxArgsArr := by
  have hsizes : argsize * totalMaxArgs = fullMaxArgsArr := rfl
  have hlen : x.strs.length ≤ totalMaxArgs := by
    have hlength := h.length
    have hmax : defaultMaxargs ≤ totalMaxArgs := by decide
    split at hlength <;> omega
  calc e.argsSize ≤ argsize * x.strs.length := h.packs.size
    _ ≤ argsize * totalMaxArgs := Nat.mul_le_mul_left argsize hlen
    _ = fullMaxArgsArr := hsizes

/-- The text of a record that is sent with its strings. -/
theorem Opened.printText (h : Opened x e) (quote : Bool) (e' : Sample) (hto : e'.toEvent = e.toEvent)
    (hchars : e'.enableCharArgs = true) : printText (envOf quote) e' = some (x.text quote) := by
  have hle : e'.argsSize ≤ fullMaxArgsArr := by
    rw [hto]
    exact h.fits
  unfold KeytimeTool.printText
  rw [if_pos hchars, if_pos hle, hto, h.packs.printArgs h.nul h.length]
  rfl

/-- The record is not too long to be sent. -/
theorem Opened.sizeof (h : Opened x e) (e' : Sample) (hto : e'.toEvent = e.toEvent) :
    baseEventSize + e'.argsSize ≤ sizeofEvent := by
  have hfits := h.fits
  have hsizes : baseEventSize + fullMaxArgsArr ≤ sizeofEvent := by decide
  rw [hto]
  omega

theorem handleEvent_timed {env : Env} {text : Text} (hstart : e.start ≠ 0) (hexit : e.exit ≠ 0)
    (htext : printText env e = some text) : handleEvent env e =
      some (.timed e.exit (syscallOf e.flag) e.comm e.pid e.ppid
        ((e.exit - e.start).toNat * 1 / 1000) e.retval text) := by
  unfold handleEvent
  rw [htext]
  exact if_pos ⟨hstart, hexit⟩

theorem handleEvent_pad {env : Env} {text : Text} (hexit : e.exit = 0)
    (htext : printText env e = some text) : handleEvent env e =
      some (.pad e.start (syscallOf e.flag) e.comm e.pid e.ppid text) := by
  unfold handleEvent
  rw [htext]
  exact (if_neg fun h => h.2 hexit).trans (if_neg fun h => h.2 hexit)

theorem Opened.flag (h : Opened x e) : e.flag = 1 := by
  rw [h.packs.head]
  rfl

theorem Opened.enableCharArgs (h : Opened x e) : e.enableCharArgs = true := by
  rw [h.packs.head]
  rfl

theorem Opened.exit (h : Opened x e) : e.exit = 0 := by
  rw [h.packs.head]
  rfl

theorem Opened.caller (h : Opened x e) :
    e.comm = x.caller.comm ∧ e.pid = x.caller.pid ∧ e.ppid = x.caller.ppid ∧
      e.start = x.start := by
  rw [h.packs.head]
  exact ⟨rfl, rfl, rfl, rfl⟩

/-- The first record of an exec. -/
theorem Opened.handleEvent_entered (h : Opened x e) (quote : Bool) :
    handleEvent (envOf quote) e = some (x.entered quote) := by
  obtain ⟨hcomm, hpid, hppid, hstart⟩ := h.caller
  rw [handleEvent_pad h.exit (h.printText quote e rfl h.enableCharArgs), h.flag, hcomm, hpid, hppid,
    hstart]
  rfl

/-- The second record of an exec. -/
theorem Opened.handleEvent_returned (h : Opened x e) (quote : Bool) (hnow : now ≠ 0) (ret : Int) :
    handleEvent (envOf quote) { e with flag := 2, exit := now, retval := ret } =
      some (x.returned quote now ret) := by
  obtain ⟨hcomm, hpid, hppid, hstart⟩ := h.caller
  have hne : e.start ≠ 0 := hstart ▸ h.start
  have htimed : handleEvent (envOf quote) { e with flag := 2, exit := now, retval := ret } =
      some (.timed now (syscallOf 2) e.comm e.pid e.ppid ((now - e.start).toNat * 1 / 1000) ret
        (x.text quote)) :=
    handleEvent_timed hne hnow (h.printText quote _ rfl h.enableCharArgs)
  rw [htimed, hcomm, hpid, hppid, hstart]
  rfl

theorem handleEvent_missed (hnow : now ≠ 0) (ret : Int) :
    handleEvent (envOf quote) (missEvent cur now ret) = some (missed cur now ret) := by
  unfold handleEvent
  exact (if_neg fun h => h.1 rfl).trans (if_pos ⟨rfl, hnow⟩)

/-- The record of an exit has one number. -/
theorem handleEvent_exited (arg : UInt64) :
    handleEvent (envOf quote) (exitEvent cur now arg) = some (exited quote cur now arg) :=
  handleEvent_pad rfl rfl

theorem matches_none (h : Matches ro s none) : s.keytime.lookup ro.targetPid = none := by
  unfold Matches at h
  cases hl : s.keytime.lookup ro.targetPid with
  | none => rfl
  | some e =>
    rw [hl] at h
    exact h.elim

theorem matches_some (h : Matches ro s (some x)) :
    ∃ e, s.keytime.lookup ro.targetPid = some e ∧ Opened x e := by
  unfold Matches at h
  cases hl : s.keytime.lookup ro.targetPid with
  | none =>
    rw [hl] at h
    exact h.elim
  | some e =>
    rw [hl] at h
    exact ⟨e, rfl, h⟩

theorem matches_deleted (m : BpfMap Int Sample) : Matches ro ⟨m.delete ro.targetPid⟩ none := by
  unfold Matches
  rw [BpfMap.lookup_delete_self]
  trivial

theorem matches_stored (m : BpfMap Int Sample) (h : Opened x e) :
    Matches ro ⟨m.store ro.targetPid e⟩ (some x) := by
  unfold Matches
  rw [BpfMap.lookup_store_self]
  exact h

theorem map_output {e : Sample} {l : Line} (hsize : baseEventSize + e.argsSize ≤ sizeofEvent)
    (h : handleEvent (envOf quote) e = some l) (sent : Bool) :
    (output e sent).map (handleEvent (envOf quote)) = (if sent then [l] else []).map some := by
  rw [output, if_pos hsize]
  cases sent
  · rfl
  · rw [if_pos rfl, if_pos rfl, List.map_singleton, h, List.map_singleton]

/-- There is room for a new element exactly when no exec is open and the map is not full. -/
theorem admits_iff (h : Matches ro s open?) :
    s.admits ro.targetPid room = true ↔ open? = none ∧ room = true := by
  unfold State.admits
  cases open? with
  | none => simp [matches_none h]
  | some x =>
    obtain ⟨e, he, -⟩ := matches_some h
    simp [he]

theorem Tracks.idle (h : Matches ro s open?) : Tracks ro quote (s, []) (open?, []) := ⟨h, rfl⟩

theorem recordExitsys_tracks (h : Matches ro s open?) (arg : UInt64) :
    Tracks ro quote (recordExitsys ro s cur now room sent arg)
      (exits ro quote open? cur now room sent arg) := by
  unfold recordExitsys exits
  by_cases hon : ro.enableExit = true
  · by_cases htarget : cur.pid = ro.targetPid
    · rw [if_pos hon, if_pos htarget, htarget]
      by_cases hadmits : s.admits ro.targetPid room = true
      · obtain ⟨rfl, hroom⟩ := (admits_iff h).mp hadmits
        rw [if_pos hadmits, if_pos ⟨hon, rfl, rfl, hroom⟩]
        have hsize : baseEventSize + (exitEvent cur now arg).argsSize ≤ sizeofEvent :=
          show 116 + 0 ≤ 7800 by decide
        exact ⟨matches_deleted _, map_output hsize (handleEvent_exited arg) sent⟩
      · rw [if_neg hadmits, if_neg fun hall => hadmits ((admits_iff h).mpr hall.2.2)]
        exact .idle h
    · rw [if_pos hon, if_neg htarget, if_neg fun hall => htarget hall.2.1]
      exact .idle h
  · rw [if_neg hon, if_neg fun hall => hon hall.1]
    exact .idle h

theorem sysEnterExecve_tracks (h : Matches ro s open?) (hnow : now ≠ 0) (hnul : user.NulFree) :
    Tracks ro quote (sysEnterExecve ro s cur now room sent filename args user)
      (enters ro quote open? cur now room sent filename args user) := by
  unfold sysEnterExecve enters
  by_cases hon : ro.enableExecve = true
  · by_cases htarget : cur.pid = ro.targetPid
    · rw [if_pos hon, if_pos htarget, htarget]
      by_cases hadmits : s.admits ro.targetPid room = true
      · rw [if_pos hadmits, if_pos ⟨hon, rfl, (admits_iff h).mp hadmits⟩]
        have hopened : Opened
            ⟨cur, now, shown user filename args, hasMore user filename args⟩
            (readStrings user filename args (entryEvent cur now)) :=
          ⟨readStrings_packs rfl rfl, hnow, shown_nul hnul, shown_length⟩
        exact ⟨matches_stored _ hopened,
          map_output (hopened.sizeof _ rfl) (hopened.handleEvent_entered quote) sent⟩
      · rw [if_neg hadmits, if_neg fun hall => hadmits ((admits_iff h).mpr hall.2.2)]
        exact .idle h
    · rw [if_pos hon, if_neg htarget, if_neg fun hall => htarget hall.2.1]
      exact .idle h
  · rw [if_neg hon, if_neg fun hall => hon hall.1]
    exact .idle h

theorem sysExitExecve_tracks (h : Matches ro s open?) (hnow : now ≠ 0) (ret : Int) :
    Tracks ro quote (sysExitExecve ro s cur now room sent ret)
      (returns ro quote open? cur now room sent ret) := by
  unfold sysExitExecve returns
  by_cases hon : ro.enableExecve = true
  · by_cases htarget : cur.pid = ro.targetPid
    · rw [if_pos hon, if_pos htarget, if_pos (And.intro hon htarget), htarget]
      by_cases hret : ret < 0
      · rw [if_pos hret, if_pos hret]
        exact ⟨matches_deleted _, rfl⟩
      · rw [if_neg hret, if_neg hret]
        cases open? with
        | none =>
          rw [matches_none h]
          have hsize : baseEventSize + (missEvent cur now ret).argsSize ≤ sizeofEvent :=
            show 116 + 0 ≤ 7800 by decide
          cases room with
          | false =>
            have hadmits : ¬ s.admits ro.targetPid false = true := fun hall =>
              Bool.false_ne_true ((admits_iff h).mp hall).2
            simp only [if_neg hadmits, Bool.false_eq_true, false_and, if_false]
            exact .idle h
          | true =>
            simp only [if_pos ((admits_iff h).mpr ⟨rfl, rfl⟩), true_and]
            exact ⟨matches_deleted _, map_output hsize (handleEvent_missed hnow ret) sent⟩
        | some x =>
          obtain ⟨e, he, hopened⟩ := matches_some h
          rw [he]
          have hsize := hopened.sizeof { e with flag := 2, exit := now, retval := ret } rfl
          have hline := hopened.handleEvent_returned quote hnow ret
          exact ⟨matches_deleted _, map_output hsize hline sent⟩
    · rw [if_pos hon, if_neg htarget, if_neg fun hall => htarget hall.2]
      exact .idle h
  · rw [if_neg hon, if_neg fun hall => hon hall.1]
    exact .idle h

theorem machine_simulates (ro : Rodata) (quote : Bool) :
    Simulates (machine ro) (tracker ro quote) Act.Sane (Matches ro)
      (handleEvent (envOf quote)) where
  init := by
    unfold Matches
    rw [show (machine ro).init.keytime.lookup ro.targetPid = none from BpfMap.lookup_empty _]
    trivial
  step s open? a ha h := by
    have htracks : Tracks ro quote (step ro s a) (track ro quote open? a) := by
      cases a with
      | sysEnterExecve cur now room sent filename args user =>
        exact sysEnterExecve_tracks h ha.1 (ha.2 _ _ _ _ _ _ _ rfl)
      | sysExitExecve cur now room sent ret => exact sysExitExecve_tracks h ha.1 ret
      | sysEnterExitGroup cur now room sent arg => exact recordExitsys_tracks h arg
      | sysEnterExit cur now room sent arg => exact recordExitsys_tracks h arg
    exact ⟨htracks.state, htracks.lines⟩

/-- What is printed in a run is what the tracker says; no record is read outside of its bounds. -/
theorem tool_refines (ro : Rodata) (quote : Bool) (tr : List Act) (h : ∀ a ∈ tr, a.Sane) :
    ((machine ro).emitted tr).map (handleEvent (envOf quote)) = (tracker ro quote).emitted tr :=
  ((machine_simulates ro quote).run h).2

/-- The memory of `ls -l`. -/
def lsMemory : UserMemory where
  word addr := if addr = 1008 then some 2000 else if addr = 1016 then some 0 else none
  str addr :=
    if addr = 100 then some [108, 115] else if addr = 2000 then some [45, 108] else none

def lsTask : Task := ⟨7, 1, Comm.none⟩

/-- An exec that succeeds, and the exit. -/
def lsRun : List Act :=
  [.sysEnterExecve lsTask 1000 true true 100 1000 lsMemory, .sysExitExecve lsTask 3000 true true 0,
    .sysEnterExitGroup lsTask 9000 true true 2]

theorem lsMemory_nulFree : lsMemory.NulFree := by
  intro addr str h
  simp only [lsMemory] at h
  split_ifs at h <;> cases h <;> decide

theorem ls_sane {now : UInt64} (h : now ≠ 0) :
    (Act.sysEnterExecve lsTask now true true 100 1000 lsMemory).Sane := by
  refine ⟨h, fun cur now room sent filename args user heq => ?_⟩
  cases heq
  exact lsMemory_nulFree

theorem tool_refines_ls :
    ((machine ⟨7, true, true⟩).emitted lsRun).map (handleEvent (envOf true)) =
      [some (.pad 1000 .execveEnter Comm.none 7 1
          (.chars [34, 108, 115, 34, 32, 34, 45, 108, 34, 32])),
        some (.timed 3000 .execveExit Comm.none 7 1 ((3000 - 1000 : UInt64).toNat * 1 / 1000) 0
          (.chars [34, 108, 115, 34, 32, 34, 45, 108, 34, 32])),
        some (.pad 9000 .exit Comm.none 7 1 (.numbers true [2]))] := by
  refine (tool_refines ⟨7, true, true⟩ true lsRun fun a ha => ?_).trans rfl
  simp only [lsRun, List.mem_cons, List.not_mem_nil, or_false] at ha
  rcases ha with rfl | rfl | rfl
  · exact ls_sane (by decide)
  · exact ⟨show (3000 : UInt64) ≠ 0 by decide, fun _ _ _ _ _ _ _ h => nomatch h⟩
  · exact ⟨show (9000 : UInt64) ≠ 0 by decide, fun _ _ _ _ _ _ _ h => nomatch h⟩

end Simulation

end CpuSubsystem.KeytimeTool
