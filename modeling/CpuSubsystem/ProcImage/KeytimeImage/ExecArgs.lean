import CpuSubsystem.ProcImage.KeytimeImage.Model

/-!
# The arguments of an exec

The probe packs the file name and the arguments into `char_info`, each with its NUL; `print_info1`
in `proc_image.c` takes them out again.  They agree through `info_size` and `info_count`.
-/

namespace CpuSubsystem.KeytimeImage

/-! ## Strings in one buffer -/

/-- Strings, each with its NUL. -/
def packed (strs : List (List UInt8)) : List UInt8 := strs.flatMap fun str => str ++ [0]

/-- Strings, each with a space after it. -/
def spaced (strs : List (List UInt8)) : List UInt8 := strs.flatMap fun str => str ++ [32]

/-- The loop of `print_info1`, over the first `info_size` bytes of `char_info`. -/
def printChars (infoCount : Int) : List UInt8 → Int → List UInt8
  | [], _ => []
  | c :: rest, argsCounter =>
    if argsCounter < infoCount then
      if c = 0 then 32 :: printChars infoCount rest (argsCounter + 1)
      else c :: printChars infoCount rest argsCounter
    else []

/-- `e->info_count == env.max_args + 1`. -/
def ellipsis (maxArgs : Nat) (e : KeytimeEvent) : Bool := e.infoCount == maxArgs + 1

/-- What `print_info1` prints in front of the ellipsis. -/
def printedArgs (e : KeytimeEvent) : List UInt8 :=
  printChars e.infoCount (e.charInfo.toList.take e.infoSize) 0

/-- `" ..."`. -/
def dots : List UInt8 := [32, 46, 46, 46]

def printInfo1 (maxArgs : Nat) (e : KeytimeEvent) : List UInt8 :=
  printedArgs e ++ if ellipsis maxArgs e then dots else []

theorem printChars_string {infoCount counter : Int} {str rest : List UInt8} (h : (0 : UInt8) ∉ str)
    (hlt : counter < infoCount) :
    printChars infoCount (str ++ rest) counter = str ++ printChars infoCount rest counter := by
  induction str with
  | nil => rfl
  | cons c str ih =>
    have hc : c ≠ 0 := fun heq => h (heq ▸ List.mem_cons_self)
    rw [List.cons_append, printChars, if_pos hlt, if_neg hc,
      ih fun hin => h (List.mem_cons_of_mem c hin), List.cons_append]

/-- All strings come out when the counter does not end the loop. -/
theorem printChars_packed {infoCount counter : Int} {strs : List (List UInt8)}
    (h : ∀ str ∈ strs, (0 : UInt8) ∉ str) (hle : counter + strs.length ≤ infoCount) :
    printChars infoCount (packed strs) counter = spaced strs := by
  induction strs generalizing counter with
  | nil => rfl
  | cons str strs ih =>
    rw [List.length_cons] at hle
    have hlt : counter < infoCount := by omega
    have hrest : printChars infoCount (packed strs) (counter + 1) = spaced strs :=
      ih (fun x hx => h x (List.mem_cons_of_mem str hx)) (by omega)
    have hsplit : packed (str :: strs) = str ++ 0 :: packed strs := by simp [packed]
    rw [hsplit, printChars_string (h str List.mem_cons_self) hlt, printChars, if_pos hlt,
      if_pos rfl, hrest]
    simp [spaced]

theorem getElem_overwrite {n i : Nat} (buf : Vector UInt8 n) (off : Nat) (bytes : List UInt8)
    (hi : i < n) : (overwrite buf off bytes)[i] =
      if off ≤ i then bytes.getD (i - off) buf[i] else buf[i] := by
  simp [overwrite]

/-- What is before the place of writing stays. -/
theorem overwrite_before {n : Nat} (buf : Vector UInt8 n) (off : Nat) (bytes : List UInt8) :
    (overwrite buf off bytes).toList.take off = buf.toList.take off := by
  apply List.ext_getElem
  · simp
  · intro i hi hi'
    simp only [List.length_take, Vector.length_toList] at hi
    rw [List.getElem_take, List.getElem_take, Vector.getElem_toList, Vector.getElem_toList,
      getElem_overwrite, if_neg (by omega)]

theorem overwrite_written {n : Nat} {buf : Vector UInt8 n} {off : Nat} {bytes : List UInt8}
    (h : off + bytes.length ≤ n) :
    (overwrite buf off bytes).toList.take (off + bytes.length) = buf.toList.take off ++ bytes := by
  have hlen : (buf.toList.take off).length = off := by
    simp only [List.length_take, Vector.length_toList]
    omega
  apply List.ext_getElem
  · simp only [List.length_take, List.length_append, Vector.length_toList]
    omega
  · intro i hi hi'
    simp only [List.length_take, Vector.length_toList] at hi
    rw [List.getElem_take, Vector.getElem_toList, getElem_overwrite]
    by_cases hoff : off ≤ i
    · have hin : i - off < bytes.length := by omega
      rw [if_pos hoff, List.getElem_append_right (by omega), List.getD_eq_getElem?_getD,
        List.getElem?_eq_getElem hin, Option.getD_some]
      simp only [hlen]
    · rw [if_neg hoff, List.getElem_append_left (by omega), List.getElem_take,
        Vector.getElem_toList]

/-! ## What is to be shown -/

/-- The memory holds C strings. -/
def UserMemory.NulFree (user : UserMemory) : Prop :=
  ∀ addr str, user.str addr = some str → (0 : UInt8) ∉ str

section Spec

variable (ro : Rodata) (user : UserMemory) (name : List UInt8) (args : UInt64)

/-- `argv[i]`; `none` when the pointer or the string cannot be read. -/
def argString (i : Nat) : Option (List UInt8) :=
  (user.word (args + 8 * UInt64.ofNat i)).bind user.str

/-- The file name and the arguments before `argv[k]`, each up to its first 127 bytes. -/
def shownStrings (k : Nat) : List (List UInt8) :=
  (name :: (List.range' 1 (k - 1)).map fun i => (argString user args i).getD []).map
    (List.take (argsize - 1))

/-- The bytes that they take. -/
def used (k : Nat) : Nat := (packed (shownStrings user name args k)).length

/-- The loop over the arguments stops at `argv[k]`. -/
def Stops (k : Nat) : Prop :=
  min totalMaxArgs ro.maxArgs ≤ k ∨ argString user args k = none ∨ lastArg < used user name args k

/-- And it did not stop before. -/
def StopsFirst (k : Nat) : Prop :=
  1 ≤ k ∧ Stops ro user name args k ∧ ∀ i, 1 ≤ i → i < k → ¬Stops ro user name args i

end Spec

/-! ## The places of writing -/

section Writes

variable (user : UserMemory)

/-- How many bytes `bpf_probe_read_user_str` writes. -/
def extent (addr : UInt64) : Nat :=
  match user.str addr with
  | none => argsize
  | some bytes => (bytes.take (argsize - 1) ++ [0]).length

/-- Where in `char_info` an iteration of the loop writes, and how many bytes. -/
def argWrite (args : UInt64) (event : KeytimeEvent) (i : Nat) : Option (Nat × Nat) :=
  match user.word (args + 8 * UInt64.ofNat i) with
  | none => none
  | some argp => if event.infoSize > lastArg then none else some (event.infoSize, extent user argp)

def argWrites (args : UInt64) : KeytimeEvent → List Nat → List (Nat × Nat)
  | _, [] => []
  | event, i :: rest =>
    (argWrite user args event i).toList ++
      match readArg user args event i with
      | .error _ => []
      | .ok event' => argWrites args event' rest

/-- The event after the file name was read. -/
def named (mem : KeytimeEvent) (pid tgid : Int) (filename : UInt64) : KeytimeEvent :=
  { mem with
    type := 1
    pid := pid
    tgid := tgid
    infoCount := 0 + 1
    infoSize := (readUserStr user mem.charInfo 0 filename).1.toNat
    enableCharInfo := true
    charInfo := (readUserStr user mem.charInfo 0 filename).2 }

/-- The writes of a whole exec. -/
def execWrites (ro : Rodata) (mem : KeytimeEvent) (pid tgid : Int) (filename args : UInt64) :
    List (Nat × Nat) :=
  (0, extent user filename) ::
    if (readUserStr user mem.charInfo 0 filename).1 < 0 then []
    else
      argWrites user args (named user mem pid tgid filename)
        (List.range' 1 (min totalMaxArgs ro.maxArgs - 1))

end Writes

variable {ro : Rodata} {user : UserMemory} {name : List UInt8} {filename args : UInt64}
  {event mem : KeytimeEvent} {k : Nat}

theorem extent_le (addr : UInt64) : extent user addr ≤ argsize := by
  unfold extent
  split
  · exact Nat.le_refl _
  · rename_i bytes _
    have hmin : (bytes.take (argsize - 1)).length ≤ argsize - 1 := List.length_take_le _ _
    have hsize : argsize = 128 := rfl
    rw [List.length_append, List.length_singleton]
    omega

theorem shownStrings_succ (name : List UInt8) (hk : 1 ≤ k) {str : List UInt8}
    (h : argString user args k = some str) :
    shownStrings user name args (k + 1) =
      shownStrings user name args k ++ [str.take (argsize - 1)] := by
  obtain ⟨m, rfl⟩ := Nat.exists_eq_add_of_le' hk
  simp only [shownStrings, Nat.add_sub_cancel, List.range'_1_concat, List.map_cons, List.map_append,
    List.map_nil, List.cons_append]
  rw [Nat.add_comm 1 m, h]
  rfl

theorem packed_append (strs strs' : List (List UInt8)) :
    packed (strs ++ strs') = packed strs ++ packed strs' := List.flatMap_append

theorem nulFree_shown (hnul : user.NulFree) {addr : UInt64} (hname : user.str addr = some name) :
    ∀ str ∈ shownStrings user name args k, (0 : UInt8) ∉ str := by
  intro str hstr
  obtain ⟨full, hfull, rfl⟩ := List.mem_map.mp hstr
  intro hzero
  have hzero := List.mem_of_mem_take hzero
  rcases List.mem_cons.mp hfull with rfl | hfull
  · exact hnul addr _ hname hzero
  · obtain ⟨i, -, rfl⟩ := List.mem_map.mp hfull
    cases harg : argString user args i with
    | none =>
      rw [harg] at hzero
      cases hzero
    | some s =>
      rw [harg] at hzero
      obtain ⟨p, -, hp⟩ := Option.bind_eq_some_iff.mp harg
      exact hnul p s hp hzero

/-- The record holds the file name and the arguments before `argv[k]`. -/
structure Holds (user : UserMemory) (name : List UInt8) (args : UInt64) (k : Nat)
    (event : KeytimeEvent) : Prop where
  size : event.infoSize = used user name args k
  chars : event.charInfo.toList.take event.infoSize = packed (shownStrings user name args k)
  count : event.infoCount = (shownStrings user name args k).length
  fits : event.infoSize ≤ fullMaxArgsArr

/-- A string that cannot be read leaves what is in front of it. -/
theorem readUserStr_none (buf : Vector UInt8 fullMaxArgsArr) (off : Nat) {addr : UInt64}
    (h : user.str addr = none) : (readUserStr user buf off addr).1 < 0 ∧
      (readUserStr user buf off addr).2.toList.take off = buf.toList.take off := by
  unfold readUserStr
  rw [h]
  exact ⟨show (-14 : Int) < 0 by decide, overwrite_before buf off _⟩

theorem readUserStr_some (buf : Vector UInt8 fullMaxArgsArr) {off : Nat} {addr : UInt64}
    {str : List UInt8} (h : user.str addr = some str) (hoff : off ≤ lastArg) :
    ∃ n : Nat, (readUserStr user buf off addr).1 = n ∧
      n = (packed [str.take (argsize - 1)]).length ∧ n ≤ argsize ∧
      (readUserStr user buf off addr).2.toList.take (off + n) =
        buf.toList.take off ++ packed [str.take (argsize - 1)] := by
  have hpacked : packed [str.take (argsize - 1)] = str.take (argsize - 1) ++ [0] := by
    simp [packed]
  have hle : (packed [str.take (argsize - 1)]).length ≤ argsize := by
    have hext : extent user addr ≤ argsize := extent_le addr
    rw [extent, h] at hext
    rw [hpacked]
    exact hext
  refine ⟨_, ?_, rfl, hle, ?_⟩
  · rw [readUserStr, h, hpacked]
  · rw [readUserStr, h, hpacked]
    rw [hpacked] at hle
    apply overwrite_written
    have hsizes : lastArg + argsize = fullMaxArgsArr := rfl
    omega

/-- One iteration of the loop. -/
theorem Holds.readArg (h : Holds user name args k event) (hk : 1 ≤ k) :
    (∃ e, readArg user args event k = .error e ∧ Holds user name args k e ∧
      (argString user args k = none ∨ lastArg < used user name args k)) ∨
    (∃ e, readArg user args event k = .ok e ∧ Holds user name args (k + 1) e ∧
      argString user args k ≠ none ∧ used user name args k ≤ lastArg) := by
  unfold KeytimeImage.readArg
  cases hword : user.word (args + 8 * UInt64.ofNat k) with
  | none =>
    refine Or.inl ⟨event, rfl, h, Or.inl ?_⟩
    rw [argString, hword]
    rfl
  | some argp =>
    have harg : argString user args k = user.str argp := by
      rw [argString, hword]
      rfl
    by_cases hfull : event.infoSize > lastArg
    · -- more than `LAST_ARG` bytes are in use: another string might not fit
      refine Or.inl ⟨event, by simp only [if_pos hfull], h, Or.inr ?_⟩
      rw [← h.size]
      exact hfull
    · simp only [if_neg hfull]
      have hroom : event.infoSize ≤ lastArg := Nat.le_of_not_lt hfull
      cases hstr : user.str argp with
      | none =>
        obtain ⟨hneg, hbefore⟩ := readUserStr_none event.charInfo event.infoSize hstr
        refine Or.inl ⟨{ event with
          charInfo := (readUserStr user event.charInfo event.infoSize argp).2 },
          by simp only [if_pos hneg], ?_, Or.inl (harg.trans hstr)⟩
        exact ⟨h.size, hbefore.trans h.chars, h.count, h.fits⟩
      | some str =>
        obtain ⟨n, hret, hn, hle, hchars⟩ := readUserStr_some event.charInfo hstr hroom
        have hpos : ¬(readUserStr user event.charInfo event.infoSize argp).1 < 0 := by omega
        refine Or.inr ⟨{ event with
          charInfo := (readUserStr user event.charInfo event.infoSize argp).2
          infoCount := event.infoCount + 1
          infoSize :=
            event.infoSize + (readUserStr user event.charInfo event.infoSize argp).1.toNat },
          by simp only [if_neg hpos], ?_, by rw [harg, hstr]; simp, ?_⟩
        · have hnext := shownStrings_succ name hk (harg.trans hstr)
          -- the returned length counts the NUL, as `packed` does
          have hcast : (readUserStr user event.charInfo event.infoSize argp).1.toNat = n := by
            omega
          have hsizes : lastArg + argsize = fullMaxArgsArr := rfl
          constructor
          · show event.infoSize + _ = _
            rw [hcast, used, hnext, packed_append, List.length_append, h.size, hn]
            rfl
          · show (readUserStr user event.charInfo event.infoSize argp).2.toList.take _ = _
            rw [hcast, hchars, h.chars, hnext, packed_append]
          · show event.infoCount + 1 = _
            rw [h.count, hnext, List.length_append]
            simp
          · show event.infoSize + _ ≤ _
            rw [hcast]
            omega
        · rw [← h.size]
          exact hroom

/-- The loop from `argv[k]` on. -/
theorem Holds.loop (h : Holds user name args k event) (hk : 1 ≤ k) {m : Nat}
    (hm : m = min totalMaxArgs ro.maxArgs - k) :
    ∃ j e, k ≤ j ∧ Stops ro user name args j ∧
      (∀ i, k ≤ i → i < j → ¬Stops ro user name args i) ∧ Holds user name args j e ∧
      (List.range' k m).foldlM (KeytimeImage.readArg user args) event =
        if min totalMaxArgs ro.maxArgs ≤ j then .ok e else .error e := by
  induction m generalizing k event with
  | zero =>
    have hle : min totalMaxArgs ro.maxArgs ≤ k := by omega
    refine ⟨k, event, Nat.le_refl k, Or.inl hle, fun i hi hlt => by omega, h, ?_⟩
    rw [if_pos hle]
    rfl
  | succ m ih =>
    have hlt : ¬min totalMaxArgs ro.maxArgs ≤ k := by omega
    rw [List.range'_succ, List.foldlM_cons]
    rcases h.readArg hk with ⟨e, he, hholds, hstop⟩ | ⟨e, he, hholds, harg, hroom⟩
    · -- the probe submits what it has
      refine ⟨k, e, Nat.le_refl k, Or.inr hstop, fun i hi hik => by omega, hholds, ?_⟩
      rw [he, if_neg hlt]
      rfl
    · obtain ⟨j, e', hle, hstop, hfirst, hholds', hloop⟩ := ih hholds (by omega) (by omega)
      refine ⟨j, e', by omega, hstop, fun i hi hij => ?_, hholds', ?_⟩
      · by_cases hik : i = k
        · subst hik
          rintro (hstop | hstop | hstop)
          · exact hlt hstop
          · exact harg hstop
          · omega
        · exact hfirst i (by omega) hij
      · rw [he]
        exact hloop

section Exec

variable (ro) (args) (mem) (pid tgid : Int)

theorem exec_readable (hname : user.str filename = some name) :
    ¬(readUserStr user mem.charInfo 0 filename).1 < 0 ∧
      mem.exec ro pid tgid user filename args =
        readArgs ro user args (named user mem pid tgid filename) := by
  obtain ⟨n, hret, -, hle, -⟩ :=
    readUserStr_some mem.charInfo hname (Nat.zero_le lastArg)
  have hpos : ¬(readUserStr user mem.charInfo 0 filename).1 < 0 := by omega
  have hfit : (readUserStr user mem.charInfo 0 filename).1 ≤ (argsize : Int) := by omega
  refine ⟨hpos, ?_⟩
  simp only [KeytimeEvent.exec, if_neg hpos, if_pos hfit]
  rfl

theorem exec_unreadable (hname : user.str filename = none) :
    (readUserStr user mem.charInfo 0 filename).1 < 0 ∧
      mem.exec ro pid tgid user filename args =
        { named user mem pid tgid filename with infoCount := 0, infoSize := 0 } := by
  have hneg := (readUserStr_none mem.charInfo 0 hname).1
  refine ⟨hneg, ?_⟩
  simp only [KeytimeEvent.exec, if_pos hneg]
  rfl

/-- The file name is the first string of the record. -/
theorem named_holds (hname : user.str filename = some name) :
    Holds user name args 1 (named user mem pid tgid filename) := by
  obtain ⟨n, hret, hn, hle, hchars⟩ :=
    readUserStr_some mem.charInfo hname (Nat.zero_le lastArg)
  have hcast : (readUserStr user mem.charInfo 0 filename).1.toNat = n := by omega
  have hfirst : shownStrings user name args 1 = [name.take (argsize - 1)] := rfl
  constructor
  · show (readUserStr user mem.charInfo 0 filename).1.toNat = _
    rw [hcast, used, hfirst, hn]
  · show (readUserStr user mem.charInfo 0 filename).2.toList.take
      (readUserStr user mem.charInfo 0 filename).1.toNat = _
    rw [hcast, hfirst, ← Nat.zero_add n, hchars]
    rfl
  · rw [hfirst]
    rfl
  · show (readUserStr user mem.charInfo 0 filename).1.toNat ≤ _
    have hsizes : lastArg + argsize = fullMaxArgsArr := rfl
    omega

/-- The whole probe, when the file name can be read. -/
theorem exec_holds (hname : user.str filename = some name) :
    ∃ k e, StopsFirst ro user name args k ∧ Holds user name args k e ∧
      mem.exec ro pid tgid user filename args =
        if min totalMaxArgs ro.maxArgs ≤ k ∧
            (user.word (args + 8 * UInt64.ofNat ro.maxArgs)).isSome = true then
          { e with infoCount := e.infoCount + 1 }
        else e := by
  have hholds : Holds user name args 1 (named user mem pid tgid filename) :=
    named_holds args mem pid tgid hname
  obtain ⟨k, e, hk, hstop, hbefore, hend, hloop⟩ := hholds.loop (Nat.le_refl 1) rfl
  refine ⟨k, e, ⟨hk, hstop, hbefore⟩, hend, ?_⟩
  rw [(exec_readable ro args mem pid tgid hname).2, readArgs, hloop]
  by_cases hall : min totalMaxArgs ro.maxArgs ≤ k
  · simp only [hall, true_and]
    cases user.word (args + 8 * UInt64.ofNat ro.maxArgs) <;> rfl
  · simp only [hall, false_and, if_false]

end Exec

/-! ## The frame -/

theorem overwrite_outside {n i : Nat} {buf : Vector UInt8 n} {off : Nat} {bytes : List UInt8}
    (hi : i < n) (h : ¬(off ≤ i ∧ i < off + bytes.length)) :
    (overwrite buf off bytes)[i] = buf[i] := by
  rw [getElem_overwrite]
  split
  · rw [List.getD_eq_getElem?_getD, List.getElem?_eq_none (by omega), Option.getD_none]
  · rfl

theorem readUserStr_outside (buf : Vector UInt8 fullMaxArgsArr) {off i : Nat} {addr : UInt64}
    (hi : i < fullMaxArgsArr) (h : ¬(off ≤ i ∧ i < off + extent user addr)) :
    (readUserStr user buf off addr).2[i] = buf[i] := by
  unfold extent at h
  unfold readUserStr
  cases hstr : user.str addr with
  | none =>
    rw [hstr] at h
    apply overwrite_outside hi
    rw [List.length_replicate]
    exact h
  | some bytes =>
    rw [hstr] at h
    exact overwrite_outside hi h

/-- A place is not written. -/
def Outside (writes : List (Nat × Nat)) (i : Nat) : Prop :=
  ∀ w ∈ writes, ¬(w.1 ≤ i ∧ i < w.1 + w.2)

/-- The event that the loop goes on with, or that it submits. -/
def outcome : Except KeytimeEvent KeytimeEvent → KeytimeEvent
  | .ok e => e
  | .error e => e

theorem readArg_outside {i : Nat} (hi : i < fullMaxArgsArr)
    (h : Outside (argWrite user args event k).toList i) :
    (outcome (readArg user args event k)).charInfo[i] = event.charInfo[i] := by
  unfold argWrite at h
  unfold readArg
  cases hword : user.word (args + 8 * UInt64.ofNat k) with
  | none => rfl
  | some argp =>
    by_cases hfull : event.infoSize > lastArg
    · simp only [if_pos hfull]
      rfl
    · simp only [hword, if_neg hfull] at h ⊢
      have hkeep := readUserStr_outside event.charInfo hi (h _ List.mem_cons_self)
      split <;> exact hkeep

theorem argWrites_outside {l : List Nat} {i : Nat} (hi : i < fullMaxArgsArr)
    (h : Outside (argWrites user args event l) i) :
    (outcome (l.foldlM (readArg user args) event)).charInfo[i] = event.charInfo[i] := by
  induction l generalizing event with
  | nil => rfl
  | cons k l ih =>
    have hstep := readArg_outside hi fun w hw => h w (List.mem_append_left _ hw)
    have hrest := fun w hw => h w (List.mem_append_right _ hw)
    rw [List.foldlM_cons]
    cases hread : readArg user args event k with
    | error e =>
      rw [hread] at hstep
      exact hstep
    | ok e =>
      rw [hread] at hstep hrest
      exact (ih hrest).trans hstep

theorem readArgs_charInfo : (readArgs ro user args event).charInfo =
    (outcome ((List.range' 1 (min totalMaxArgs ro.maxArgs - 1)).foldlM
      (readArg user args) event)).charInfo := by
  unfold readArgs
  split
  · rename_i e he
    rw [he]
    rfl
  · rename_i e he
    rw [he]
    split <;> rfl

/-- The probe changes `char_info` only where it is said to write. -/
theorem exec_outside {pid tgid : Int} {i : Nat} (hi : i < fullMaxArgsArr)
    (h : Outside (execWrites user ro mem pid tgid filename args) i) :
    (mem.exec ro pid tgid user filename args).charInfo[i] = mem.charInfo[i] := by
  have hnamed : (named user mem pid tgid filename).charInfo[i] = mem.charInfo[i] :=
    readUserStr_outside mem.charInfo hi (h _ List.mem_cons_self)
  have hrest := fun w hw => h w (List.mem_cons_of_mem _ hw)
  cases hname : user.str filename with
  | none =>
    simp only [(exec_unreadable ro args mem pid tgid hname).2]
    exact hnamed
  | some name =>
    obtain ⟨hpos, hexec⟩ := exec_readable ro args mem pid tgid hname
    rw [if_neg hpos] at hrest
    simp only [hexec, readArgs_charInfo]
    exact (argWrites_outside hi hrest).trans hnamed

theorem argWrites_inside {l : List Nat} :
    ∀ w ∈ argWrites user args event l, w.1 + w.2 ≤ fullMaxArgsArr := by
  induction l generalizing event with
  | nil =>
    intro w hw
    cases hw
  | cons i l ih =>
    intro w hw
    rcases List.mem_append.mp hw with hw | hw
    · unfold argWrite at hw
      cases hword : user.word (args + 8 * UInt64.ofNat i) with
      | none =>
        rw [hword] at hw
        cases hw
      | some argp =>
        rw [hword] at hw
        by_cases hfull : event.infoSize > lastArg
        · simp [hfull] at hw
        · simp only [if_neg hfull, Option.toList_some, List.mem_singleton] at hw
          have hext : extent user argp ≤ argsize := extent_le argp
          have hsizes : lastArg + argsize = fullMaxArgsArr := rfl
          rw [hw]
          show event.infoSize + extent user argp ≤ fullMaxArgsArr
          omega
    · split at hw
      · cases hw
      · exact ih w hw

theorem execWrites_inside {pid tgid : Int} :
    ∀ w ∈ execWrites user ro mem pid tgid filename args, w.1 + w.2 ≤ fullMaxArgsArr := by
  intro w hw
  rcases List.mem_cons.mp hw with rfl | hw
  · have hext : extent user filename ≤ argsize := extent_le filename
    have hsizes : lastArg + argsize = fullMaxArgsArr := rfl
    show 0 + extent user filename ≤ fullMaxArgsArr
    omega
  · split at hw
    · cases hw
    · exact argWrites_inside w hw

/-! ## Main results -/

theorem sysEnterExecve_record {s : State} {cur : Task} {e : KeytimeEvent}
    (he : Record.keytime e ∈ (sysEnterExecve ro s cur (some mem) filename args user).2) :
    e = mem.exec ro cur.pid (shownTgid s.ktCtrlMap cur.tgid) user filename args := by
  unfold sysEnterExecve at he
  dsimp only at he
  split at he
  · exact Record.keytime.inj (List.mem_singleton.mp he)
  · cases he

/-- What the probe packs is what `print_info1` prints: the file name and the arguments up to the
one where the loop stops. -/
theorem exec_args_round_trip (ro : Rodata) (s : State) (cur : Task) (mem : KeytimeEvent)
    (filename args : UInt64) (user : UserMemory) (hnul : user.NulFree) (e : KeytimeEvent)
    (he : Record.keytime e ∈ (sysEnterExecve ro s cur (some mem) filename args user).2) :
    (∀ w ∈ execWrites user ro mem cur.pid (shownTgid s.ktCtrlMap cur.tgid) filename args,
      w.1 + w.2 ≤ fullMaxArgsArr) ∧
    e.infoSize ≤ fullMaxArgsArr ∧
    (user.str filename = none → printInfo1 ro.maxArgs e = []) ∧
    ∀ name, user.str filename = some name → ∃ k, StopsFirst ro user name args k ∧
      printedArgs e = spaced (shownStrings user name args k) := by
  rw [sysEnterExecve_record he]
  refine ⟨execWrites_inside, ?_, fun hname => ?_, fun name hname => ?_⟩
  · cases hname : user.str filename with
    | none =>
      rw [(exec_unreadable ro args mem _ _ hname).2]
      exact Nat.zero_le _
    | some name =>
      obtain ⟨k, e, -, hholds, hexec⟩ := exec_holds ro args mem cur.pid
        (shownTgid s.ktCtrlMap cur.tgid) hname
      rw [hexec]
      split <;> exact hholds.fits
  · rw [(exec_unreadable ro args mem _ _ hname).2]
    rfl
  · obtain ⟨k, e, hfirst, hholds, hexec⟩ := exec_holds ro args mem cur.pid
        (shownTgid s.ktCtrlMap cur.tgid) hname
    refine ⟨k, hfirst, ?_⟩
    -- the loop of `print_info1` may count one string more than there are
    have hprint : ∀ infoCount : Int, e.infoCount ≤ infoCount →
        printChars infoCount (e.charInfo.toList.take e.infoSize) 0 =
          spaced (shownStrings user name args k) := by
      intro infoCount hle
      rw [hholds.chars]
      apply printChars_packed (nulFree_shown hnul hname)
      rw [← hholds.count]
      omega
    rw [hexec]
    split
    · exact hprint (e.infoCount + 1) (by omega)
    · exact hprint e.infoCount (Int.le_refl _)

/-! ## The ellipsis -/

/-- `print_info1` appends the ellipsis. -/
def Appends (maxArgs : Nat) (e : KeytimeEvent) : Prop :=
  printInfo1 maxArgs e = printedArgs e ++ dots

/-- `args` points to `n` pointers to readable strings, and a NULL. -/
structure ArgVector (user : UserMemory) (args : UInt64) (n : Nat) : Prop where
  readable : ∀ i < n, (argString user args i).isSome = true
  terminated : user.word (args + 8 * UInt64.ofNat n) = some 0
  null : user.str 0 = none

/-- The strings leave room for one more in front of every argument that the loop comes to. -/
def Fits (ro : Rodata) (user : UserMemory) (filename args : UInt64) (n : Nat) : Prop :=
  ∀ name, user.str filename = some name →
    ∀ i < n, 1 ≤ i → i < ro.maxArgs → used user name args i ≤ lastArg

theorem appends_iff {maxArgs : Nat} {e : KeytimeEvent} :
    Appends maxArgs e ↔ e.infoCount = maxArgs + 1 := by
  have hdots : dots ≠ [] := by decide
  unfold Appends printInfo1 ellipsis
  rw [List.append_cancel_left_eq]
  by_cases h : e.infoCount = maxArgs + 1
  · simp [h]
  · simp [h, hdots.symm]

theorem length_shownStrings (hk : 1 ≤ k) : (shownStrings user name args k).length = k := by
  simp only [shownStrings, List.length_map, List.length_cons, List.length_range']
  omega

theorem ArgVector.argString_end {n : Nat} (h : ArgVector user args n) :
    argString user args n = none := by
  rw [argString, h.terminated]
  exact h.null

/-- Where the loop stops. -/
theorem StopsFirst.eq {n : Nat} (h : StopsFirst ro user name args k) (hn : 1 ≤ n)
    (hm : 1 ≤ ro.maxArgs) (hm' : ro.maxArgs ≤ totalMaxArgs) (hv : ArgVector user args n)
    (hname : user.str filename = some name) (hfits : Fits ro user filename args n) :
    k = min n ro.maxArgs := by
  obtain ⟨hk, hstop, hbefore⟩ := h
  have hlimit : min totalMaxArgs ro.maxArgs = ro.maxArgs := Nat.min_eq_right hm'
  have hle : k ≤ min n ro.maxArgs := by
    by_contra hgt
    by_cases hnm : n ≤ ro.maxArgs
    · -- the NULL cannot be read as a string
      exact hbefore n hn (by omega) (Or.inr (Or.inl hv.argString_end))
    · exact hbefore ro.maxArgs hm (by omega) (Or.inl (by omega))
  rcases hstop with hstop | hstop | hstop
  · omega
  · have hge : ¬k < n := by
      intro hlt
      have hread := hv.readable k hlt
      rw [hstop] at hread
      cases hread
    omega
  · have hge : ¬(k < n ∧ k < ro.maxArgs) := by
      intro hlt
      have hroom := hfits name hname k hlt.1 hk hlt.2
      omega
    omega

/-- The ellipsis is right unless the vector has exactly as many elements as are looked at: then
`args[max_args]` is its NULL, which can be read.  After a file name that cannot be read there is
never an ellipsis. -/
theorem ellipsis_right_iff (ro : Rodata) (s : State) (cur : Task) (mem : KeytimeEvent)
    (filename args : UInt64) (user : UserMemory) (n : Nat) (hn : 1 ≤ n) (hm : 1 ≤ ro.maxArgs)
    (hm' : ro.maxArgs ≤ totalMaxArgs) (hv : ArgVector user args n)
    (hfits : Fits ro user filename args n) (e : KeytimeEvent)
    (he : Record.keytime e ∈ (sysEnterExecve ro s cur (some mem) filename args user).2) :
    (Appends ro.maxArgs e ↔ ro.maxArgs < n) ↔
      if (user.str filename).isSome then n ≠ ro.maxArgs else n ≤ ro.maxArgs := by
  rw [sysEnterExecve_record he, appends_iff]
  cases hname : user.str filename with
  | none =>
    rw [(exec_unreadable ro args mem _ _ hname).2]
    have hzero : ¬(0 : Int) = ro.maxArgs + 1 := by omega
    simp [hzero]
  | some name =>
    obtain ⟨k, e', hfirst, hholds, hexec⟩ := exec_holds ro args mem cur.pid
      (shownTgid s.ktCtrlMap cur.tgid) hname
    have hk : k = min n ro.maxArgs := hfirst.eq hn hm hm' hv hname hfits
    have hcount : e'.infoCount = k := by
      rw [hholds.count, length_shownStrings hfirst.1]
    rw [hexec, Option.isSome_some, if_pos rfl]
    by_cases hlt : n < ro.maxArgs
    · -- the loop stopped at the NULL
      have hnot : ¬min totalMaxArgs ro.maxArgs ≤ k := by omega
      rw [if_neg fun h => hnot h.1, hcount]
      omega
    · have hall : min totalMaxArgs ro.maxArgs ≤ k := by omega
      -- the probe looks at one more slot, which can be read also when it is the NULL
      have hword : (user.word (args + 8 * UInt64.ofNat ro.maxArgs)).isSome = true := by
        by_cases heq : n = ro.maxArgs
        · rw [← heq, hv.terminated]
          rfl
        · have hread := hv.readable ro.maxArgs (by omega)
          obtain ⟨str, hstr⟩ := Option.isSome_iff_exists.mp hread
          obtain ⟨p, hp, -⟩ := Option.bind_eq_some_iff.mp hstr
          rw [hp]
          rfl
      rw [if_pos ⟨hall, hword⟩]
      show (e'.infoCount + 1 = ro.maxArgs + 1 ↔ ro.maxArgs < n) ↔ n ≠ ro.maxArgs
      rw [hcount]
      omega

section Runs

/-- `argv` at 4096 with `n` pointers to "a"; the file name is "b". -/
def shell (n : Nat) : UserMemory where
  word addr :=
    if addr < 4096 + 8 * UInt64.ofNat n then some 100
    else if addr = 4096 + 8 * UInt64.ofNat n then some 0
    else none
  str addr := if addr = 100 then some [97] else if addr = 50 then some [98] else none

theorem shell_nulFree (n : Nat) : (shell n).NulFree := by
  intro addr str h
  simp only [shell] at h
  split at h
  · cases h
    decide
  · split at h
    · cases h
      decide
    · cases h

def anyone : State := initial .all

theorem exec_args_round_trip_shell :
    (∀ w ∈ execWrites (shell 2) ⟨1, 20⟩ .zero 5 (-1) 50 4096, w.1 + w.2 ≤ fullMaxArgsArr) ∧
    (KeytimeEvent.zero.exec ⟨1, 20⟩ 5 (-1) (shell 2) 50 4096).infoSize ≤ fullMaxArgsArr ∧
    ((shell 2).str 50 = none →
      printInfo1 20 (KeytimeEvent.zero.exec ⟨1, 20⟩ 5 (-1) (shell 2) 50 4096) = []) ∧
    ∀ name, (shell 2).str 50 = some name → ∃ k, StopsFirst ⟨1, 20⟩ (shell 2) name 4096 k ∧
      printedArgs (KeytimeEvent.zero.exec ⟨1, 20⟩ 5 (-1) (shell 2) 50 4096) =
        spaced (shownStrings (shell 2) name 4096 k) :=
  exec_args_round_trip ⟨1, 20⟩ anyone ⟨5, 5⟩ .zero 50 4096 (shell 2) (shell_nulFree 2) _
    (List.mem_singleton_self _)

theorem shell_argVector : ArgVector (shell 2) 4096 2 ∧ ArgVector (shell 20) 4096 20 :=
  ⟨⟨by decide, by decide, by decide⟩, ⟨by decide, by decide, by decide⟩⟩

theorem shell_fits (n : Nat) (h : ∀ i < n, 1 ≤ i → i < 20 →
    used (shell n) [98] 4096 i ≤ lastArg) : Fits ⟨1, 20⟩ (shell n) 50 4096 n := by
  intro name hname
  have h98 : (shell n).str 50 = some [98] := rfl
  rw [h98] at hname
  cases hname
  exact h

theorem ellipsis_right_iff_two :
    (Appends 20 (KeytimeEvent.zero.exec ⟨1, 20⟩ 5 (-1) (shell 2) 50 4096) ↔ 20 < 2) ↔
      if ((shell 2).str 50).isSome then 2 ≠ 20 else 2 ≤ 20 :=
  ellipsis_right_iff ⟨1, 20⟩ anyone ⟨5, 5⟩ .zero 50 4096 (shell 2) 2 (by decide) (by decide)
    (by decide) shell_argVector.1 (shell_fits 2 (by decide)) _ (List.mem_singleton_self _)

/-- All 20 arguments are shown, and the ellipsis says that some were left out. -/
theorem ellipsis_after_twenty :
    ArgVector (shell 20) 4096 20 ∧ Fits ⟨1, 20⟩ (shell 20) 50 4096 20 ∧
      (sysEnterExecve ⟨1, 20⟩ anyone ⟨5, 5⟩ (some .zero) 50 4096 (shell 20)).2 =
        [.keytime (KeytimeEvent.zero.exec ⟨1, 20⟩ 5 (-1) (shell 20) 50 4096)] ∧
      ¬(Appends 20 (KeytimeEvent.zero.exec ⟨1, 20⟩ 5 (-1) (shell 20) 50 4096) ↔ 20 < 20) := by
  refine ⟨shell_argVector.2, shell_fits 20 (by decide), rfl, ?_⟩
  rw [appends_iff]
  decide +kernel

end Runs

end CpuSubsystem.KeytimeImage
