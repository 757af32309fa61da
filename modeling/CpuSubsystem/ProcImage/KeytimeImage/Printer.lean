import CpuSubsystem.Lib.Rotation
import CpuSubsystem.ProcImage.KeytimeImage.ExecArgs
import CpuSubsystem.ProcImage.KeytimeImage.Probes
import CpuSubsystem.ProcImage.Ksyms

/-!
# Key-time image, user side (`print_keytime`)

A record is a row on the console; a switch off the CPU goes to a file as well, with its kernel stack.
A record says by numbers of its own how much of its arrays is read.
-/

namespace CpuSubsystem.KeytimeImage

inductive PrintFault where
  | outOfRange (index : Int)
  | otherType
  | nullFile
  | symbol (fault : Ksyms.Fault)
deriving DecidableEq, Repr

/-- `keytime_type`. -/
def keytimeType : List String :=
  ["", "exec_enter", "exec_exit", "exit", "forkP_enter", "forkP_exit", "vforkP_enter",
    "vforkP_exit", "createT_enter", "createT_exit", "onCPU", "offCPU"]

/-- `keytime_type[type]`. -/
def typeName (type : Int) : Except PrintFault String :=
  if 0 ≤ type then
    match keytimeType[type.toNat]? with
    | some name => .ok name
    | none => .error (.outOfRange type)
  else .error (.outOfRange type)

/-- `array[i]`. -/
def readAt {α : Type} {n : Nat} (array : Vector α n) (i : Nat) : Except PrintFault α :=
  if h : i < n then .ok (array.get ⟨i, h⟩) else .error (.outOfRange i)

/-- The loop of `print_info1` from the `i`-th byte on, which can stop before `info_size`. -/
def readChars (e : KeytimeEvent) : Nat → Nat → Int → Except PrintFault (List UInt8)
  | 0, _, _ => .ok []
  | left + 1, i, argsCounter =>
    if argsCounter < e.infoCount then do
      let c ← readAt e.charInfo i
      if c = 0 then return 32 :: (← readChars e left (i + 1) (argsCounter + 1))
      else return c :: (← readChars e left (i + 1) argsCounter)
    else .ok []

/-- `print_info2`. -/
def readInfos (e : KeytimeEvent) : Except PrintFault (List UInt64) :=
  (List.range e.infoCount.toNat).mapM (readAt e.info)

inductive Details where
  | chars (shown : List UInt8)
  | infos (childPid oncpuTime : Bool) (shown : List UInt64)
  | offcpuTime (time : UInt64)
deriving DecidableEq

/-- The row, less the time of day. -/
structure Row where
  tgid : Option Int
  pid : Int
  event : String
  details : Details
deriving DecidableEq

/-- An entry of `offcpu_stack.txt`, less the time of day. -/
structure StackEntry where
  tgid : Option Int
  pid : Int
  offcpuTime : UInt64
  stack : List Ksyms.StackLine
deriving DecidableEq

/-- `env.stack_count`, and what is in the file. -/
structure StackLog where
  stackCount : Nat
  file : List StackEntry

def columnTgid (tgid : Int) : Option Int := if tgid != -1 then some tgid else none

/-- `kstack_sz / sizeof(long long unsigned int)`: the size is converted to 64 bits without a sign,
and the quotient to `int`. -/
def frameCount (kstackSz : Int) : Int := toInt (kstackSz % 2 ^ 64 / 8)

/-- `print_stack(kstack[i], file)`. -/
def printFrame (t : Ksyms.Table) (kstack : Vector UInt64 128) (i : Nat) :
    Except PrintFault Ksyms.StackLine := do
  (t.printStack (← readAt kstack i)).mapError .symbol

/-- The entry that both branches of `print_keytime` write. -/
def stackEntry (t : Ksyms.Table) (e : OffcpuEvent) : Except PrintFault StackEntry := do
  let stack ← (List.range (frameCount e.kstackSz).toNat).mapM (printFrame t e.kstack)
  return ⟨columnTgid e.tgid, e.pid, e.offcpuTime, stack⟩

/-- The file is opened to append, or cleared after a hundred entries. -/
def logStack (t : Ksyms.Table) (log : StackLog) (e : OffcpuEvent) (opens : Bool) :
    Except PrintFault StackLog :=
  if opens then do
    let entry ← stackEntry t e
    if log.stackCount < 100 then
      return ⟨log.stackCount + 1, log.file ++ [entry]⟩
    else
      return ⟨1, [entry]⟩
  else .error .nullFile

/-- `child_pid:` or `oncpu_time:` stands in front of some numbers. -/
def detailsOf (maxArgs : Nat) (e : KeytimeEvent) : Except PrintFault Details :=
  if e.enableCharInfo then do
    let shown ← readChars e e.infoSize 0 0
    return .chars (shown ++ if ellipsis maxArgs e then dots else [])
  else do
    return .infos (4 ≤ e.type && e.type ≤ 9) (e.type == 10) (← readInfos e)

/-- `print_keytime`, less the header: the row, and the file behind it.  The pointer to the record is
read as one to the other type when the type says so. -/
def printRecord (t : Ksyms.Table) (maxArgs : Nat) (opens : Bool) (log : StackLog) (r : Record) :
    Except PrintFault (StackLog × Row) :=
  match r with
  | .keytime e =>
    if e.type = 11 then .error .otherType
    else do
      let event ← typeName e.type
      let details ← detailsOf maxArgs e
      return (log, ⟨columnTgid e.tgid, e.pid, event, details⟩)
  | .offcpu e =>
    if e.type = 11 then do
      let event ← typeName e.type
      let log ← logStack t log e opens
      return (log, ⟨columnTgid e.tgid, e.pid, event, .offcpuTime e.offcpuTime⟩)
    else .error .otherType

/-- The records in the order of the ring buffer. -/
def printRecords (t : Ksyms.Table) (maxArgs : Nat) (opens : Bool) (log : StackLog) :
    List Record → Except PrintFault (StackLog × List Row)
  | [] => .ok (log, [])
  | r :: rs => do
    let (log, row) ← printRecord t maxArgs opens log r
    let (log, rows) ← printRecords t maxArgs opens log rs
    return (log, row :: rows)

/-! ## What can be printed -/

section Printing

variable {t : Ksyms.Table} {lines : List Ksyms.Line}

/-- The sizes in the record are sizes of its arrays, and the type is that of a name. -/
inductive Printable : Record → Prop where
  | chars {e : KeytimeEvent} (htype : 1 ≤ e.type ∧ e.type ≤ 10) (hchars : e.enableCharInfo = true)
      (hsize : e.infoSize ≤ fullMaxArgsArr) : Printable (.keytime e)
  | infos {e : KeytimeEvent} (htype : 1 ≤ e.type ∧ e.type ≤ 10) (hchars : e.enableCharInfo = false)
      (hcount : e.infoCount ≤ 6) : Printable (.keytime e)
  | offcpu {e : OffcpuEvent} (htype : e.type = 11) (hlo : -2 ^ 31 ≤ e.kstackSz)
      (hhi : e.kstackSz ≤ 1024) : Printable (.offcpu e)

theorem typeName_ok {type : Int} (hlo : 1 ≤ type) (hhi : type ≤ 11) :
    ∃ name, typeName type = .ok name := by
  have hlt : type.toNat < keytimeType.length := by
    show type.toNat < 12
    omega
  refine ⟨keytimeType[type.toNat], ?_⟩
  rw [typeName, if_pos (by omega), List.getElem?_eq_getElem hlt]

theorem readChars_eq (e : KeytimeEvent) {left i : Nat} (h : i + left ≤ fullMaxArgsArr)
    (argsCounter : Int) :
    readChars e left i argsCounter =
      .ok (printChars e.infoCount ((e.charInfo.toList.drop i).take left) argsCounter) := by
  induction left generalizing i argsCounter with
  | zero => rw [readChars, List.take_zero, printChars]
  | succ left ih =>
    have hi : i < fullMaxArgsArr := by omega
    have hlen : i < e.charInfo.toList.length := by rwa [Vector.length_toList]
    have hget : e.charInfo.toList[i] = e.charInfo.get ⟨i, hi⟩ := Vector.getElem_toList _
    have hnext := fun counter => ih (i := i + 1) (by omega) counter
    rw [readChars, List.drop_eq_getElem_cons hlen, List.take_succ_cons, printChars, hget,
      readAt, dif_pos hi]
    split
    · rw [ok_bind]
      split
      · rw [hnext, ok_bind]
        rfl
      · rw [hnext, ok_bind]
        rfl
    · rfl

theorem readChars_printed {e : KeytimeEvent} (h : e.infoSize ≤ fullMaxArgsArr) :
    readChars e e.infoSize 0 0 = .ok (printedArgs e) := by
  rw [readChars_eq e (by omega), List.drop_zero]
  rfl

theorem readInfos_ok {e : KeytimeEvent} (h : e.infoCount ≤ 6) : ∃ shown, readInfos e = .ok shown := by
  have hread : ∀ n ≤ 6, ∃ shown, (List.range n).mapM (readAt e.info) = .ok shown := by
    intro n hn
    induction n with
    | zero => exact ⟨[], rfl⟩
    | succ n ih =>
      obtain ⟨shown, hshown⟩ := ih (by omega)
      refine ⟨shown ++ [e.info.get ⟨n, hn⟩], ?_⟩
      rw [List.range_succ, List.mapM_append, hshown, List.mapM_cons, readAt, dif_pos (by omega)]
      rfl
  exact hread _ (by omega)

/-- A stack that could not be read, with a negative size, has no frames. -/
theorem frameCount_toNat {sz : Int} (hlo : -2 ^ 31 ≤ sz) (hhi : sz ≤ 1024) :
    (frameCount sz).toNat = (sz / 8).toNat := by
  unfold frameCount
  by_cases hneg : sz < 0
  · have hdiv : sz % 2 ^ 64 / 8 = sz / 8 + (2 ^ 32 : Nat) * 2 ^ 29 := by
      show sz % 2 ^ 64 / 8 = sz / 8 + 2 ^ 32 * 2 ^ 29
      omega
    rw [hdiv, toInt, Int.add_mul_bmod_self_left, ← toInt, toInt_eq_self (by omega) (by omega)]
  · rw [Int.emod_eq_of_lt (by omega) (by omega), toInt_eq_self (by omega) (by omega)]

theorem frames_ok (h : Ksyms.Loaded t lines) (kstack : Vector UInt64 128) {n : Nat}
    (hn : n ≤ 128) :
    ∃ stack, (List.range n).mapM (printFrame t kstack) = .ok stack ∧
      List.Forall₂ (Ksyms.Resolves lines) (kstack.toList.take n) stack := by
  induction n with
  | zero => exact ⟨[], rfl, .nil⟩
  | succ n ih =>
    obtain ⟨stack, hstack, hframes⟩ := ih (by omega)
    have hlen : n < kstack.toList.length := by
      rw [Vector.length_toList]
      omega
    have hget : kstack.toList[n] = kstack.get ⟨n, hn⟩ := Vector.getElem_toList _
    obtain ⟨out, hout, hres⟩ := h.printStack (kstack.get ⟨n, hn⟩)
    have hframe : printFrame t kstack n = .ok out := by
      have hlt : n < 128 := hn
      rw [printFrame, readAt, dif_pos hlt, ok_bind, hout]
      rfl
    refine ⟨stack ++ [out], ?_, ?_⟩
    · rw [List.range_succ, List.mapM_append, hstack, List.mapM_cons, hframe]
      rfl
    · rw [List.take_succ_eq_append_getElem hlen, hget]
      exact List.rel_append hframes (.cons hres .nil)

/-- The entry has the fields of the record, and the symbols of its frames. -/
structure EntryOf (lines : List Ksyms.Line) (e : OffcpuEvent) (entry : StackEntry) : Prop where
  tgid : entry.tgid = columnTgid e.tgid
  pid : entry.pid = e.pid
  offcpuTime : entry.offcpuTime = e.offcpuTime
  stack : List.Forall₂ (Ksyms.Resolves lines) (e.kstack.toList.take (e.kstackSz / 8).toNat)
    entry.stack

theorem stackEntry_spec (h : Ksyms.Loaded t lines) {e : OffcpuEvent} (hlo : -2 ^ 31 ≤ e.kstackSz)
    (hhi : e.kstackSz ≤ 1024) : ∃ entry, stackEntry t e = .ok entry ∧ EntryOf lines e entry := by
  have hn : (e.kstackSz / 8).toNat ≤ 128 := by omega
  obtain ⟨stack, hstack, hframes⟩ := frames_ok h e.kstack hn
  unfold stackEntry
  rw [frameCount_toNat hlo hhi, hstack]
  exact ⟨_, rfl, rfl, rfl, rfl, hframes⟩

theorem logStack_spec (h : Ksyms.Loaded t lines) (log : StackLog) {e : OffcpuEvent}
    (hlo : -2 ^ 31 ≤ e.kstackSz) (hhi : e.kstackSz ≤ 1024) :
    ∃ entry, EntryOf lines e entry ∧ logStack t log e true =
      .ok ⟨(rotate 100 (log.stackCount, log.file) entry).1,
        (rotate 100 (log.stackCount, log.file) entry).2⟩ := by
  obtain ⟨entry, hentry, hof⟩ := stackEntry_spec h hlo hhi
  refine ⟨entry, hof, ?_⟩
  unfold logStack rotate
  rw [if_pos rfl, hentry, ok_bind]
  split <;> rfl

/-- The records that go to the file. -/
def Record.offcpu? : Record → Option OffcpuEvent
  | .offcpu e => some e
  | .keytime _ => none

/-- What one record does to the file, and to the console. -/
theorem printRecord_spec (maxArgs : Nat) (h : Ksyms.Loaded t lines) {r : Record}
    (hr : Printable r) (log : StackLog) :
    ∃ row entries, printRecord t maxArgs true log r =
        .ok (⟨(entries.foldl (rotate 100) (log.stackCount, log.file)).1,
          (entries.foldl (rotate 100) (log.stackCount, log.file)).2⟩, row) ∧
      List.Forall₂ (EntryOf lines) r.offcpu?.toList entries := by
  unfold printRecord
  cases hr with
  | @chars e htype hchars hsize =>
    obtain ⟨name, hname⟩ := typeName_ok htype.1 (by omega)
    have hne : e.type ≠ 11 := by omega
    simp only [hne, if_false, hname, ok_bind, detailsOf, hchars, if_true,
      readChars_printed hsize]
    exact ⟨_, [], rfl, .nil⟩
  | @infos e htype hchars hcount =>
    obtain ⟨name, hname⟩ := typeName_ok htype.1 (by omega)
    obtain ⟨shown, hshown⟩ := readInfos_ok hcount
    have hne : e.type ≠ 11 := by omega
    simp only [hne, if_false, hname, ok_bind, detailsOf, hchars, Bool.false_eq_true, hshown]
    exact ⟨_, [], rfl, .nil⟩
  | @offcpu e htype hlo hhi =>
    obtain ⟨name, hname⟩ : ∃ name, typeName e.type = .ok name :=
      typeName_ok (by omega) (by omega)
    obtain ⟨entry, hof, hlog⟩ := logStack_spec h log hlo hhi
    dsimp only
    rw [if_pos htype, hname, ok_bind, hlog]
    exact ⟨_, [entry], rfl, .cons hof .nil⟩

/-- Records whose sizes are right are all printed, and the file is rotated once for each switch off
the CPU. -/
theorem printRecords_spec (maxArgs : Nat) (h : Ksyms.Loaded t lines) {rs : List Record}
    (hrs : ∀ r ∈ rs, Printable r) (log : StackLog) :
    ∃ rows entries, printRecords t maxArgs true log rs =
        .ok (⟨(entries.foldl (rotate 100) (log.stackCount, log.file)).1,
          (entries.foldl (rotate 100) (log.stackCount, log.file)).2⟩, rows) ∧
      rows.length = rs.length ∧
      List.Forall₂ (EntryOf lines) (rs.filterMap Record.offcpu?) entries := by
  induction rs generalizing log with
  | nil => exact ⟨[], [], rfl, rfl, .nil⟩
  | cons r rs ih =>
    obtain ⟨row, first, hfirst, hentry⟩ := printRecord_spec maxArgs h
      (hrs r List.mem_cons_self) log
    obtain ⟨rows, entries, hprint, hlen, hentries⟩ := ih
      (fun r hr => hrs r (List.mem_cons_of_mem _ hr))
      ⟨(first.foldl (rotate 100) (log.stackCount, log.file)).1,
        (first.foldl (rotate 100) (log.stackCount, log.file)).2⟩
    refine ⟨row :: rows, first ++ entries, ?_, congrArg Nat.succ hlen, ?_⟩
    · rw [printRecords, hfirst, ok_bind]
      dsimp only
      rw [hprint, List.foldl_append]
      rfl
    · have hall := List.rel_append hentry hentries
      cases r with
      | keytime e => exact hall
      | offcpu e => exact hall

end Printing

/-! ## What the kernel side sends -/

section Kernel

variable {ro : Rodata} {s : State} {cur : Task} {room : Bool} {slot slot' : Option KeytimeEvent}

/-- `child` remembers creations, by their types. -/
def ChildTypes (s : State) : Prop :=
  ∀ p info, s.child.lookup p = some info → info.type = 4 ∨ info.type = 6 ∨ info.type = 8

/-- What holds of a step: the types stay, and what is sent can be printed. -/
structure Sends (r : State × List Record) : Prop where
  types : ChildTypes r.1
  printable : ∀ x ∈ r.2, Printable x

theorem Sends.silent (h : ChildTypes s) : Sends (s, []) := ⟨h, nofun⟩

theorem Sends.add {r : State × List Record} (h : Sends r) {x : Record} (hx : Printable x) :
    Sends (r.1, x :: r.2) := by
  refine ⟨h.types, fun y hy => ?_⟩
  rcases List.mem_cons.mp hy with rfl | hy
  · exact hx
  · exact h.printable y hy

theorem printable_fill (mem : KeytimeEvent) {type : Int} (hlo : 1 ≤ type) (hhi : type ≤ 10)
    (pid tgid : Int) (info : UInt64) : Printable (.keytime (mem.fill type pid tgid info)) :=
  .infos ⟨hlo, hhi⟩ rfl (show (1 : Int) ≤ 6 by decide)

/-- The arguments change the characters and the sizes only. -/
theorem readArgs_enableCharInfo (user : UserMemory) (args : UInt64) (event : KeytimeEvent) :
    (readArgs ro user args event).enableCharInfo = event.enableCharInfo := by
  have hread : ∀ (e : KeytimeEvent) (i : Nat), e.enableCharInfo = event.enableCharInfo →
      Meets (fun e' => e'.enableCharInfo = event.enableCharInfo)
        (fun e' => e'.enableCharInfo = event.enableCharInfo) (readArg user args e i) := by
    intro e i he
    unfold readArg
    split
    · exact he
    · split
      · exact he
      · dsimp only
        split <;> exact he
  have hloop : Meets (fun e' => e'.enableCharInfo = event.enableCharInfo)
      (fun e' => e'.enableCharInfo = event.enableCharInfo)
      ((List.range' 1 (min totalMaxArgs ro.maxArgs - 1)).foldlM (readArg user args) event) :=
    meets_foldlM (fun e he i _ => hread e i he) rfl
  unfold readArgs
  split
  · rename_i e heq
    rw [heq] at hloop
    exact hloop
  · rename_i e heq
    rw [heq] at hloop
    split <;> exact hloop

theorem printable_exec (ro : Rodata) (mem : KeytimeEvent) (pid tgid : Int) (user : UserMemory)
    (filename args : UInt64) :
    Printable (.keytime (mem.exec ro pid tgid user filename args)) := by
  have htype : (mem.exec ro pid tgid user filename args).type = 1 :=
    exec_type mem pid tgid user filename args
  cases hname : user.str filename with
  | none =>
    rw [(exec_unreadable ro args mem pid tgid hname).2]
    exact .chars ⟨Int.le_refl 1, show (1 : Int) ≤ 10 by decide⟩ rfl (Nat.zero_le _)
  | some name =>
    obtain ⟨k, e, -, hholds, hexec⟩ := exec_holds ro args mem pid tgid hname
    have hsize : (mem.exec ro pid tgid user filename args).infoSize ≤ fullMaxArgsArr := by
      rw [hexec]
      split <;> exact hholds.fits
    have hchars : (mem.exec ro pid tgid user filename args).enableCharInfo = true := by
      rw [(exec_readable ro args mem pid tgid hname).2, readArgs_enableCharInfo]
      rfl
    exact .chars (by omega) hchars hsize

theorem sends_childCreate (h : ChildTypes s) {type : Int}
    (htype : type = 4 ∨ type = 6 ∨ type = 8) (childPid pid tgid : Int) :
    Sends (childCreate s room slot type childPid pid tgid) := by
  unfold childCreate
  dsimp only
  split
  · refine ⟨BpfMap.forall_store h childPid htype, fun x hx => ?_⟩
    cases slot with
    | none => exact absurd hx List.not_mem_nil
    | some mem =>
      rw [List.mem_singleton.mp hx]
      exact printable_fill mem (by omega) (by omega) _ _ _
  · exact .silent h

theorem sends_childExit (h : ChildTypes s) : Sends (childExit s cur slot) := by
  unfold childExit
  split
  · exact .silent h
  · rename_i info hinfo
    split
    · exact .silent h
    · have htype := h _ _ hinfo
      refine ⟨BpfMap.forall_delete h cur.pid, fun x hx => ?_⟩
      rw [List.mem_singleton.mp hx]
      exact printable_fill _ (by omega) (by omega) _ _ _

theorem sends_exitProbe (h : ChildTypes s) (code : UInt64) :
    Sends (exitProbe ro s cur slot slot' code) := by
  unfold exitProbe
  dsimp only
  split
  · split
    · split
      · exact .silent h
      · exact (sends_childExit h).add (printable_fill _ (by decide) (by decide) _ _ _)
    · exact sends_childExit h
  · exact .silent h

theorem sends_slot (h : ChildTypes s) {f : KeytimeEvent → Record} (hf : ∀ mem, Printable (f mem)) :
    Sends (s, (slot.map f).toList) := by
  cases slot with
  | none => exact .silent h
  | some mem => exact (Sends.silent h).add (hf mem)

/-- `bpf_get_stack` gives at most as many bytes as the buffer has, or an error. -/
def Event.StackFits : Event → Prop
  | .schedSwitch _ _ _ _ kstack _ _ => -2 ^ 31 ≤ kstack.sz ∧ kstack.sz ≤ 1024
  | _ => True

theorem sends_schedSwitch (h : ChildTypes s) {prev next : Task} {off on : UInt64} {kstack : Kstack}
    {reservedOff : Bool} (he : -2 ^ 31 ≤ kstack.sz ∧ kstack.sz ≤ 1024) :
    Sends (schedSwitch ro s slot prev next off on kstack reservedOff) := by
  have hon : Sends (s, if next.pid != 0 && selected ro s.ktCtrlMap next then
      (slot.map fun mem => Record.keytime
        (mem.fill 10 next.pid (shownTgid s.ktCtrlMap next.tgid) on)).toList
      else []) := by
    split
    · exact sends_slot h fun mem => printable_fill mem (by decide) (by decide) _ _ _
    · exact .silent h
  unfold schedSwitch
  dsimp only
  split
  · split
    · split
      · exact hon.add (.offcpu rfl he.1 he.2)
      · exact .silent h
    · exact hon
  · exact .silent h

theorem sends_step (h : ChildTypes s) (e : Event) (he : e.StackFits) : Sends (step ro s e) := by
  cases e with
  | ktCtrl c => exact ⟨h, nofun⟩
  | sysEnterExecve cur filename args user slot =>
    unfold step sysEnterExecve
    dsimp only
    split
    · exact sends_slot h fun mem => printable_exec ro mem _ _ user filename args
    · exact .silent h
  | sysExitExecve cur ret slot =>
    unfold step sysExitExecve
    dsimp only
    split
    · exact sends_slot h fun mem => printable_fill mem (by decide) (by decide) _ _ _
    · exact .silent h
  | forkExit cur ret room slot =>
    unfold step forkExit
    dsimp only
    split
    · exact sends_childCreate h (Or.inl rfl) _ _ _
    · exact .silent h
  | vforkExit cur parent room slot =>
    unfold step vforkExit
    dsimp only
    split
    · exact sends_childCreate h (Or.inr (Or.inl rfl)) _ _ _
    · exact .silent h
  | pthreadCreateEnter cur room =>
    refine ⟨?_, nofun⟩
    show ChildTypes (pthreadCreateEnter ro s cur room)
    unfold pthreadCreateEnter
    split <;> exact h
  | pthreadCreateExit cur =>
    refine ⟨?_, nofun⟩
    show ChildTypes (pthreadCreateExit ro s cur)
    unfold pthreadCreateExit
    split <;> exact h
  | sysExitClone3 cur ret room slot =>
    unfold step sysExitClone3
    dsimp only
    split
    · split
      · split
        · exact .silent h
        · exact sends_childCreate h (Or.inr (Or.inr rfl)) _ _ _
      · exact .silent h
    · exact .silent h
  | sysEnterExitGroup cur code slot slot' => exact sends_exitProbe h code
  | sysEnterExit cur code slot slot' => exact sends_exitProbe h code
  | schedSwitch prev next off on kstack reservedOff slotOn => exact sends_schedSwitch h he

theorem printable_run (ro : Rodata) (c : KtCtrl) {tr : List Event} (h : ∀ e ∈ tr, e.StackFits) :
    ChildTypes ((machine ro c).exec tr) ∧
      ∀ r ∈ (machine ro c).emitted tr, Printable r := by
  induction tr using List.reverseRecOn with
  | nil => exact ⟨nofun, nofun⟩
  | append_singleton pre e ih =>
    obtain ⟨htypes, hprintable⟩ := ih fun x hx => h x (List.mem_append_left _ hx)
    have hsends : Sends ((machine ro c).step ((machine ro c).exec pre) e) :=
      sends_step htypes e (h e (List.mem_append_right _ (List.mem_singleton_self e)))
    rw [Machine.exec_snoc, Machine.emitted_snoc]
    refine ⟨hsends.types, fun r hr => ?_⟩
    rcases List.mem_append.mp hr with hr | hr
    · exact hprintable r hr
    · exact hsends.printable r hr

/-- All records of a run are printed, without a read outside of their arrays.  The file has what was
there before and an entry for each switch off the CPU, or after a hundred of them the last ones. -/
theorem print_run (ro : Rodata) (c : KtCtrl) (tr : List Event) (h : ∀ e ∈ tr, e.StackFits)
    (lines : List Ksyms.Line) (t : Ksyms.Table)
    (hload : Ksyms.load true true lines true = .ok (some t)) (old : List StackEntry) :
    ∃ rows entries, printRecords t ro.maxArgs true ⟨0, old⟩ ((machine ro c).emitted tr) =
        .ok (⟨keptOf 100 entries.length, (if entries.length ≤ 100 then old else []) ++
          entries.drop (entries.length - keptOf 100 entries.length)⟩, rows) ∧
      rows.length = ((machine ro c).emitted tr).length ∧
      List.Forall₂ (EntryOf lines) (((machine ro c).emitted tr).filterMap Record.offcpu?)
        entries := by
  have hloaded : Ksyms.Loaded t lines := Ksyms.loaded_of_load hload
  obtain ⟨rows, entries, hprint, hlen, hentries⟩ := printRecords_spec ro.maxArgs hloaded
    (printable_run ro c h).2 ⟨0, old⟩
  refine ⟨rows, entries, ?_, hlen, hentries⟩
  rw [hprint, rotate_spec (by decide)]

/-- A file with one symbol. -/
def kallsyms : List Ksyms.Line :=
  [⟨4096, [115], fun h => absurd (List.mem_singleton.mp h) (by decide), some fun _ => 0,
    some fun _ => ⟨0, 0⟩⟩]

def kallsymsTable : Ksyms.Table :=
  match Ksyms.load true true kallsyms true with
  | .ok (some t) => t
  | _ => Ksyms.Table.empty

theorem load_kallsyms : Ksyms.load true true kallsyms true = .ok (some kallsymsTable) := by
  obtain ⟨t, ht⟩ : ∃ t, Ksyms.load true true kallsyms true = .ok (some t) := by
    refine Ksyms.load_fits (fun l hl => ?_) (by decide) (fun l hl => ?_)
    · rw [List.mem_singleton.mp hl]
      decide
    · rw [List.mem_singleton.mp hl]
      exact ⟨nofun, nofun⟩
  unfold kallsymsTable
  rw [ht]

/-- A switch with two frames on the stack. -/
def twoFrames : List Event :=
  [.schedSwitch ⟨5, 5⟩ ⟨6, 6⟩ 10 11 ⟨16, Vector.replicate 128 4100⟩ true (some .zero)]

theorem print_run_two :
    ∃ rows entries, printRecords kallsymsTable 20 true ⟨0, []⟩
        ((machine ⟨1, 20⟩ KtCtrl.all).emitted twoFrames) =
        .ok (⟨keptOf 100 entries.length, (if entries.length ≤ 100 then [] else []) ++
          entries.drop (entries.length - keptOf 100 entries.length)⟩, rows) ∧
      rows.length = ((machine ⟨1, 20⟩ KtCtrl.all).emitted twoFrames).length ∧
      List.Forall₂ (EntryOf kallsyms)
        (((machine ⟨1, 20⟩ KtCtrl.all).emitted twoFrames).filterMap Record.offcpu?) entries :=
  print_run ⟨1, 20⟩ KtCtrl.all twoFrames
    (fun e he => by rw [List.mem_singleton.mp he]; exact ⟨by decide, by decide⟩)
    kallsyms kallsymsTable load_kallsyms []

end Kernel

end CpuSubsystem.KeytimeImage
