import CpuSubsystem.ProcImage.SyscallImage.Bounds
import CpuSubsystem.ProcImage.SyscallImage.Ledger
import CpuSubsystem.ProcImage.SyscallImage.Table

/-!
# What a record holds that was not written

The memory of a record is not zeroed, and `sys_exit` writes `proc_count` and `proc_sd` for the
selected threads only.  `print_syscall` reads them under a condition of its own, and under the
control value of the moment at which it prints.  Two runs that differ in the memory alone are
compared.
-/

namespace CpuSubsystem.SyscallImage

/-- The kernel side, the records in the ring buffer, and the reader, which ends with a fault. -/
structure World where
  kernel : State
  ring : List SyscallSeq
  env : Except Fault Env

/-- An event of the kernel side or of the controller, or the reader takes the oldest record. -/
inductive Act where
  | kernel (e : Event)
  | poll
deriving DecidableEq

/-- What a call of `print_syscall` shows: what it divides by, and the row. -/
structure Output where
  procCount : Option Nat
  row : Except Fault (Option Row)

/-- The divisor of a call that prints a row. -/
def divisor (c : ScCtrl) (r : SyscallSeq) : Option Nat :=
  if c.scFunc && printed c r then some r.procCount else none

def World.poll (w : World) : World × List Output :=
  match w.env, w.ring with
  | .ok env, r :: ring =>
    let result := printSyscall w.kernel.scCtrlMap env r
    ({ w with ring := ring, env := result.map Prod.fst },
      [⟨divisor w.kernel.scCtrlMap r, result.map Prod.snd⟩])
  | _, _ => (w, [])

def world (ro : Rodata) (c : ScCtrl) : Machine World Act Output where
  init := ⟨initial c, [], .ok Env.initial⟩
  step w
    | .kernel e =>
      let (s, sent) := step ro w.kernel e
      ({ w with kernel := s, ring := w.ring ++ sent }, [])
    | .poll => w.poll

/-- The act without the memory of the slot. -/
def Act.blank : Act → Act
  | .kernel (.sysExit cur now slot) =>
    .kernel (.sysExit cur now (slot.map fun _ => SyscallSeq.zero))
  | a => a

/-- The same acts, but for the memory of the slots. -/
def SameButMemory (tr tr' : List Act) : Prop := tr.map Act.blank = tr'.map Act.blank

instance (tr tr' : List Act) : Decidable (SameButMemory tr tr') :=
  inferInstanceAs (Decidable (_ = _))

/-- Both runs print the same, and what they divide by is not zero. -/
def PrintsSame (ro : Rodata) (c : ScCtrl) (tr tr' : List Act) : Prop :=
  (world ro c).emitted tr = (world ro c).emitted tr' ∧
  ∀ o ∈ (world ro c).emitted tr, ∀ n, o.procCount = some n → n ≠ 0

/-- How many calls the totals of each thread count since its entry was created, and for the records
in the ring the number that was written, if it was. -/
structure Written where
  calls : Int → Nat
  sent : List (Option Nat)

/-- A full batch, which is not the first one after a policy switch. -/
def submits (ro : Rodata) (s : State) (cur : Task) : Bool := full ro s cur && !dropped s cur

def Written.after (ro : Rodata) (b : Written) (w : World) : Act → Written
  | .kernel (.sysEnter cur _ _ _) =>
    if traced ro w.kernel.scCtrlMap cur && (w.kernel.procSyscall.lookup cur.pid).isNone then
      { b with calls := Function.update b.calls cur.pid 0 }
    else b
  | .kernel (.sysExit cur _ slot) =>
    match w.kernel.procSyscall.lookup cur.pid with
    | none => b
    | some seq =>
      if submits ro w.kernel cur then
        let sel := selected w.kernel.scCtrlMap cur.pid cur.tgid
        let n := if sel then b.calls cur.pid + seq.count else b.calls cur.pid
        { calls := Function.update b.calls cur.pid n
          sent := if slot.isSome then b.sent ++ [if sel then some n else none] else b.sent }
      else b
  | .kernel (.scCtrl _) | .kernel (.schedProcessExit _) => b
  | .poll =>
    match w.env, w.ring with
    | .ok _, _ :: _ => { b with sent := b.sent.tail }
    | _, _ => b

def written (ro : Rodata) (c : ScCtrl) : List Act → Written :=
  (world ro c).ghost ⟨fun _ => 0, []⟩ (Written.after ro)

/-- The totals of a record that is printed were written, and count a number of calls that is not 0
as an `unsigned int`. -/
def ReadsWritten (b : Written) (w : World) : Act → Prop
  | .kernel _ => True
  | .poll =>
    match w.env, w.ring, b.sent with
    | .ok _, r :: _, n :: _ =>
      w.kernel.scCtrlMap.scFunc = true → printed w.kernel.scCtrlMap r = true →
        ∃ m, n = some m ∧ m % 2 ^ 32 ≠ 0
    | _, _, _ => True

/-- Two records in the same place of the ring buffer.  What was not written of the second one meets
`P`. -/
structure Alike (P : Nat → Prop) (n : Option Nat) (r r' : SyscallSeq) : Prop where
  pid : r.pid = r'.pid
  tgid : r.tgid = r'.tgid
  sumDelay : r.sumDelay = r'.sumDelay
  maxDelay : r.maxDelay = r'.maxDelay
  minDelay : r.minDelay = r'.minDelay
  count : r.count = r'.count
  recorded : (List.range r.count).map r.recordAt = (List.range r'.count).map r'.recordAt
  procCount : ∀ m, n = some m → r.procCount = m % 2 ^ 32 ∧ r'.procCount = m % 2 ^ 32
  procSd : n.isSome = true → r.procSd = r'.procSd
  memory : n = none → P r'.procCount

section Reader

variable {P : Nat → Prop} {n : Option Nat} {r r' : SyscallSeq}

/-- The loops of `print_syscall` read the numbers of the batch and nothing behind them. -/
theorem updateSyscalls_map (t : ProcSyscallInfo) (e : SyscallSeq) :
    updateSyscalls t e =
      ((List.range e.count).map e.recordAt).foldlM (fun t x => do t.update (← x)) t := by
  rw [List.foldlM_map]
  rfl

theorem mapM_recordAt (e : SyscallSeq) :
    (List.range e.count).mapM e.recordAt = ((List.range e.count).map e.recordAt).mapM id := by
  rw [List.mapM_map]
  rfl

theorem Alike.printed (h : Alike P n r r') (c : ScCtrl) :
    SyscallImage.printed c r = SyscallImage.printed c r' := by
  rw [SyscallImage.printed, SyscallImage.printed, h.pid, h.tgid]

theorem Alike.add (h : Alike P n r r') (env : Env) : env.add r = env.add r' := by
  rw [Env.add, Env.add, h.sumDelay, h.maxDelay, h.minDelay, h.count]

theorem Alike.update (h : Alike P n r r') (t : ProcSyscallInfo) :
    updateSyscalls t r = updateSyscalls t r' := by
  rw [updateSyscalls_map, updateSyscalls_map, h.recorded]

theorem Alike.print (h : Alike P n r r') {c : ScCtrl} (env : Env)
    (hread : c.scFunc = true → SyscallImage.printed c r = true → ∃ m, n = some m ∧ m % 2 ^ 32 ≠ 0) :
    printSyscall c env r = printSyscall c env r' ∧ divisor c r = divisor c r' ∧
      ∀ k, divisor c r = some k → k ≠ 0 := by
  by_cases hact : c.scFunc = true
  · by_cases hpr : SyscallImage.printed c r = true
    · obtain ⟨m, hn, hm⟩ := hread hact hpr
      have hpr' : SyscallImage.printed c r' = true := by rw [← h.printed, hpr]
      have hcount : r.procCount = r'.procCount :=
        (h.procCount m hn).1.trans (h.procCount m hn).2.symm
      have hsd : r.procSd = r'.procSd := h.procSd (by rw [hn]; rfl)
      refine ⟨?_, ?_, fun k hk => ?_⟩
      · unfold printSyscall
        simp only [hact, if_true, hpr, hpr', h.add env, h.update, h.pid, h.tgid, hcount, hsd,
          h.maxDelay, h.minDelay, mapM_recordAt, h.recorded]
      · rw [divisor, divisor, hact, hpr, hpr', hcount]
      · rw [divisor, hact, hpr] at hk
        cases hk
        rw [(h.procCount m hn).1]
        exact hm
    · have hpr' : ¬ SyscallImage.printed c r' = true := by rwa [← h.printed]
      refine ⟨?_, ?_, fun k hk => ?_⟩
      · unfold printSyscall
        simp only [hact, if_true, if_neg hpr, if_neg hpr', h.add env]
      · simp [divisor, hact, hpr, hpr']
      · simp [divisor, hact, hpr] at hk
  · simp [printSyscall, divisor, hact]

end Reader

/-- The totals in the entries count the calls. -/
def Kept (calls : Int → Nat) (s : State) : Prop :=
  ∀ p seq, s.procSyscall.lookup p = some seq →
    seq.count ≤ maxSyscallCount ∧ seq.procCount = calls p % 2 ^ 32

section Kernel

variable {ro : Rodata} {s : State} {cur : Task} {now : UInt64} {id : Int} {room : Bool}
variable {slot slot' : Option SyscallSeq} {seq : SyscallSeq} {calls : Int → Nat}

theorem Kept.put (h : Kept calls s) (p : Int) {m : Nat} (hcount : seq.count ≤ maxSyscallCount)
    (hproc : seq.procCount = m % 2 ^ 32) : Kept (Function.update calls p m) (s.put p seq) := by
  intro q seq' hq
  by_cases hpq : q = p
  · rw [hpq, s.put_lookup_self] at hq
    cases hq
    rw [hpq, Function.update_self]
    exact ⟨hcount, hproc⟩
  · rw [s.put_lookup_of_ne _ hpq] at hq
    rw [Function.update_of_ne hpq]
    exact h q seq' hq

/-- An entry is overwritten and its totals stay. -/
theorem Kept.put_same (h : Kept calls s) {p : Int} {old : SyscallSeq}
    (hl : s.procSyscall.lookup p = some old) (hcount : seq.count ≤ maxSyscallCount)
    (hproc : seq.procCount = old.procCount) : Kept calls (s.put p seq) := by
  have hput := h.put p hcount (hproc.trans (h p old hl).2)
  rwa [Function.update_eq_self] at hput

/-- A batch that is not submitted is sent in no slot. -/
theorem sysExit_of_not_submits (h : submits ro s cur = false) (now : UInt64)
    (slot : Option SyscallSeq) :
    sysExit ro s cur now slot = ((sysExit ro s cur now none).1, []) := by
  unfold submits full dropped at h
  unfold sysExit
  cases ht : traced ro s.scCtrlMap cur with
  | false => rfl
  | true =>
    cases hl : s.procSyscall.lookup cur.pid with
    | none => rfl
    | some seq =>
      simp only [if_true, SyscallSeq.charge_count]
      by_cases hmore : seq.count < toUnsigned s.scCtrlMap.syscalls
      · simp only [if_pos hmore]
      · simp only [if_neg hmore]
        by_cases hp : retargetedPid s cur = true
        · simp only [if_pos hp]
        · by_cases hg : retargetedTgid s cur = true
          · simp only [if_neg hp, if_pos hg]
          · simp [ht, hl, hmore, hp, hg] at h

theorem sysExit_of_submits (h : submits ro s cur = true)
    (hl : s.procSyscall.lookup cur.pid = some seq) (now : UInt64) (slot : Option SyscallSeq) :
    sysExit ro s cur now slot =
      let sel := selected s.scCtrlMap cur.pid cur.tgid
      let totalled := (seq.charge (now - seq.enterTime)).total sel
      match slot with
      | none => (s.put cur.pid totalled, [])
      | some mem => (s.put cur.pid totalled.reset, [totalled.fill sel cur mem]) := by
  unfold submits full dropped at h
  rw [hl] at h
  simp only [Bool.and_eq_true, Bool.not_eq_true', Bool.or_eq_false_iff, decide_eq_false_iff_not] at h
  obtain ⟨⟨ht, hmore⟩, hp, hg⟩ := h
  unfold sysExit
  cases slot <;>
    simp only [ht, if_true, hl, SyscallSeq.charge_count, if_neg hmore, hp, hg, Bool.false_eq_true,
      if_false]

theorem total_procCount (sel : Bool) (d : UInt64) {m : Nat} (hm : seq.procCount = m % 2 ^ 32) :
    ((seq.charge d).total sel).procCount = (if sel then m + seq.count else m) % 2 ^ 32 := by
  cases sel with
  | false => exact hm
  | true =>
    show (seq.procCount + seq.count) % 2 ^ 32 = (m + seq.count) % 2 ^ 32
    rw [hm, Nat.mod_add_mod]

theorem Kept.enter (h : Kept calls s) :
    Kept
      (if traced ro s.scCtrlMap cur && (s.procSyscall.lookup cur.pid).isNone then
        Function.update calls cur.pid 0 else calls)
      (sysEnter ro s cur now id room) := by
  cases ht : traced ro s.scCtrlMap cur with
  | false =>
    rw [sysEnter_untraced ro s cur now id room ht]
    exact h
  | true =>
    cases hl : s.procSyscall.lookup cur.pid with
    | none =>
      rw [sysEnter_absent ro s cur now id room ht hl]
      intro p seq hp
      show _ ∧ seq.procCount = Function.update calls cur.pid 0 p % 2 ^ 32
      by_cases hpid : p = cur.pid
      · rw [hpid, Function.update_self]
        rw [hpid, BpfMap.lookup_update_self] at hp
        split at hp
        · cases hp
          exact ⟨by rw [SyscallSeq.create_count]; decide, rfl⟩
        · cases hp
      · rw [Function.update_of_ne hpid]
        rw [BpfMap.lookup_update_of_ne _ _ _ hpid] at hp
        exact h p seq hp
    | some seq =>
      rw [sysEnter_present ro s cur now id room ht hl]
      exact h.put_same hl (SyscallSeq.enter_count_le (h _ seq hl).1 _ now id)
        (enter_totals seq _ now id).1

theorem Kept.delete (h : Kept calls s) : Kept calls (schedProcessExit s cur) := by
  unfold schedProcessExit
  split
  · intro p seq hp
    rw [BpfMap.lookup_delete] at hp
    split at hp
    · cases hp
    · exact h p seq hp
  · exact h

/-- A return that does not submit the batch keeps the totals. -/
theorem Kept.stays (h : Kept calls s) (hs : submits ro s cur = false) (now : UInt64)
    (slot : Option SyscallSeq) : Kept calls (sysExit ro s cur now slot).1 := by
  rcases sysExit_cases ro s cur now slot with hsame | ⟨seq, ht, hl, hc⟩
  · rw [hsame]
    exact h
  · have hle := (h _ seq hl).1
    generalize sysExit ro s cur now slot = res at hc
    -- of the ways through the probe, two submit the batch
    have hopen : ¬ (¬ seq.count < toUnsigned s.scCtrlMap.syscalls ∧
        retargetedPid s cur = false ∧ retargetedTgid s cur = false) := by
      rintro ⟨hmore, hp, hg⟩
      simp [submits, full, dropped, ht, hl, hmore, hp, hg] at hs
    cases hc with
    | more _ => exact h.put_same hl hle rfl
    | dropPid _ _ => exact h.put_same hl (Nat.zero_le _) rfl
    | dropTgid _ _ _ => exact h.put_same hl (Nat.zero_le _) rfl
    | noSlot hmore hp hg _ => exact absurd ⟨hmore, hp, hg⟩ hopen
    | emit mem hmore hp hg _ => exact absurd ⟨hmore, hp, hg⟩ hopen

theorem fill_alike {P : Nat → Prop} {m : Nat} {mem' : SyscallSeq} (sel : Bool) (cur : Task)
    (mem : SyscallSeq) (hle : seq.count ≤ maxSyscallCount) (hproc : seq.procCount = m % 2 ^ 32)
    (hmem : P mem'.procCount) :
    Alike P (if sel then some m else none) (seq.fill sel cur mem) (seq.fill sel cur mem') := by
  have hrecord : ∀ mem : SyscallSeq, ∀ i ∈ List.range seq.count,
      (seq.fill sel cur mem).recordAt i = seq.recordAt i := by
    intro mem i hi
    have hlt : i < seq.count := List.mem_range.mp hi
    -- the copying loop runs to `count - 1` in 32 bits, which covers all of the batch
    have hmax : maxSyscallCount = 50 := rfl
    have hbound : i < maxSyscallCount := by omega
    have hloop : i ≤ (seq.count + (2 ^ 32 - 1)) % 2 ^ 32 := by omega
    rw [SyscallSeq.recordAt, SyscallSeq.recordAt, dif_pos hbound, dif_pos hbound]
    simp only [SyscallSeq.fill, copyRecord, Vector.getElem_ofFn, if_pos hloop, Fin.getElem_fin]
  -- `proc_count` and `proc_sd` are written when the thread is selected, the other fields always
  refine ⟨rfl, rfl, rfl, rfl, rfl, rfl, ?_, fun k hk => ?_, fun hsome => ?_, fun hnone => ?_⟩
  · show (List.range seq.count).map _ = (List.range seq.count).map _
    rw [List.map_congr_left (hrecord mem), List.map_congr_left (hrecord mem')]
  · cases sel with
    | false => cases hk
    | true =>
      cases hk
      exact ⟨hproc, hproc⟩
  · cases sel with
    | false => cases hsome
    | true => rfl
  · cases sel with
    | false => exact hmem
    | true => cases hnone

end Kernel

/-- The records in two ring buffers, place by place. -/
inductive Aligned (P : Nat → Prop) :
    List (Option Nat) → List SyscallSeq → List SyscallSeq → Prop where
  | nil : Aligned P [] [] []
  | cons {n : Option Nat} {r r' : SyscallSeq} {ns : List (Option Nat)} {rs rs' : List SyscallSeq}
      (h : Alike P n r r') (hs : Aligned P ns rs rs') : Aligned P (n :: ns) (r :: rs) (r' :: rs')

theorem Aligned.snoc {P : Nat → Prop} {ns : List (Option Nat)} {rs rs' : List SyscallSeq}
    (hs : Aligned P ns rs rs') {n : Option Nat} {r r' : SyscallSeq} (h : Alike P n r r') :
    Aligned P (ns ++ [n]) (rs ++ [r]) (rs' ++ [r']) := by
  induction hs with
  | nil => exact .cons h .nil
  | cons h₀ _ ih => exact .cons h₀ ih

/-- Nothing is sent. -/
theorem Aligned.append_nil {P : Nat → Prop} {ns : List (Option Nat)} {rs rs' : List SyscallSeq}
    (hs : Aligned P ns rs rs') : Aligned P ns (rs ++ []) (rs' ++ []) := by
  rw [List.append_nil, List.append_nil]
  exact hs

/-- Two worlds that differ only in what was not written. -/
structure Twins (P : Nat → Prop) (b : Written) (w w' : World) : Prop where
  kernel : w.kernel = w'.kernel
  env : w.env = w'.env
  ring : Aligned P b.sent w.ring w'.ring
  kept : Kept b.calls w.kernel

/-- The memory of the slot meets `P` where `proc_count` is. -/
def Act.Memory (P : Nat → Prop) : Act → Prop
  | .kernel (.sysExit _ _ (some mem)) => P mem.procCount
  | _ => True

section Steps

variable {ro : Rodata} {c : ScCtrl} {P : Nat → Prop} {b : Written} {w w' : World} {a a' : Act}

/-- Acts that are the same but for the memory. -/
theorem blank_cases (h : a.blank = a'.blank) :
    (∃ cur now slot slot', a = .kernel (.sysExit cur now slot) ∧
      a' = .kernel (.sysExit cur now slot') ∧ slot.isSome = slot'.isSome) ∨
    (a = a' ∧ ∀ cur now slot, a ≠ .kernel (.sysExit cur now slot)) := by
  have hkeep : ∀ x : Act, (∀ cur now slot, x ≠ .kernel (.sysExit cur now slot)) → x.blank = x := by
    intro x hx
    cases x with
    | poll => rfl
    | kernel e =>
      cases e with
      | sysExit cur now slot => exact absurd rfl (hx cur now slot)
      | scCtrl _ | sysEnter _ _ _ _ | schedProcessExit _ => rfl
  by_cases ha : ∃ cur now slot, a = .kernel (.sysExit cur now slot)
  · obtain ⟨cur, now, slot, rfl⟩ := ha
    left
    by_cases ha' : ∃ cur' now' slot', a' = .kernel (.sysExit cur' now' slot')
    · obtain ⟨cur', now', slot', rfl⟩ := ha'
      simp only [Act.blank, Act.kernel.injEq, Event.sysExit.injEq] at h
      obtain ⟨rfl, rfl, hslot⟩ := h
      have hsome := congrArg Option.isSome hslot
      rw [Option.isSome_map, Option.isSome_map] at hsome
      exact ⟨cur, now, slot, slot', rfl, rfl, hsome⟩
    · have hno : ∀ cur now slot, a' ≠ .kernel (.sysExit cur now slot) :=
        fun cur now slot heq => ha' ⟨cur, now, slot, heq⟩
      rw [hkeep a' hno] at h
      exact absurd h.symm (hno _ _ _)
  · have hno : ∀ cur now slot, a ≠ .kernel (.sysExit cur now slot) :=
      fun cur now slot heq => ha ⟨cur, now, slot, heq⟩
    have hno' : ∀ cur now slot, a' ≠ .kernel (.sysExit cur now slot) := by
      rintro cur now slot rfl
      rw [hkeep a hno] at h
      exact hno _ _ _ h
    rw [hkeep a hno, hkeep a' hno'] at h
    exact Or.inr ⟨h, hno⟩

theorem Twins.exit (h : Twins P b w w') (cur : Task) (now : UInt64)
    {slot slot' : Option SyscallSeq} (hslot : slot.isSome = slot'.isSome)
    (hmem : ∀ mem, slot' = some mem → P mem.procCount) :
    Twins P (b.after ro w (.kernel (.sysExit cur now slot)))
      ((world ro c).step w (.kernel (.sysExit cur now slot))).1
      ((world ro c).step w' (.kernel (.sysExit cur now slot'))).1 := by
  show Twins P _
    { w with
      kernel := (sysExit ro w.kernel cur now slot).1
      ring := w.ring ++ (sysExit ro w.kernel cur now slot).2 }
    { w' with
      kernel := (sysExit ro w'.kernel cur now slot').1
      ring := w'.ring ++ (sysExit ro w'.kernel cur now slot').2 }
  rw [← h.kernel]
  cases hs : submits ro w.kernel cur with
  | false =>
    have hafter : b.after ro w (.kernel (.sysExit cur now slot)) = b := by
      simp only [Written.after, hs]
      split <;> rfl
    have hkept := h.kept.stays hs now none
    rw [hafter, sysExit_of_not_submits hs now slot, sysExit_of_not_submits hs now slot',
      List.append_nil, List.append_nil]
    exact ⟨rfl, h.env, h.ring, hkept⟩
  | true =>
    cases hl : w.kernel.procSyscall.lookup cur.pid with
    | none => simp [submits, full, hl] at hs
    | some seq =>
      obtain ⟨hle, hproc⟩ := h.kept cur.pid seq hl
      have htotal := total_procCount (selected w.kernel.scCtrlMap cur.pid cur.tgid)
        (now - seq.enterTime) hproc
      have hle' : ((seq.charge (now - seq.enterTime)).total
          (selected w.kernel.scCtrlMap cur.pid cur.tgid)).count ≤ maxSyscallCount := by
        rw [SyscallSeq.total_count]
        exact hle
      rw [sysExit_of_submits hs hl now slot, sysExit_of_submits hs hl now slot']
      simp only [Written.after, hl, hs, if_true]
      -- a failed reservation fails in both worlds
      cases slot with
      | none =>
        cases slot' with
        | some _ => cases hslot
        | none =>
          rw [List.append_nil, List.append_nil]
          exact ⟨rfl, h.env, h.ring, h.kept.put cur.pid hle' htotal⟩
      | some mem =>
        cases slot' with
        | none => cases hslot
        | some mem' =>
          have halike := fill_alike (selected w.kernel.scCtrlMap cur.pid cur.tgid) cur mem hle'
            htotal (hmem mem' rfl)
          exact ⟨rfl, h.env, h.ring.snoc halike, h.kept.put cur.pid (Nat.zero_le _) htotal⟩

/-- The events of the kernel side and of the controller. -/
theorem Twins.step_kernel (h : Twins P b w w') {e : Event}
    (hblank : (Act.kernel e).blank = a'.blank) (hmem : a'.Memory P) :
    Twins P (b.after ro w (.kernel e)) ((world ro c).step w (.kernel e)).1
      ((world ro c).step w' a').1 := by
  rcases blank_cases hblank with ⟨cur, now, slot, slot', heq, rfl, hslot⟩ | ⟨rfl, hno⟩
  · cases heq
    apply h.exit cur now hslot
    rintro mem rfl
    exact hmem
  · obtain ⟨hkernel, henv, hring, hkept⟩ := h
    cases e with
    | sysExit cur now slot => exact absurd rfl (hno cur now slot)
    | scCtrl c' =>
      refine ⟨?_, henv, hring.append_nil, hkept⟩
      show State.mk _ _ _ _ = State.mk _ _ _ _
      rw [hkernel]
    | sysEnter cur now id room =>
      refine ⟨?_, henv, ?_, ?_⟩
      · show sysEnter ro w.kernel cur now id room = sysEnter ro w'.kernel cur now id room
        rw [hkernel]
      · show Aligned P (Written.sent (if _ then _ else b)) (w.ring ++ []) (w'.ring ++ [])
        split <;> exact hring.append_nil
      · have hcalls : (b.after ro w (.kernel (.sysEnter cur now id room))).calls =
            if traced ro w.kernel.scCtrlMap cur && (w.kernel.procSyscall.lookup cur.pid).isNone then
              Function.update b.calls cur.pid 0 else b.calls := by
          simp only [Written.after]
          split <;> rfl
        rw [hcalls]
        exact hkept.enter
    | schedProcessExit cur =>
      refine ⟨?_, henv, hring.append_nil, hkept.delete⟩
      show schedProcessExit w.kernel cur = schedProcessExit w'.kernel cur
      rw [hkernel]

/-- The reader takes a record, whose totals were written if they are read. -/
theorem Twins.step_poll (h : Twins P b w w') (hread : ReadsWritten b w .poll) :
    Twins P (b.after ro w .poll) w.poll.1 w'.poll.1 ∧ w.poll.2 = w'.poll.2 ∧
      ∀ o ∈ w.poll.2, ∀ n, o.procCount = some n → n ≠ 0 := by
  obtain ⟨s, ring, env⟩ := w
  obtain ⟨s', ring', env'⟩ := w'
  obtain ⟨calls, sent⟩ := b
  obtain ⟨hkernel, henv, hring, hkept⟩ := h
  dsimp only at hkernel henv hring hkept
  subst s' env'
  cases env with
  | error f => exact ⟨⟨rfl, rfl, hring, hkept⟩, rfl, fun o ho => (by cases ho)⟩
  | ok env =>
    cases hring with
    | nil => exact ⟨⟨rfl, rfl, .nil, hkept⟩, rfl, fun o ho => (by cases ho)⟩
    | cons hr hs =>
      obtain ⟨hprint, hdiv, hne⟩ := hr.print env hread
      refine ⟨⟨rfl, ?_, hs, hkept⟩, ?_, fun o ho n hn => ?_⟩
      · simp only [World.poll, hprint]
      · simp only [World.poll, hprint, hdiv]
      · cases List.mem_singleton.mp ho
        exact hne n hn

/-- Totals that are read and were not written, when all memory is zero. -/
theorem Twins.poll_unwritten (h : Twins (· = 0) b w w') (hno : ¬ ReadsWritten b w .poll) :
    ∃ o o', w.poll.2 = [o] ∧ w'.poll.2 = [o'] ∧ o'.procCount = some 0 := by
  obtain ⟨s, ring, env⟩ := w
  obtain ⟨s', ring', env'⟩ := w'
  obtain ⟨calls, sent⟩ := b
  obtain ⟨hkernel, henv, hring, -⟩ := h
  dsimp only at hkernel henv hring
  subst s' env'
  cases env with
  | error f => exact absurd trivial hno
  | ok env =>
    cases hring with
    | nil => exact absurd trivial hno
    | @cons n r r' ns rs rs' hr hs =>
      simp only [ReadsWritten, not_forall] at hno
      obtain ⟨hact, hpr, hcount⟩ := hno
      refine ⟨_, _, rfl, rfl, ?_⟩
      have hzero : r'.procCount = 0 := by
        cases n with
        | none => exact hr.memory rfl
        | some m =>
          rw [(hr.procCount m rfl).2]
          by_contra hm
          exact hcount ⟨m, rfl, hm⟩
      show divisor s.scCtrlMap r' = some 0
      rw [divisor, hact, ← hr.printed, hpr, hzero]
      rfl

end Steps

section Runs

variable {ro : Rodata} {c : ScCtrl} {P : Nat → Prop} {tr tr' : List Act}

/-- The reader of a run reads no totals that were not written. -/
def ReadsNothingElse (ro : Rodata) (c : ScCtrl) (pre : List Act) (a : Act) : Prop :=
  ReadsWritten (written ro c pre) ((world ro c).exec pre) a

theorem twins_run (hsame : SameButMemory tr tr') (hmem : ∀ a ∈ tr', a.Memory P)
    (h : Throughout (ReadsNothingElse ro c) tr) :
    Twins P (written ro c tr) ((world ro c).exec tr) ((world ro c).exec tr') ∧
      PrintsSame ro c tr tr' := by
  induction tr using List.reverseRecOn generalizing tr' with
  | nil =>
    have hnil : tr' = [] := List.map_eq_nil_iff.mp hsame.symm
    subst hnil
    refine ⟨⟨rfl, rfl, .nil, fun p seq hp => (by cases hp)⟩, rfl, fun o ho => (by cases ho)⟩
  | append_singleton pre a ih =>
    have hsplit : tr'.map Act.blank = pre.map Act.blank ++ [a.blank] := by
      rw [← hsame, List.map_append]
      rfl
    obtain ⟨pre', last, rfl, hpre, hlast⟩ := List.map_eq_append_iff.mp hsplit
    obtain ⟨a', rfl⟩ : ∃ a', last = [a'] := by
      have hlen := congrArg List.length hlast
      rw [List.length_map] at hlen
      exact List.length_eq_one_iff.mp hlen
    have hblank : a.blank = a'.blank := (List.singleton_inj.mp hlast).symm
    -- both runs end with acts that are the same but for the memory
    obtain ⟨htwins, hsameout, hnonzero⟩ := ih hpre.symm
      (fun x hx => hmem x (List.mem_append_left _ hx)) h.of_snoc
    have hmem' := hmem a' (List.mem_append_right _ (List.mem_singleton_self a'))
    have hstep : Twins P ((written ro c pre).after ro ((world ro c).exec pre) a)
          ((world ro c).step ((world ro c).exec pre) a).1
          ((world ro c).step ((world ro c).exec pre') a').1 ∧
        ((world ro c).step ((world ro c).exec pre) a).2 =
          ((world ro c).step ((world ro c).exec pre') a').2 ∧
        ∀ o ∈ ((world ro c).step ((world ro c).exec pre) a).2, ∀ n,
          o.procCount = some n → n ≠ 0 := by
      rcases blank_cases hblank with ⟨cur, now, slot, slot', rfl, rfl, -⟩ | ⟨rfl, -⟩
      · exact ⟨htwins.step_kernel hblank hmem', rfl, fun o ho => (by cases ho)⟩
      · cases a with
        | kernel e => exact ⟨htwins.step_kernel hblank hmem', rfl, fun o ho => (by cases ho)⟩
        | poll => exact htwins.step_poll h.last
    obtain ⟨hnext, hout, hne⟩ := hstep
    rw [written, (world ro c).ghost_snoc, (world ro c).exec_snoc, (world ro c).exec_snoc,
      PrintsSame, (world ro c).emitted_snoc, (world ro c).emitted_snoc]
    refine ⟨hnext, ?_, fun o ho => ?_⟩
    · rw [hsameout]
      exact congrArg _ hout
    · rcases List.mem_append.mp ho with ho | ho
      · exact hnonzero o ho
      · exact hne o ho

theorem blank_blank (a : Act) : a.blank.blank = a.blank := by
  cases a with
  | poll => rfl
  | kernel e =>
    cases e with
    | sysExit cur now slot => cases slot <;> rfl
    | scCtrl _ | sysEnter _ _ _ _ | schedProcessExit _ => rfl

/-- The memory of a blank act is zero. -/
theorem blank_memory (a : Act) : a.blank.Memory (· = 0) := by
  cases a with
  | poll => trivial
  | kernel e =>
    cases e with
    | sysExit cur now slot =>
      cases slot with
      | none => trivial
      | some mem => exact rfl
    | scCtrl _ | sysEnter _ _ _ _ | schedProcessExit _ => trivial

theorem sameButMemory_blank (tr : List Act) : SameButMemory tr (tr.map Act.blank) := by
  rw [SameButMemory, List.map_map]
  exact (List.map_congr_left fun a _ => blank_blank a).symm

/-- Whatever the memory of the records held before, `print_syscall` prints the same and divides by
the same numbers, none of them zero, exactly when it reads the totals only of records whose thread
was selected when they were sent, and these totals count something. -/
theorem prints_same_iff (ro : Rodata) (c : ScCtrl) (tr : List Act) :
    (∀ tr', SameButMemory tr tr' → PrintsSame ro c tr tr') ↔
      Throughout (ReadsNothingElse ro c) tr := by
  constructor
  · intro h
    rcases throughout_or_first (Q := ReadsNothingElse ro c) tr with hall | ⟨pre, a, hp, hpre, hno⟩
    · exact hall
    · -- the first read of something else, in this run and in one whose memory is zero
      have hmem : ∀ x ∈ pre.map Act.blank, x.Memory (· = 0) := by
        intro x hx
        obtain ⟨y, -, rfl⟩ := List.mem_map.mp hx
        exact blank_memory y
      obtain ⟨htwins, hsame, -⟩ := twins_run (sameButMemory_blank pre) hmem hpre
      obtain ⟨hout, hnonzero⟩ := h (tr.map Act.blank) (sameButMemory_blank tr)
      cases a with
      | kernel e => exact absurd trivial hno
      | poll =>
        obtain ⟨o, o', ho, ho', hzero⟩ := htwins.poll_unwritten hno
        have h₁ := (world ro c).emitted_grows hp
        have h₂ := (world ro c).emitted_grows (hp.map Act.blank)
        rw [(world ro c).emitted_snoc] at h₁
        rw [List.map_append, List.map_singleton, (world ro c).emitted_snoc, ← hsame, ← hout] at h₂
        have e₁ : (world ro c).emits pre .poll = [o] := ho
        have e₂ : (world ro c).emits (pre.map Act.blank) .poll = [o'] := ho'
        change _ ++ (world ro c).emits (pre.map Act.blank) .poll <+: _ at h₂
        -- both outputs begin alike, and this one comes next in each
        rw [e₁] at h₁
        rw [e₂] at h₂
        have heq := (List.prefix_of_prefix_length_le h₁ h₂ (by simp)).eq_of_length (by simp)
        have hoo : o = o' := List.singleton_inj.mp (List.append_cancel_left heq)
        have hmemo : o ∈ (world ro c).emitted tr := h₁.subset (by simp)
        rw [hoo] at hmemo
        exact absurd rfl (hnonzero o' hmemo 0 hzero)
  · intro h tr' hsame
    -- nothing is asked of the memory here
    have hany : ∀ a ∈ tr', a.Memory (fun _ => True) := by
      intro a _
      unfold Act.Memory
      split <;> trivial
    exact (twins_run hsame hany h).2

/-- The thread 5 and the thread group 9 are targets at the same time. -/
def bothTargets : ScCtrl where
  scFunc := true
  enableMyproc := true
  isContainer := false
  targetPid := 5
  targetTgid := 9
  syscalls := 1

/-- One call of thread 5, of the group 4; `n` is what the memory of its record held in place of
`proc_count`. -/
def callOver (n : Nat) : List Act :=
  [.kernel (.sysEnter sampleTask 10 3 true),
    .kernel (.sysExit sampleTask 20 (some { SyscallSeq.zero with procCount := n })),
    .poll]

theorem callOver_prints_memory :
    ¬ ∀ (ro : Rodata) (c : ScCtrl) (tr tr' : List Act), SameButMemory tr tr' →
      PrintsSame ro c tr tr' := by
  intro h
  have hsame := h ⟨1, []⟩ bothTargets (callOver 7) (callOver 8) (by decide)
  have hcounts := congrArg (List.map Output.procCount) hsame.1
  revert hcounts
  decide

end Runs

end CpuSubsystem.SyscallImage
