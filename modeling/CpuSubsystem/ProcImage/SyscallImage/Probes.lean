import CpuSubsystem.ProcImage.SyscallImage.Model
import Mathlib.Tactic.Common

/-!
# What one probe does

One lemma for each function of the model: the fields it leaves alone, the ids it records, the
entries of other threads, and the cases of `sys_exit`.  Later modules cite these and do not unfold
the probes.
-/

namespace CpuSubsystem.SyscallImage

namespace SyscallSeq

/-- The ids recorded in the open batch: `record_syscall[0..count)`. -/
def recorded (seq : SyscallSeq) : List Int := seq.recordSyscall.toList.take seq.count

@[simp] theorem append_count (seq : SyscallSeq) (sel : Bool) (id : Int) (h) :
    (seq.append sel id h).count = seq.count + 1 := rfl

theorem append_recorded (seq : SyscallSeq) (id : Int) (h : seq.count < maxSyscallCount) :
    (seq.append true id h).recorded = seq.recorded ++ [toInt id] := by
  have hlen : seq.count < seq.recordSyscall.toList.length := by
    rw [Vector.length_toList]
    exact h
  simp only [recorded, append, if_true, Vector.toList_set]
  rw [List.take_succ_eq_append_getElem (by rw [List.length_set]; exact hlen),
    List.getElem_set_self, List.take_set, List.set_eq_of_length_le]
  rw [List.length_take]
  exact Nat.min_le_left _ _

theorem enter_of_lt (seq : SyscallSeq) (sel : Bool) (now : UInt64) (id : Int)
    (h : seq.count < maxSyscallCount) :
    seq.enter sel now id = { seq.append sel id h with enterTime := now } := by
  unfold enter
  split
  · rfl
  · rename_i h0
    rw [dif_pos ⟨Nat.le_pred_of_lt h, Nat.pos_of_ne_zero h0⟩]

theorem enter_of_full (seq : SyscallSeq) (sel : Bool) (now : UInt64) (id : Int)
    (h : ¬ seq.count < maxSyscallCount) :
    seq.enter sel now id = { seq with enterTime := now } := by
  unfold enter
  rw [dif_neg (fun h0 => h (by rw [h0]; decide)),
    dif_neg (fun h1 => h (Nat.lt_of_le_pred (by decide) h1.1))]

@[simp] theorem enter_enterTime (seq : SyscallSeq) (sel : Bool) (now : UInt64) (id : Int) :
    (seq.enter sel now id).enterTime = now := by
  by_cases h : seq.count < maxSyscallCount
  · rw [enter_of_lt seq sel now id h]
  · rw [enter_of_full seq sel now id h]

@[simp] theorem enter_sumDelay (seq : SyscallSeq) (sel : Bool) (now : UInt64) (id : Int) :
    (seq.enter sel now id).sumDelay = seq.sumDelay := by
  by_cases h : seq.count < maxSyscallCount
  · rw [enter_of_lt seq sel now id h]; rfl
  · rw [enter_of_full seq sel now id h]

theorem enter_count (seq : SyscallSeq) (sel : Bool) (now : UInt64) (id : Int)
    (h : seq.count < maxSyscallCount) : (seq.enter sel now id).count = seq.count + 1 := by
  rw [enter_of_lt seq sel now id h, append_count]

theorem enter_count_le {seq : SyscallSeq} (h : seq.count ≤ maxSyscallCount) (sel : Bool)
    (now : UInt64) (id : Int) : (seq.enter sel now id).count ≤ maxSyscallCount := by
  by_cases hlt : seq.count < maxSyscallCount
  · rw [enter_count seq sel now id hlt]
    exact hlt
  · rw [enter_of_full seq sel now id hlt]
    exact h

theorem enter_recorded (seq : SyscallSeq) (now : UInt64) (id : Int)
    (h : seq.count < maxSyscallCount) :
    (seq.enter true now id).recorded = seq.recorded ++ [toInt id] := by
  rw [enter_of_lt seq true now id h]
  exact append_recorded seq id h

@[simp] theorem create_count (pid : Int) (sel : Bool) (now : UInt64) (id : Int) :
    (create pid sel now id).count = 1 := rfl

theorem create_recorded (pid : Int) (now : UInt64) (id : Int) :
    (create pid true now id).recorded = [toInt id] :=
  append_recorded zero id (by decide)

@[simp] theorem charge_count (seq : SyscallSeq) (d : UInt64) :
    (seq.charge d).count = seq.count := rfl

@[simp] theorem charge_recorded (seq : SyscallSeq) (d : UInt64) :
    (seq.charge d).recorded = seq.recorded := rfl

@[simp] theorem charge_sumDelay (seq : SyscallSeq) (d : UInt64) :
    (seq.charge d).sumDelay = seq.sumDelay + d := rfl

@[simp] theorem charge_enterTime (seq : SyscallSeq) (d : UInt64) :
    (seq.charge d).enterTime = seq.enterTime := rfl

@[simp] theorem reset_recorded (seq : SyscallSeq) : seq.reset.recorded = [] := rfl

@[simp] theorem total_count (seq : SyscallSeq) (sel : Bool) :
    (seq.total sel).count = seq.count := by
  cases sel <;> rfl

@[simp] theorem total_recorded (seq : SyscallSeq) (sel : Bool) :
    (seq.total sel).recorded = seq.recorded := by
  cases sel <;> rfl

@[simp] theorem total_sumDelay (seq : SyscallSeq) (sel : Bool) :
    (seq.total sel).sumDelay = seq.sumDelay := by
  cases sel <;> rfl

@[simp] theorem total_enterTime (seq : SyscallSeq) (sel : Bool) :
    (seq.total sel).enterTime = seq.enterTime := by
  cases sel <;> rfl

@[simp] theorem fill_pid (seq : SyscallSeq) (sel : Bool) (cur : Task) (mem : SyscallSeq) :
    (seq.fill sel cur mem).pid = cur.pid := rfl

@[simp] theorem fill_count (seq : SyscallSeq) (sel : Bool) (cur : Task) (mem : SyscallSeq) :
    (seq.fill sel cur mem).count = seq.count := rfl

@[simp] theorem fill_sumDelay (seq : SyscallSeq) (sel : Bool) (cur : Task) (mem : SyscallSeq) :
    (seq.fill sel cur mem).sumDelay = seq.sumDelay := rfl

end SyscallSeq

/-- The copy loop transfers the whole batch, whatever the reserved memory held. -/
theorem copyRecord_take (count : Nat) (src dst : Vector Int maxSyscallCount)
    (h : count ≤ maxSyscallCount) :
    (copyRecord count src dst).toList.take count = src.toList.take count := by
  have hmax : maxSyscallCount = 50 := rfl
  apply List.ext_getElem
  · simp only [List.length_take, Vector.length_toList]
  · intro i hi hi'
    have hic : i < count := by
      rw [List.length_take] at hi
      omega
    have hloop : i ≤ (count + (2 ^ 32 - 1)) % 2 ^ 32 := by omega
    simp only [List.getElem_take, Vector.getElem_toList, copyRecord, Vector.getElem_ofFn,
      Fin.getElem_fin]
    rw [if_pos hloop]

theorem SyscallSeq.fill_recorded (seq : SyscallSeq) (sel : Bool) (cur : Task) (mem : SyscallSeq)
    (h : seq.count ≤ maxSyscallCount) : (seq.fill sel cur mem).recorded = seq.recorded :=
  copyRecord_take seq.count seq.recordSyscall mem.recordSyscall h

theorem State.put_lookup_self (s : State) (p : Int) (seq : SyscallSeq) :
    (s.put p seq).procSyscall.lookup p = some seq :=
  BpfMap.lookup_store_self _ p seq

theorem State.put_lookup_of_ne (s : State) {p q : Int} (seq : SyscallSeq) (h : q ≠ p) :
    (s.put p seq).procSyscall.lookup q = s.procSyscall.lookup q :=
  BpfMap.lookup_store_of_ne _ seq h

/-- Whether `sys_enter` records the number of the call: it sees the thread, the control selects
it, and there is room. -/
def records (ro : Rodata) (s : State) (cur : Task) (room : Bool) : Bool :=
  traced ro s.scCtrlMap cur && selected s.scCtrlMap cur.pid cur.tgid &&
    match s.procSyscall.lookup cur.pid with
    | none => room
    | some seq => decide (seq.count < maxSyscallCount)

section Enter

variable (ro : Rodata) (s : State) (cur : Task) (now : UInt64) (id : Int) (room : Bool)

theorem sysEnter_untraced (h : traced ro s.scCtrlMap cur = false) :
    sysEnter ro s cur now id room = s := by
  rw [sysEnter, h, if_neg Bool.false_ne_true]

theorem sysEnter_absent (h : traced ro s.scCtrlMap cur = true)
    (hl : s.procSyscall.lookup cur.pid = none) :
    sysEnter ro s cur now id room =
      { s with
        procSyscall := s.procSyscall.update room cur.pid
          (SyscallSeq.create cur.pid (selected s.scCtrlMap cur.pid cur.tgid) now id) } := by
  simp only [sysEnter, h, if_true, hl]

theorem sysEnter_present (h : traced ro s.scCtrlMap cur = true) {seq : SyscallSeq}
    (hl : s.procSyscall.lookup cur.pid = some seq) :
    sysEnter ro s cur now id room =
      s.put cur.pid (seq.enter (selected s.scCtrlMap cur.pid cur.tgid) now id) := by
  simp only [sysEnter, h, if_true, hl]

/-- `sys_enter` passes the thread by or is refused a new entry, or it writes the entry. -/
theorem sysEnter_cases :
    sysEnter ro s cur now id room = s ∨
    (traced ro s.scCtrlMap cur = true ∧ s.procSyscall.lookup cur.pid = none ∧ room = true ∧
      sysEnter ro s cur now id room =
        s.put cur.pid
          (SyscallSeq.create cur.pid (selected s.scCtrlMap cur.pid cur.tgid) now id)) ∨
    ∃ seq, traced ro s.scCtrlMap cur = true ∧ s.procSyscall.lookup cur.pid = some seq ∧
      sysEnter ro s cur now id room =
        s.put cur.pid (seq.enter (selected s.scCtrlMap cur.pid cur.tgid) now id) := by
  cases h : traced ro s.scCtrlMap cur with
  | false => exact Or.inl (sysEnter_untraced ro s cur now id room h)
  | true =>
    cases hl : s.procSyscall.lookup cur.pid with
    | none =>
      rw [sysEnter_absent ro s cur now id room h hl]
      cases room with
      | false =>
        left
        rw [BpfMap.update_of_not_accepts _ (by rw [BpfMap.accepts, hl]; rfl)]
      | true =>
        rw [BpfMap.update_true]
        exact Or.inr (Or.inl ⟨rfl, rfl, rfl, rfl⟩)
    | some seq =>
      exact Or.inr (Or.inr ⟨seq, rfl, rfl, sysEnter_present ro s cur now id room h hl⟩)

/-- `sys_enter` writes nothing but the entry of the current thread. -/
theorem sysEnter_frame :
    (sysEnter ro s cur now id room).scCtrlMap = s.scCtrlMap ∧
    (sysEnter ro s cur now id room).preTargetPid = s.preTargetPid ∧
    (sysEnter ro s cur now id room).preTargetTgid = s.preTargetTgid ∧
    ∀ p, p ≠ cur.pid →
      (sysEnter ro s cur now id room).procSyscall.lookup p = s.procSyscall.lookup p := by
  rcases sysEnter_cases ro s cur now id room with hs | ⟨-, -, -, hs⟩ | ⟨seq, -, -, hs⟩
  · rw [hs]
    exact ⟨rfl, rfl, rfl, fun _ _ => rfl⟩
  · rw [hs]
    exact ⟨rfl, rfl, rfl, fun p hp => s.put_lookup_of_ne _ hp⟩
  · rw [hs]
    exact ⟨rfl, rfl, rfl, fun p hp => s.put_lookup_of_ne _ hp⟩

end Enter

/-- How `sys_exit` can leave the entry `seq` of the current thread, once it has been charged. -/
inductive ExitCase (s : State) (cur : Task) (slot : Option SyscallSeq) (seq : SyscallSeq) :
    State × List SyscallSeq → Prop where
  -- the batch is still open
  | more (h : seq.count < toUnsigned s.scCtrlMap.syscalls) :
      ExitCase s cur slot seq (s.put cur.pid seq, [])
  -- the first batch after a policy switch is dropped
  | dropPid (h : ¬ seq.count < toUnsigned s.scCtrlMap.syscalls)
      (hp : retargetedPid s cur = true) :
      ExitCase s cur slot seq
        ({ s.put cur.pid seq.reset with preTargetPid := s.scCtrlMap.targetPid }, [])
  | dropTgid (h : ¬ seq.count < toUnsigned s.scCtrlMap.syscalls)
      (hp : retargetedPid s cur = false) (ht : retargetedTgid s cur = true) :
      ExitCase s cur slot seq
        ({ s.put cur.pid seq.reset with preTargetTgid := s.scCtrlMap.targetTgid }, [])
  -- no ring-buffer slot: the batch stays
  | noSlot (h : ¬ seq.count < toUnsigned s.scCtrlMap.syscalls)
      (hp : retargetedPid s cur = false) (ht : retargetedTgid s cur = false)
      (hslot : slot = none) :
      ExitCase s cur slot seq
        (s.put cur.pid (seq.total (selected s.scCtrlMap cur.pid cur.tgid)), [])
  | emit (mem : SyscallSeq) (h : ¬ seq.count < toUnsigned s.scCtrlMap.syscalls)
      (hp : retargetedPid s cur = false) (ht : retargetedTgid s cur = false)
      (hslot : slot = some mem) :
      ExitCase s cur slot seq
        (s.put cur.pid (seq.total (selected s.scCtrlMap cur.pid cur.tgid)).reset,
          [(seq.total (selected s.scCtrlMap cur.pid cur.tgid)).fill
            (selected s.scCtrlMap cur.pid cur.tgid) cur mem])

section Exit

variable (ro : Rodata) (s : State) (cur : Task) (now : UInt64) (slot : Option SyscallSeq)

theorem sysExit_untraced (h : traced ro s.scCtrlMap cur = false) :
    sysExit ro s cur now slot = (s, []) := by
  rw [sysExit, h, if_neg Bool.false_ne_true]

theorem sysExit_absent (hl : s.procSyscall.lookup cur.pid = none) :
    sysExit ro s cur now slot = (s, []) := by
  unfold sysExit
  split
  · rw [hl]
  · rfl

/-- Everything that `sys_exit` can do to an entry. -/
theorem sysExit_present (h : traced ro s.scCtrlMap cur = true) {seq : SyscallSeq}
    (hl : s.procSyscall.lookup cur.pid = some seq) :
    ExitCase s cur slot (seq.charge (now - seq.enterTime)) (sysExit ro s cur now slot) := by
  simp only [sysExit, h, if_true, hl]
  split
  · exact .more ‹_›
  · rename_i hfull
    split
    · exact .dropPid hfull ‹_›
    · rename_i hp
      split
      · exact .dropTgid hfull (Bool.eq_false_of_not_eq_true hp) ‹_›
      · rename_i ht
        cases slot with
        | none =>
          exact .noSlot hfull (Bool.eq_false_of_not_eq_true hp)
            (Bool.eq_false_of_not_eq_true ht) rfl
        | some mem =>
          exact .emit mem hfull (Bool.eq_false_of_not_eq_true hp)
            (Bool.eq_false_of_not_eq_true ht) rfl

/-- `sys_exit` passes the thread by, or it finds an entry to charge. -/
theorem sysExit_cases :
    sysExit ro s cur now slot = (s, []) ∨
    ∃ seq, traced ro s.scCtrlMap cur = true ∧ s.procSyscall.lookup cur.pid = some seq ∧
      ExitCase s cur slot (seq.charge (now - seq.enterTime)) (sysExit ro s cur now slot) := by
  cases h : traced ro s.scCtrlMap cur with
  | false => exact Or.inl (sysExit_untraced ro s cur now slot h)
  | true =>
    cases hl : s.procSyscall.lookup cur.pid with
    | none => exact Or.inl (sysExit_absent ro s cur now slot hl)
    | some seq => exact Or.inr ⟨seq, rfl, rfl, sysExit_present ro s cur now slot h hl⟩

/-- What `sys_exit` emits is a batch that is full and not dropped, in the memory of the slot. -/
theorem sysExit_emits {r : SyscallSeq} (hr : r ∈ (sysExit ro s cur now slot).2) :
    ∃ seq mem, traced ro s.scCtrlMap cur = true ∧ s.procSyscall.lookup cur.pid = some seq ∧
      ¬seq.count < toUnsigned s.scCtrlMap.syscalls ∧ retargetedPid s cur = false ∧
      retargetedTgid s cur = false ∧ slot = some mem ∧
      r = ((seq.charge (now - seq.enterTime)).total
        (selected s.scCtrlMap cur.pid cur.tgid)).fill
          (selected s.scCtrlMap cur.pid cur.tgid) cur mem := by
  rcases sysExit_cases ro s cur now slot with hsame | ⟨seq, ht, hl, hc⟩
  · rw [hsame] at hr
    cases hr
  · generalize sysExit ro s cur now slot = res at hc hr
    cases hc with
    | more _ => cases hr
    | dropPid _ _ => cases hr
    | dropTgid _ _ _ => cases hr
    | noSlot _ _ _ _ => cases hr
    | emit mem hclosed hpid htgid hmem =>
      rw [SyscallSeq.charge_count] at hclosed
      exact ⟨seq, mem, ht, hl, hclosed, hpid, htgid, hmem, List.mem_singleton.mp hr⟩

/-- `sys_exit` leaves the control value and the entries of other threads alone, and what it emits
is for the current thread. -/
theorem sysExit_frame :
    (sysExit ro s cur now slot).1.scCtrlMap = s.scCtrlMap ∧
    (∀ p, p ≠ cur.pid →
      (sysExit ro s cur now slot).1.procSyscall.lookup p = s.procSyscall.lookup p) ∧
    ∀ r ∈ (sysExit ro s cur now slot).2, r.pid = cur.pid := by
  have hpid : ∀ r ∈ (sysExit ro s cur now slot).2, r.pid = cur.pid := by
    intro r hr
    obtain ⟨seq, mem, -, -, -, -, -, -, rfl⟩ := sysExit_emits ro s cur now slot hr
    exact SyscallSeq.fill_pid _ _ cur mem
  rcases sysExit_cases ro s cur now slot with hsame | ⟨seq, -, -, hc⟩
  · rw [hsame] at hpid ⊢
    exact ⟨rfl, fun _ _ => rfl, hpid⟩
  · generalize sysExit ro s cur now slot = res at hc hpid ⊢
    have hne : ∀ (v : SyscallSeq) (p : Int), p ≠ cur.pid →
        (s.put cur.pid v).procSyscall.lookup p = s.procSyscall.lookup p :=
      fun v p hp => s.put_lookup_of_ne v hp
    cases hc with
    | more _ => exact ⟨rfl, hne _, hpid⟩
    | dropPid _ _ => exact ⟨rfl, hne _, hpid⟩
    | dropTgid _ _ _ => exact ⟨rfl, hne _, hpid⟩
    | noSlot _ _ _ _ => exact ⟨rfl, hne _, hpid⟩
    | emit mem _ _ _ _ => exact ⟨rfl, hne _, hpid⟩

/-- What is emitted names the thread group of the current thread. -/
theorem sysExit_tgid {r : SyscallSeq} (hr : r ∈ (sysExit ro s cur now slot).2) :
    r.tgid = cur.tgid := by
  obtain ⟨seq, mem, -, -, -, -, -, -, rfl⟩ := sysExit_emits ro s cur now slot hr
  rfl

end Exit

end CpuSubsystem.SyscallImage
